import PrimitiveAbi.Surface

/-!
# Invocations

What the arguments of the command line ask for. A subcommand comes first. An option is given as
`--option value` or `--option=value`, each at most once and never with an empty value; `-` is an
ordinary argument, and behind `--` every argument is. Other arguments that start with a hyphen are
options. Arguments that follow no rule are a usage error.
-/

namespace PrimitiveAbi.Command

inductive Invocation where
  /-- Publish the manifest. -/
  | manifest (surface : Option SurfaceFilter) (out : Option String)
  /-- Publish the C header. -/
  | header (surface : Option SurfaceFilter) (out : Option String)
  /-- Check the requirements in a file. -/
  | check (requires : String)
  /-- Show the symbols of names. -/
  | mangle (names : List String)
  deriving DecidableEq, Repr

/-- An argument that is no option even where options may come. -/
def isOrdinary (argument : String) : Bool :=
  argument = "-" || argument.toList.head? ≠ some '-'

/-- Splits an argument `--option=value` at the first equals sign. -/
def splitOption (argument : String) : Option (String × Option String) :=
  match argument.toList with
  | '-' :: '-' :: rest =>
      let name := String.ofList (rest.takeWhile (· ≠ '='))
      match rest.dropWhile (· ≠ '=') with
      | [] => some (name, none)
      | _ :: value => some (name, some (String.ofList value))
  | _ => none

/-- The options of a subcommand without other arguments, with their values in order. The known
options are given by name. -/
def options (known : List String) : List String → Option (List (String × String))
  | [] => some []
  | ["--"] => some []
  | argument :: rest =>
      match splitOption argument with
      | none => none
      | some (name, some value) =>
          if known.contains name then (options known rest).map ((name, value) :: ·) else none
      | some (name, none) =>
          match rest with
          | value :: rest =>
              if known.contains name && isOrdinary value then
                (options known rest).map ((name, value) :: ·)
              else none
          | [] => none

/-- Each option once, and none with an empty value. -/
def wellUsed (given : List (String × String)) : Bool :=
  decide (given.map (·.1)).Nodup && given.all (·.2 ≠ "")

/-- What a publishing subcommand asks for: its filter and the file to write. -/
def publication (arguments : List String) : Option (Option SurfaceFilter × Option String) := do
  let given ← options ["surface", "out"] arguments
  if !wellUsed given then none
  match given.lookup "surface" with
  | none => return (none, given.lookup "out")
  | some name => return (some (← SurfaceFilter.ofName? name), given.lookup "out")

/-- The arguments that are no options: those before `--`, which must be ordinary, and all behind. -/
def ordinary : List String → Option (List String)
  | [] => some []
  | argument :: rest =>
      if argument = "--" then some rest
      else if isOrdinary argument then (ordinary rest).map (argument :: ·)
      else none

/-- What the arguments ask for; nothing is a usage error. -/
def Invocation.ofArguments? : List String → Option Invocation
  | "manifest" :: rest => do
      let (surface, out) ← publication rest
      return .manifest surface out
  | "header" :: rest => do
      let (surface, out) ← publication rest
      return .header surface out
  | "check" :: rest => do
      let given ← options ["requires"] rest
      if !wellUsed given then none
      return .check (← given.lookup "requires")
  | "mangle" :: rest => do
      let names ← ordinary rest
      if names.isEmpty then none
      return .mangle names
  | _ => none

end PrimitiveAbi.Command
