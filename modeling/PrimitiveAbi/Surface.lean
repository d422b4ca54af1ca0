import PrimitiveAbi.Text.Blank
import PrimitiveAbi.Text.Quoted

/-!
# Surfaces

A surface is one of the two sets of names that generated code may bind against, and a filter says
which surfaces a published document covers. Both are read from text without regard to white space
around it and to the case of ASCII letters. A filter may also be left to the environment: a flag
wins over the variable, and the variable over the default, which is to cover everything.
-/

namespace PrimitiveAbi

/-- A set of public names. -/
inductive Surface where
  /-- `add`, `lt`, `display_line`: names in words, signed arithmetic. -/
  | spelled
  /-- `+`, `<`, `display-line`: operator names, unsigned arithmetic. -/
  | symbolic
  deriving DecidableEq, Repr

/-- The surfaces that a document covers. -/
inductive SurfaceFilter where
  | spelled
  | symbolic
  | all
  deriving DecidableEq, Repr

/-- A text that names no surface. -/
structure SurfaceError where
  value : String
  deriving DecidableEq, Repr

/-- A text that names no filter. -/
structure FilterError where
  value : String
  deriving DecidableEq, Repr

/-- A value of the environment variable that names no filter. -/
structure EnvironmentError where
  value : String
  deriving DecidableEq, Repr

namespace Surface

def name : Surface → String
  | .spelled => "spelled"
  | .symbolic => "symbolic"

/-- The surface that a text names. -/
def parse (s : String) : Except SurfaceError Surface :=
  if Text.canonical s = "spelled" then .ok .spelled
  else if Text.canonical s = "symbolic" then .ok .symbolic
  else .error ⟨s⟩

end Surface

def SurfaceError.message (e : SurfaceError) : String :=
  "invalid surface " ++ Text.quote e.value ++ " (expected one of: spelled, symbolic)"

namespace SurfaceFilter

def name : SurfaceFilter → String
  | .spelled => "spelled"
  | .symbolic => "symbolic"
  | .all => "all"

/-- The filters in the order in which messages list them. -/
def every : List SurfaceFilter := [.spelled, .symbolic, .all]

/-- The filter with exactly this name. -/
def ofName? (s : String) : Option SurfaceFilter :=
  every.find? (·.name = s)

/-- Whether the filter covers a surface. -/
def includes : SurfaceFilter → Surface → Bool
  | .spelled, s => s = .spelled
  | .symbolic, s => s = .symbolic
  | .all, _ => true

/-- The filter that covers one surface. -/
def only : Surface → SurfaceFilter
  | .spelled => .spelled
  | .symbolic => .symbolic

/-- The filter that a text names; a blank text names all surfaces. -/
def parse (s : String) : Except FilterError SurfaceFilter :=
  if Text.canonical s = "spelled" then .ok .spelled
  else if Text.canonical s = "symbolic" then .ok .symbolic
  else if Text.canonical s = "all" ∨ Text.canonical s = "" then .ok .all
  else .error ⟨s⟩

/-- The environment variable that a filter is taken from where no flag gives one. -/
def environmentVariable : String := "DOIT_ABI_SURFACE"

/-- The filter in force, from the flag and the text of the environment variable. -/
def resolve : Option SurfaceFilter → Option String → Except EnvironmentError SurfaceFilter
  | some filter, _ => .ok filter
  | none, none => .ok .all
  | none, some value => (parse value).mapError fun e => ⟨e.value⟩

/-- The text in the environment variable; bytes that are no text count as unset. -/
def environmentText (bytes : Option ByteArray) : Option String :=
  bytes.bind String.fromUTF8?

theorem ofName?_name (f : SurfaceFilter) : ofName? f.name = some f := by
  cases f <;> decide

theorem ofName?_eq_some_iff {s : String} {f : SurfaceFilter} :
    ofName? s = some f ↔ f.name = s := by
  constructor
  · intro h
    simpa using List.find?_some h
  · rintro rfl
    exact ofName?_name f

end SurfaceFilter

def FilterError.message (e : FilterError) : String :=
  "invalid surface " ++ Text.quote e.value ++ " (expected one of: spelled, symbolic, all)"

/-- What went wrong, the outermost circumstance first. -/
def EnvironmentError.chain (e : EnvironmentError) : List String :=
  ["invalid environment variable " ++ SurfaceFilter.environmentVariable ++ "=" ++
     Text.quote e.value,
   FilterError.message ⟨e.value⟩]

end PrimitiveAbi
