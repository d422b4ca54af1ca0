import PrimitiveAbi.Command.Run

/-!
# The command line

The command on the file system of the machine: it reads the file that an invocation needs, and puts
out what the invocation produces. All else is decided by `Invocation.product`.
-/

namespace PrimitiveAbi.Command.Disk

/-- The error with a number that may have been negated. -/
def errorOfNumber (text : String) (code : UInt32) : OsError :=
  .ofCode text (if code < 0x80000000 then code.toNat else (0 - code).toNat)

/-- The system's error behind a failure. -/
def errorOf : IO.Error → OsError
  | .noFileOrDirectory _ code text | .interrupted _ code text => errorOfNumber text code
  | .alreadyExists _ code text | .invalidArgument _ code text | .permissionDenied _ code text
  | .resourceExhausted _ code text | .inappropriateType _ code text
  | .noSuchThing _ code text => errorOfNumber text code
  | .otherError code text | .resourceBusy code text | .resourceVanished code text
  | .unsupportedOperation code text | .hardwareFault code text
  | .unsatisfiedConstraints code text | .illegalOperation code text
  | .protocolError code text | .timeExpired code text => errorOfNumber text code
  | .unexpectedEof => .other "unexpected end of file" 0
  | .userError text => .other text 0

/-- What an action gives, or the system's error. -/
def attempt {α : Type} (action : IO α) : IO (Except OsError α) := do
  match ← action.toBaseIO with
  | .ok a => return .ok a
  | .error e => return .error (errorOf e)

/-- Whether a path leads to a directory. -/
def leadsToDirectory (path : String) : IO Bool := do
  match ← attempt (IO.FS.realPath path) with
  | .ok place => place.isDir
  | .error _ => return false

/-- What came of making a directory, which is as good as made if it was there. -/
def settle (path : String) (made : Except OsError Unit) : IO (Except OsError Unit) := do
  if ← leadsToDirectory path then return .ok () else return made

/-- Makes directories that lie in one another, given from the innermost to the outermost: those
around one are made only if it cannot be made without them. -/
def makeLineage : List String → IO (Except OsError Unit)
  | [] => return .ok ()
  | path :: around => do
      match ← attempt (IO.FS.createDir path) with
      | .ok () => return .ok ()
      | .error .noEntry =>
          match ← makeLineage around with
          | .error e => return .error e
          | .ok () => settle path (← attempt (IO.FS.createDir path))
      | .error e => settle path (.error e)

/-- Writes a file after the directories that it lies in are made. -/
def save (path text : String) : IO (Option Complaint) := do
  let parent := parentPath? path
  match ← makeLineage ((parent.map fun p => lineage p.length p).getD []) with
  | .error e => return some (.noDirectory (parent.getD "") e)
  | .ok () =>
      match ← attempt (IO.FS.writeBinFile path text.toUTF8) with
      | .error e => return some (.unwritable path e)
      | .ok () => return none

/-- Puts a product out. -/
def publish (p : Product) : IO (Option Complaint) := do
  match p.out with
  | none =>
      IO.print p.text
      return p.complaint
  | some path => save path p.text

/-- Runs the command; the result is what it complains about. -/
def run (arguments : List String) : IO (Option Complaint) := do
  let some invocation := Invocation.ofArguments? arguments | return some .usage
  let environment := (← IO.getEnv SurfaceFilter.environmentVariable).map (·.toUTF8)
  let content ← match invocation.input? with
    | none => pure (.error .noEntry)
    | some path => attempt (IO.FS.readBinFile path)
  match invocation.product (fun _ => content) environment with
  | .error c => return some c
  | .ok p => publish p

end PrimitiveAbi.Command.Disk

def main (arguments : List String) : IO UInt32 := do
  match ← PrimitiveAbi.Command.Disk.run arguments with
  | none => return 0
  | some c =>
      IO.eprint c.message
      return c.status.toUInt32
