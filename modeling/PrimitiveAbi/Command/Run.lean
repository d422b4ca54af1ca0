import PrimitiveAbi.Command.FileTree
import PrimitiveAbi.Command.Invocation
import PrimitiveAbi.Header
import PrimitiveAbi.Mangling
import PrimitiveAbi.Requires

/-!
# Running the command

A run goes from the arguments, the environment variable and a file tree to an exit status, the two
output streams and the tree after it. The status is 0 for success, 1 when requirements are missing
and 2 for every other complaint, which leaves the tree as it was but for the directories that had
been made for the output. What is published goes to a file only when one is asked for.
-/

namespace PrimitiveAbi.Command

/-- Why a file could not be read as text. -/
inductive ReadError where
  | system (error : OsError)
  | notText
  deriving DecidableEq, Repr

def ReadError.message : ReadError → String
  | .system error => error.message
  | .notText => "stream did not contain valid UTF-8"

/-- What a run complains about. -/
inductive Complaint where
  | usage
  | environment (error : EnvironmentError)
  | unreadable (path : String) (error : ReadError)
  /-- The file holds no requirements. -/
  | refused (path : String) (fault : Json.Fault)
  | unchecked (error : CheckError)
  | missing (requests : List String)
  | noDirectory (path : String) (error : OsError)
  | unwritable (path : String) (error : OsError)
  deriving DecidableEq, Repr

/-- The text of a fault, where a document has one. -/
def faultText : Json.Fault → String
  | .truncated => "the text ends too early"
  | .malformed => "not a JSON document"
  | .mismatch what => what.message

namespace Complaint

/-- What went wrong, the outermost circumstance first. -/
def chain : Complaint → List String
  | .usage => ["usage: doit-abi manifest|header [--surface FILTER] [--out PATH], " ++
      "check --requires PATH, mangle NAME..."]
  | .environment error => error.chain
  | .unreadable path error => ["read requires: " ++ path, error.message]
  | .refused path fault => ["parse requires: " ++ path, faultText fault]
  | .unchecked error => error.chain
  | .missing requests =>
      [toString requests.length ++ " required symbol(s) not exported by the runtime",
       String.intercalate ", " requests]
  | .noDirectory path error => ["create dir: " ++ path, error.message]
  | .unwritable path error => ["write: " ++ path, error.message]

/-- The line on standard error. -/
def message (c : Complaint) : String :=
  "doit-abi: " ++ String.intercalate ": " c.chain ++ "\n"

/-- The exit status that goes with a complaint. -/
def status : Complaint → Nat
  | .missing _ => 1
  | _ => 2

end Complaint

/-! ### What is asked for, without files -/

/-- The filter in force, from the flag and the bytes of the environment variable. -/
def filterInForce (flag : Option SurfaceFilter) (environment : Option ByteArray) :
    Except EnvironmentError SurfaceFilter :=
  SurfaceFilter.resolve flag (SurfaceFilter.environmentText environment)

def manifestText (filter : SurfaceFilter) : String :=
  (Manifest.build filter).pretty ++ "\n"

def headerText (filter : SurfaceFilter) : String :=
  Header.render (Manifest.build filter)

/-- One symbol for each name, each on a line of its own. -/
def symbolLines (names : List String) : String :=
  String.join (names.map fun name => Mangling.mangle name ++ "\n")

/-- The requirements in a file, from what reading it gave. -/
def requiresIn (path : String) (content : Except OsError ByteArray) :
    Except Complaint Requires :=
  match content with
  | .error e => .error (.unreadable path (.system e))
  | .ok bytes =>
      match String.fromUTF8? bytes with
      | none => .error (.unreadable path .notText)
      | some text =>
          match Requires.parse text with
          | .error fault => .error (.refused path fault)
          | .ok r => .ok r

/-- The report on the requirements in a file. -/
def checkFile (path : String) (content : Except OsError ByteArray) : Except Complaint Report :=
  match requiresIn path content with
  | .error c => .error c
  | .ok r => r.check.mapError .unchecked

/-! ### Products -/

/-- A text that a run puts out, and the complaint that goes with it. -/
structure Product where
  text : String
  /-- The file that the text goes to; standard output if there is none. -/
  out : Option String := none
  complaint : Option Complaint := none
  deriving DecidableEq, Repr

namespace Invocation

/-- The file that is read. -/
def input? : Invocation → Option String
  | .check path => some path
  | _ => none

/-- What is put out, from what reading a file gives. -/
def product (read : String → Except OsError ByteArray) (environment : Option ByteArray) :
    Invocation → Except Complaint Product
  | .manifest surface out =>
      match filterInForce surface environment with
      | .error e => .error (.environment e)
      | .ok filter => .ok { text := manifestText filter, out }
  | .header surface out =>
      match filterInForce surface environment with
      | .error e => .error (.environment e)
      | .ok filter => .ok { text := headerText filter, out }
  | .check path =>
      match checkFile path (read path) with
      | .error c => .error c
      | .ok report =>
          .ok { text := report.compact ++ "\n",
                complaint := if report.ok then none else some (.missing report.missing) }
  | .mangle names => .ok { text := symbolLines names }

end Invocation

/-! ### Runs -/

/-- How a run ends. -/
structure Outcome where
  stdout : String := ""
  complaint : Option Complaint := none
  tree : FileTree

namespace Outcome

/-- The exit status. -/
def status (o : Outcome) : Nat :=
  match o.complaint with
  | none => 0
  | some c => c.status

/-- The text on standard error. -/
def stderr (o : Outcome) : String :=
  match o.complaint with
  | none => ""
  | some c => c.message

/-- A run that only complains. -/
def refuse (tree : FileTree) (c : Complaint) : Outcome :=
  { complaint := some c, tree }

end Outcome

/-- Writes a file. -/
def writeText (tree : FileTree) (path text : String) : Outcome :=
  match tree.write path text.toUTF8 with
  | .error e => .refuse tree (.unwritable path e)
  | .ok written => { tree := written }

/-- Writes a file after the directories that it lies in are made; those that were made stay where
this fails. -/
def save (tree : FileTree) (path text : String) : Outcome :=
  match parentPath? path with
  | none => writeText tree path text
  | some parent =>
      match tree.makeDirectories parent with
      | .error halted => .refuse halted.tree (.noDirectory parent halted.error)
      | .ok ready => writeText ready path text

/-- Puts a product out. -/
def Product.publish (p : Product) (tree : FileTree) : Outcome :=
  match p.out with
  | none => { stdout := p.text, complaint := p.complaint, tree }
  | some path => save tree path p.text

/-- Does what is asked for. -/
def Invocation.run (tree : FileTree) (environment : Option ByteArray) (i : Invocation) : Outcome :=
  match i.product tree.read environment with
  | .error c => .refuse tree c
  | .ok p => p.publish tree

/-- Runs the command on arguments. -/
def run (tree : FileTree) (environment : Option ByteArray) (arguments : List String) : Outcome :=
  match Invocation.ofArguments? arguments with
  | none => .refuse tree .usage
  | some invocation => invocation.run tree environment

end PrimitiveAbi.Command
