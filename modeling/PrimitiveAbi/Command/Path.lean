/-!
# Paths

A path is split at its slashes into a way of names, `.` and `..`. The text of the directory that a
path lies in is the path without its last part and without the slashes and `.` parts before it.
-/

namespace PrimitiveAbi.Command

/-- The parts of a text between slashes, empty ones included. -/
def splitSlash : List Char → List (List Char)
  | [] => [[]]
  | c :: cs =>
      match splitSlash cs with
      | [] => [[]]
      | part :: parts => if c = '/' then [] :: part :: parts else (c :: part) :: parts

/-- The parts with a slash between them. -/
def joinSlash (parts : List (List Char)) : List Char :=
  List.intercalate ['/'] parts

/-- A part that a path does not need: an empty one or `.`. -/
def isIdle (part : List Char) : Bool :=
  part.isEmpty || part = ['.']

/-- The parts without the idle ones at the end. -/
def withoutIdleEnd (parts : List (List Char)) : List (List Char) :=
  (parts.reverse.dropWhile isIdle).reverse

/-- How many characters at the front of a path are no part: a leading slash or a leading `.`. -/
def frontLength : List Char → Nat
  | '/' :: _ => 1
  | ['.'] => 1
  | '.' :: '/' :: _ => 1
  | _ => 0

/-- The text of the directory that a path lies in; nothing if the path has one part or none. -/
def parentPath? (path : String) : Option String :=
  let cs := path.toList
  let front := cs.take (frontLength cs)
  match withoutIdleEnd (splitSlash (cs.drop (frontLength cs))) with
  | [] => none
  | parts =>
      let parent := front ++ joinSlash (withoutIdleEnd parts.dropLast)
      if parent.isEmpty then none else some (String.ofList parent)

/-- A path and the directories that it lies in, the innermost first and at most so many. -/
def lineage : Nat → String → List String
  | 0, _ => []
  | limit + 1, path =>
      path :: match parentPath? path with
        | none => []
        | some parent => lineage limit parent

/-- The parts of a path that are not empty. -/
def pathParts (path : String) : List String :=
  ((splitSlash path.toList).filter (!·.isEmpty)).map String.ofList

/-- Whether a path ends with a slash. -/
def endsInSlash (path : String) : Bool :=
  path.toList.getLast? = some '/'

end PrimitiveAbi.Command
