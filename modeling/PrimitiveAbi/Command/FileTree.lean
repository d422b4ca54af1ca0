import PrimitiveAbi.Command.Path
import Std.Data.HashMap

/-!
# File trees

Files and directories, in the working directory and outside it. A place is reached by names from the
root, from the working directory or from a directory that this one lies in; a path leaves the
working directory by a leading slash or by `..`, and cannot come back, since the names of the
directories around it are not known. An operation follows a path part by part and fails with the
operating system's error at the first part that is missing, no directory or too long. `lookup?` is
the view of a tree. Writing changes it at one place; directories are made one after another, and
those made stay where a later one cannot be made.
-/

namespace PrimitiveAbi.Command

/-- An error of the operating system. -/
inductive OsError where
  | noEntry
  | alreadyExists
  | notDirectory
  | isDirectory
  | nameTooLong
  /-- Any other error, by the text and the number that the system gives it. -/
  | other (text : String) (code : Nat)
  deriving DecidableEq, Repr

namespace OsError

def text : OsError → String
  | .noEntry => "No such file or directory"
  | .alreadyExists => "File exists"
  | .notDirectory => "Not a directory"
  | .isDirectory => "Is a directory"
  | .nameTooLong => "File name too long"
  | .other text _ => text

def code : OsError → Nat
  | .noEntry => 2
  | .alreadyExists => 17
  | .notDirectory => 20
  | .isDirectory => 21
  | .nameTooLong => 36
  | .other _ code => code

/-- The error with a number; the text is for those that have no name here. -/
def ofCode (text : String) : Nat → OsError
  | 2 => .noEntry
  | 17 => .alreadyExists
  | 20 => .notDirectory
  | 21 => .isDirectory
  | 36 => .nameTooLong
  | code => .other text code

def message (e : OsError) : String :=
  e.text ++ " (os error " ++ toString e.code ++ ")"

end OsError

/-- A directory that ways start in. -/
inductive Origin where
  /-- The root of the file system. -/
  | root
  /-- The directory so many levels above the working directory, which is itself at level 0. -/
  | above (levels : Nat)
  deriving DecidableEq, Hashable, Repr

/-- A place, by the names on the way to it. -/
structure Place where
  origin : Origin
  names : List String
  deriving DecidableEq, Hashable, Repr

namespace Place

/-- The place that names lead to from the working directory. -/
def inside (names : List String) : Place :=
  ⟨.above 0, names⟩

/-- A name in a directory. -/
def child (place : Place) (name : String) : Place :=
  ⟨place.origin, place.names ++ [name]⟩

/-- The directory that a place lies in; the root lies in itself. -/
def outer : Place → Place
  | ⟨.root, []⟩ => ⟨.root, []⟩
  | ⟨.above levels, []⟩ => ⟨.above (levels + 1), []⟩
  | ⟨origin, names⟩ => ⟨origin, names.dropLast⟩

/-- The places on the way to a place, without the one where it starts. -/
def ancestors (place : Place) : List Place :=
  (List.range place.names.length).filterMap fun i =>
    if i = 0 then none else some ⟨place.origin, place.names.take i⟩

end Place

/-- Where a path starts. -/
def startOf (path : String) : Place :=
  if path.toList.head? = some '/' then ⟨.root, []⟩ else .inside []

inductive Node where
  | file (content : ByteArray)
  | directory

instance : DecidableEq Node
  | .file a, .file b =>
      match ByteArray.instDecidableEq a b with
      | isTrue h => isTrue (congrArg Node.file h)
      | isFalse h => isFalse fun e => h (Node.file.inj e)
  | .file _, .directory => isFalse nofun
  | .directory, .file _ => isFalse nofun
  | .directory, .directory => isTrue rfl

/-- What is at each place where something is. -/
structure FileTree where
  nodes : Std.HashMap Place Node

namespace FileTree

/-- What is at a place; where ways start there is a directory. -/
def lookup? (t : FileTree) (place : Place) : Option Node :=
  if place.names = [] then some .directory else t.nodes[place]?

def isDirectory (t : FileTree) (place : Place) : Bool :=
  t.lookup? place = some .directory

/-- The tree with a node put at a place. -/
def put (t : FileTree) (place : Place) (node : Node) : FileTree :=
  ⟨t.nodes.insert place node⟩

theorem lookup?_put {t : FileTree} {place other : Place} {node : Node} (h : place.names ≠ []) :
    (t.put place node).lookup? other = if other = place then some node else t.lookup? other := by
  unfold lookup? put
  by_cases hp : other = place
  · subst hp; simp [h]
  · simp [hp, Std.HashMap.getElem?_insert, Ne.symm hp]

/-- The tree with some files in the working directory and the directories that they lie in. -/
def ofFiles (files : List (String × ByteArray)) : FileTree :=
  let places := files.map fun (path, content) => (Place.inside (pathParts path), content)
  let directories := places.flatMap fun (place, _) => place.ancestors.map (·, Node.directory)
  ⟨Std.HashMap.ofList (directories ++ places.map fun (place, content) => (place, .file content))⟩

/-- The bytes that a name may have. -/
def nameLimit : Nat := 255

/-- The bytes that a path may have. -/
def pathLimit : Nat := 4095

/-- One part of a path, from a directory. -/
def enter (t : FileTree) (place : Place) (part : String) : Except OsError Place :=
  if !t.isDirectory place then .error .notDirectory
  else if part = "." then .ok place
  else if part = ".." then .ok place.outer
  else if nameLimit < part.utf8ByteSize then .error .nameTooLong
  else if (t.lookup? (place.child part)).isNone then .error .noEntry
  else .ok (place.child part)

/-- The parts of a path one after another. -/
def walk (t : FileTree) : Place → List String → Except OsError Place
  | place, [] => .ok place
  | place, part :: parts =>
      match t.enter place part with
      | .error e => .error e
      | .ok place => t.walk place parts

/-- The place that a path leads to. -/
def resolve (t : FileTree) (path : String) : Except OsError Place :=
  if pathLimit < path.utf8ByteSize then .error .nameTooLong
  else
    match t.walk (startOf path) (pathParts path) with
    | .error e => .error e
    | .ok place =>
        if endsInSlash path && !t.isDirectory place then .error .notDirectory else .ok place

/-- The content of the file at a path. -/
def read (t : FileTree) (path : String) : Except OsError ByteArray :=
  match t.resolve path with
  | .error e => .error e
  | .ok place =>
      match t.lookup? place with
      | some (.file content) => .ok content
      | some .directory => .error .isDirectory
      | none => .error .noEntry

/-- The place that the last part of a path names in the directory before it, whether or not
anything is there; nothing if that part is no name. -/
def target (t : FileTree) (path : String) : Except OsError (Option Place) :=
  if pathLimit < path.utf8ByteSize then .error .nameTooLong
  else
    let parts := pathParts path
    match t.walk (startOf path) parts.dropLast with
    | .error e => .error e
    | .ok place =>
        if !t.isDirectory place then .error .notDirectory
        else
          match parts.getLast? with
          | none => .ok none
          | some name => .ok (if name = "." ∨ name = ".." then none else some (place.child name))

/-- What is left where a directory cannot be made: the tree with those made before it. -/
structure Halted where
  tree : FileTree
  error : OsError

/-- Makes the directories of a way that are not there, one after another. -/
def makeWay (t : FileTree) : Place → List String → Except Halted FileTree
  | _, [] => .ok t
  | place, part :: parts =>
      match t.enter place part with
      | .ok next => if t.isDirectory next then t.makeWay next parts else .error ⟨t, .alreadyExists⟩
      | .error .noEntry => (t.put (place.child part) .directory).makeWay (place.child part) parts
      | .error e => .error ⟨t, e⟩

/-- Makes a directory and all that it lies in, unless they are there; the path is one without idle
parts at its end. A file in the way is reported as not a directory while nothing had to be made, and
as existing after that. -/
def makeDirectories (t : FileTree) (path : String) : Except Halted FileTree :=
  match t.resolve path with
  | .ok place => if t.isDirectory place then .ok t else .error ⟨t, .alreadyExists⟩
  | .error .noEntry => t.makeWay (startOf path) (pathParts path)
  | .error e => .error ⟨t, e⟩

/-- Writes a file, new or in place of the old one. -/
def write (t : FileTree) (path : String) (content : ByteArray) : Except OsError FileTree :=
  match t.target path with
  | .error e => .error e
  | .ok none => .error .isDirectory
  | .ok (some place) =>
      if endsInSlash path then .error .isDirectory
      else if nameLimit < (place.names.getLastD "").utf8ByteSize then .error .nameTooLong
      else if t.isDirectory place then .error .isDirectory
      else .ok (t.put place (.file content))

/-- The files in the working directory that a tree has, and another has not with the same content,
with the names on the way to them. -/
def changedFrom (t old : FileTree) : List (List String × ByteArray) :=
  t.nodes.keys.filterMap fun place =>
    match place.origin, t.lookup? place with
    | .above 0, some (.file content) =>
        if old.lookup? place = some (.file content) then none else some (place.names, content)
    | _, _ => none

end FileTree

end PrimitiveAbi.Command
