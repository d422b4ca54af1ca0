import PrimitiveAbi.Json.Text

/-!
# JSON values and their text

The values that documents are written from, and two ways to write them: without any white space, and
with every element and member on a line of its own, indented by two spaces for each bracket that is
open. An empty array or object is its two brackets either way.
-/

namespace PrimitiveAbi.Json

inductive Value where
  | null
  | boolean (value : Bool)
  | natural (value : Nat)
  | text (value : String)
  | array (items : List Value)
  | object (members : List (String × Value))
  deriving Repr

namespace Value

/-- The text of a value without parts. -/
def scalar : Value → List Char
  | .boolean true => ['t', 'r', 'u', 'e']
  | .boolean false => ['f', 'a', 'l', 's', 'e']
  | .natural n => Nat.toDigits 10 n
  | .text s => writeString s
  | _ => ['n', 'u', 'l', 'l']

mutual

/-- The text without white space. -/
def compact : Value → List Char
  | .array items => '[' :: compactItems items
  | .object members => '\x7b' :: compactMembers members
  | v => v.scalar

/-- Elements with commas between them, and the closing bracket. -/
def compactItems : List Value → List Char
  | [] => [']']
  | [v] => v.compact ++ [']']
  | v :: w :: rest => v.compact ++ ',' :: compactItems (w :: rest)

/-- Members with commas between them, and the closing brace. -/
def compactMembers : List (String × Value) → List Char
  | [] => ['\x7d']
  | [(name, v)] => writeString name ++ ':' :: v.compact ++ ['\x7d']
  | (name, v) :: member :: rest =>
      writeString name ++ ':' :: v.compact ++ ',' :: compactMembers (member :: rest)

end

/-- A line feed and the indentation at a depth. -/
def newLine (depth : Nat) : List Char :=
  '\n' :: List.replicate (2 * depth) ' '

mutual

/-- The text in lines, where `depth` brackets are open around the value. -/
def pretty (depth : Nat) : Value → List Char
  | .array [] => ['[', ']']
  | .array items => '[' :: prettyItems (depth + 1) items ++ newLine depth ++ [']']
  | .object [] => ['\x7b', '\x7d']
  | .object members => '\x7b' :: prettyMembers (depth + 1) members ++ newLine depth ++ ['\x7d']
  | v => v.scalar

/-- Elements on lines of their own, with commas between them. -/
def prettyItems (depth : Nat) : List Value → List Char
  | [] => []
  | [v] => newLine depth ++ v.pretty depth
  | v :: w :: rest => newLine depth ++ v.pretty depth ++ ',' :: prettyItems depth (w :: rest)

/-- Members on lines of their own, with commas between them. -/
def prettyMembers (depth : Nat) : List (String × Value) → List Char
  | [] => []
  | [(name, v)] => newLine depth ++ writeString name ++ ':' :: ' ' :: v.pretty depth
  | (name, v) :: member :: rest =>
      newLine depth ++ writeString name ++ ':' :: ' ' :: v.pretty depth ++
        ',' :: prettyMembers depth (member :: rest)

end

end Value

end PrimitiveAbi.Json
