import PrimitiveAbi.CType
import PrimitiveAbi.Surface

/-!
# Primitives

The description of one exported primitive: its C symbol, its names on the surfaces, what it does,
and its C signature.
-/

namespace PrimitiveAbi

/-- What a primitive does. -/
inductive Kind where
  | binary (op : Operator)
  | logicalNot
  | charEql
  | display
  | displayLine
  | newline
  | load
  | store
  deriving DecidableEq, Repr

def Kind.name : Kind → String
  | .binary op => op.name
  | .logicalNot => "not"
  | .charEql => "char_eql"
  | .display => "display"
  | .displayLine => "display_line"
  | .newline => "newline"
  | .load => "load"
  | .store => "store"

/-- Whether a binary primitive compares; other primitives are not asked. -/
def Kind.comparison? : Kind → Option Bool
  | .binary op => some op.isComparison
  | _ => none

structure Param where
  name : String
  type : CType
  deriving DecidableEq, Repr

structure Primitive where
  symbol : String
  /-- At most one name for each surface. -/
  names : List (Surface × String)
  kind : Kind
  params : List Param
  result : CType
  /-- Whether it follows an address of the caller's without any check. -/
  unchecked : Bool := false
  deriving DecidableEq, Repr

namespace Primitive

/-- The name on a surface. -/
def name? (p : Primitive) (surface : Surface) : Option String :=
  (p.names.find? (·.1 = surface)).map (·.2)

/-- How the integer operands are read, where there are any. -/
def signedness (p : Primitive) : Option Signedness :=
  p.params.findSome? (·.type.signedness)

end Primitive

end PrimitiveAbi
