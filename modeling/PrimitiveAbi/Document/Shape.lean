import PrimitiveAbi.Json.Value
import PrimitiveAbi.Surface

/-!
# Shapes of documents

A shape says what values a place in a document holds, and `Shape.Val` is the type of those values. A
record has named fields in an order; a field that is not required may be left out, and then has the
blank value of its shape. A record that is closed refuses other members, and one that is open reads
past them. `Shape.toJson` is the JSON value that a document is written as; a field without a note
leaves no member.
-/

namespace PrimitiveAbi.Document

mutual

inductive Shape where
  | text
  | flag
  /-- An integer from 0 to `2 ^ 32 - 1`. -/
  | nat32
  /-- A surface filter by its name. -/
  | filter
  /-- A text or nothing. -/
  | note
  | list (item : Shape)
  | record (title : String) (closed : Bool) (fields : Fields)

inductive Fields where
  | nil
  | field (name : String) (required : Bool) (shape : Shape) (others : Fields)

end

mutual

/-- The values of a shape. -/
def Shape.Val : Shape → Type
  | .text => String
  | .flag => Bool
  | .nat32 => UInt32
  | .filter => SurfaceFilter
  | .note => Option String
  | .list item => List item.Val
  | .record _ _ fields => fields.Val

/-- The values of the fields of a record, in order. -/
def Fields.Val : Fields → Type
  | .nil => Unit
  | .field _ _ shape others => shape.Val × others.Val

end

mutual

/-- The value of a field that is left out. -/
def Shape.blank : (s : Shape) → s.Val
  | .text => ""
  | .flag => false
  | .nat32 => (0 : UInt32)
  | .filter => SurfaceFilter.all
  | .note => (none : Option String)
  | .list item => ([] : List item.Val)
  | .record _ _ fields => fields.blank

def Fields.blank : (fs : Fields) → fs.Val
  | .nil => ()
  | .field _ _ shape others => (shape.blank, others.blank)

end

namespace Fields

/-- The names of the fields, in order. -/
def names : Fields → List String
  | .nil => []
  | .field name _ _ others => name :: others.names

def size (fs : Fields) : Nat := fs.names.length

end Fields

open Json (Value)

/-- Whether a value leaves no member behind: a note that is absent. -/
def Shape.isAbsent : (s : Shape) → s.Val → Bool
  | .note, (v : Option String) => v.isNone
  | _, _ => false

mutual

/-- The JSON value that a value of a shape is written as. -/
def Shape.toJson : (s : Shape) → s.Val → Value
  | .text, (v : String) => .text v
  | .flag, (v : Bool) => .boolean v
  | .nat32, (v : UInt32) => .natural v.toNat
  | .filter, (v : SurfaceFilter) => .text v.name
  | .note, (v : Option String) =>
      match v with
      | some s => .text s
      | none => .null
  | .list item, (v : List item.Val) => .array (v.map item.toJson)
  | .record _ _ fields, v => .object (fields.members v)

/-- The members that the fields of a record are written as. -/
def Fields.members : (fs : Fields) → fs.Val → List (String × Value)
  | .nil, _ => []
  | .field name _ shape others, (v, vs) =>
      if shape.isAbsent v then others.members vs
      else (name, shape.toJson v) :: others.members vs

end

/-- Lists go over to another type and back if their values do. -/
theorem map_map_of_inverse {α β : Type} {f : α → β} {g : β → α} (h : ∀ a, g (f a) = a)
    (as : List α) : (as.map f).map g = as := by
  rw [List.map_map]
  exact List.map_id'' h as

end PrimitiveAbi.Document
