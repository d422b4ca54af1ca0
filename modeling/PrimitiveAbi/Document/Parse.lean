import PrimitiveAbi.Document.Scalar
import PrimitiveAbi.Document.Shape

/-!
# Reading documents

A text is read by the shape of the document it should be, from left to right, and the first fault is
final. A record is written as an object, its members in any order, or as an array of its fields in
their order. In an object the name of a member is judged before its value is looked at, and a field
that is missing shows only at the closing brace. In an array only fields that may be left out may be
absent, and the array must end behind the last field.
-/

namespace PrimitiveAbi.Document

open Json

/-- What was read of the fields of a record so far. -/
def Fields.Draft : Fields → Type
  | .nil => Unit
  | .field _ _ shape others => Option shape.Val × others.Draft

namespace Fields

/-- Nothing was read yet. -/
def noDraft : (fs : Fields) → fs.Draft
  | .nil => ()
  | .field _ _ _ others => (none, others.noDraft)

/-- The fields of a record from what was read of them. -/
def finish : (fs : Fields) → fs.Draft → Except Fault fs.Val
  | .nil, _ => .ok ()
  | .field name required shape others, (v, vs) =>
      match v, required with
      | none, true => .error (.mismatch (.missingField name))
      | none, false =>
          match others.finish vs with
          | .error e => .error e
          | .ok rest => .ok (shape.blank, rest)
      | some v, _ =>
          match others.finish vs with
          | .error e => .error e
          | .ok rest => .ok (v, rest)

end Fields

/-- Reads past the value of a member that a record does not have, if the record is open. -/
def strange (closed : Bool) (known : List String) (name : String) : Reader Unit :=
  if closed then .fail (.mismatch (.unknownField name known))
  else Reader.skipped.afterColon

namespace Reader

/-- A record: an array of its elements, or an object of its members. -/
def record {δ α : Type} (title : String) (elements : Reader α) (member : String → δ → Reader δ)
    (start : δ) (finish : δ → Except Fault α) : Reader α where
  run cs :=
    match next cs with
    | .error e => .error e
    | .ok (c, rest) =>
        if c = '[' then elements.run rest
        else if c = '\x7b' then
          match members member true start rest with
          | .error e => .error e
          | .ok (draft, rest) =>
              match finish draft with
              | .error e => .error e
              | .ok v => .ok (v, rest)
        else .error (wrongType ("struct " ++ title) c rest)
  shrinks h := by
    split at h
    · simp at h
    rename_i hn
    have := length_next hn
    split at h
    · have := elements.shrinks h; omega
    split at h
    · split at h
      · simp at h
      rename_i hm
      have := length_members hm
      split at h
      · simp at h
      · simp only [Except.ok.injEq, Prod.mk.injEq] at h
        rw [← h.2]; omega
    · simp at h

/-- An array of values of one kind. -/
def list {α : Type} (r : Reader α) : Reader (List α) where
  run cs :=
    match next cs with
    | .error e => .error e
    | .ok (c, rest) =>
        if c = '[' then r.items true rest else .error (wrongType "a sequence" c rest)
  shrinks h := by
    split at h
    · simp at h
    rename_i hn
    have := length_next hn
    split at h
    · have := length_items h; omega
    · simp at h

/-- The end of a record that is written as an array. -/
def arrayEnd : Reader Unit where
  run cs :=
    match closing cs with
    | .error e => .error e
    | .ok rest => .ok ((), rest)
  shrinks h := by
    split at h
    · simp at h
    rename_i hc
    simp only [Except.ok.injEq, Prod.mk.injEq] at h
    rw [← h.2]; exact length_closing hc

/-- One element of a record that is written as an array, and the elements after it; `absent` is the
value of an element that is not there, or the fault. -/
def element {α β : Type} (r : Reader α) (absent : Except Fault α)
    (others : Bool → Reader β) (first : Bool) : Reader (α × β) where
  run cs :=
    match nextItem first cs with
    | .error e => .error e
    | .ok (.closed _) =>
        match absent with
        | .error e => .error e
        | .ok v =>
            match (others first).run cs with
            | .error e => .error e
            | .ok (vs, rest) => .ok ((v, vs), rest)
    | .ok (.item rest) =>
        match r.run rest with
        | .error e => .error e
        | .ok (v, rest) =>
            match (others false).run rest with
            | .error e => .error e
            | .ok (vs, rest) => .ok ((v, vs), rest)
  shrinks h := by
    split at h
    · simp at h
    · split at h
      · simp at h
      split at h
      · simp at h
      rename_i ho
      simp only [Except.ok.injEq, Prod.mk.injEq] at h
      rw [← h.2]; exact (others _).shrinks ho
    · rename_i hn
      have := length_nextItem_item hn
      split at h
      · simp at h
      rename_i hr
      have := r.shrinks hr
      split at h
      · simp at h
      rename_i ho
      have := (others _).shrinks ho
      simp only [Except.ok.injEq, Prod.mk.injEq] at h
      rw [← h.2]; omega

/-- The member of a name: the first field if the name is its own, and then only once, or else one of
the others. -/
def member {α β : Type} (r : Reader α) (own : String) (others : String → β → Reader β)
    (name : String) (draft : Option α × β) : Reader (Option α × β) :=
  if name = own then
    match draft with
    | (some _, _) => .fail (.mismatch (.duplicateField own))
    | (none, rest) => r.afterColon.map fun v => (some v, rest)
  else (others name draft.2).map fun rest => (draft.1, rest)

end Reader

mutual

/-- The reader of the values of a shape. -/
def Shape.reader : (s : Shape) → Reader s.Val
  | .text => ⟨readText, length_readText⟩
  | .flag => ⟨readFlag, length_readFlag⟩
  | .nat32 => ⟨readNat32, length_readNat32⟩
  | .filter => ⟨readFilter, length_readFilter⟩
  | .note => ⟨readNote, length_readNote⟩
  | .list item => .list item.reader
  | .record title closed fields =>
      .record title (fields.elements title fields.size 0 true)
        (fields.member (strange closed fields.names)) fields.noDraft fields.finish

/-- The reader of the elements of a record from a position on. -/
def Fields.elements (title : String) (size : Nat) :
    (fs : Fields) → (position : Nat) → (first : Bool) → Reader fs.Val
  | .nil, _, _ => .arrayEnd
  | .field _ required shape others, position, first =>
      .element shape.reader
        (if required then .error (.mismatch (.tooShort position title size)) else .ok shape.blank)
        (others.elements title size (position + 1)) first

/-- The reader of the member of a name. -/
def Fields.member (other : String → Reader Unit) :
    (fs : Fields) → String → fs.Draft → Reader fs.Draft
  | .nil, name, _ => other name
  | .field own _ shape others, name, draft =>
      .member shape.reader own (others.member other) name draft

end

/-- The value of a shape that a text is a document of. -/
def Shape.parse (s : Shape) (text : String) : Except Fault s.Val :=
  match s.reader.run text.toList with
  | .error e => .error e
  | .ok (v, rest) =>
      match skipBlank rest with
      | [] => .ok v
      | _ => .error .malformed

/-- The text of a document without white space. -/
def Shape.compact (s : Shape) (v : s.Val) : String :=
  String.ofList (s.toJson v).compact

/-- The text of a document in lines. -/
def Shape.pretty (s : Shape) (v : s.Val) : String :=
  String.ofList ((s.toJson v).pretty 0)

end PrimitiveAbi.Document
