import PrimitiveAbi.Document.Parse
import PrimitiveAbi.Proofs.Json.Scanner

/-!
# When composed readers succeed

For each way in which a reader is put together from others: it reads a value exactly if its parts
read theirs, one behind the other. What is proved of a composed reader goes through these lemmas and
not through the steps that can fail on the way.
-/

namespace PrimitiveAbi.Document

open Json

theorem closing_eq_ok_iff {cs rest : List Char} : closing cs = .ok rest ↔ Gap cs (']' :: rest) := by
  unfold closing
  constructor
  · intro h
    split at h
    · simp at h
    rename_i hn
    split at h
    · subst_vars
      simp only [Except.ok.injEq] at h
      exact h ▸ gap_of_next hn
    · simp at h
  · intro h
    rw [next_eq_ok_iff.2 ⟨h, rfl⟩]
    rfl

namespace Reader

variable {α β δ : Type} {cs rest : List Char}

theorem fail_ne_ok {fault : Fault} {v : α} : (fail fault).run cs ≠ .ok (v, rest) := by
  simp [fail]

theorem map_eq_ok_iff {r : Reader α} {f : α → β} {w : β} :
    (r.map f).run cs = .ok (w, rest) ↔ ∃ v, r.run cs = .ok (v, rest) ∧ f v = w := by
  simp only [map]
  rcases r.run cs with e | ⟨v, rest'⟩
  · simp
  · simp only [Except.ok.injEq, Prod.mk.injEq]
    grind

theorem afterColon_eq_ok_iff {r : Reader α} {v : α} :
    r.afterColon.run cs = .ok (v, rest) ↔
      ∃ cs₁, Gap cs (':' :: cs₁) ∧ r.run cs₁ = .ok (v, rest) := by
  simp only [afterColon, ← colon_eq_ok_iff]
  cases colon cs <;> simp

theorem skipped_eq_ok_iff : skipped.run cs = .ok ((), rest) ↔ skip cs = .ok rest := by
  simp only [skipped]
  cases skip cs <;> simp

theorem arrayEnd_eq_ok_iff : arrayEnd.run cs = .ok ((), rest) ↔ Gap cs (']' :: rest) := by
  simp only [arrayEnd, ← closing_eq_ok_iff]
  cases closing cs <;> simp

/-! ### Loops -/

theorem items_eq (r : Reader α) (first : Bool) (cs : List Char) : r.items first cs =
    match nextItem first cs with
    | .error e => .error e
    | .ok (.closed rest) => .ok ([], rest)
    | .ok (.item rest) =>
        match r.run rest with
        | .error e => .error e
        | .ok (v, after) =>
            match r.items false after with
            | .error e => .error e
            | .ok (vs, rest) => .ok (v :: vs, rest) := by
  rw [items]
  split
  · simp only [*]
  · simp only [*]
  · simp only [*]
    split
    · simp only [*]
    · rename_i hv
      exact hv ▸ rfl

theorem members_eq (member : String → δ → Reader δ) (first : Bool) (draft : δ) (cs : List Char) :
    members member first draft cs =
      match nextMember first cs with
      | .error e => .error e
      | .ok (.closed rest) => .ok (draft, rest)
      | .ok (.named name rest) =>
          match (member name draft).run rest with
          | .error e => .error e
          | .ok (draft, after) => members member false draft after := by
  rw [members]
  split
  · simp only [*]
  · simp only [*]
  · simp only [*]
    split <;> simp only [*]

/-- The elements are read to the closing bracket, or one is read and then the others. -/
theorem items_eq_ok_iff {r : Reader α} {first : Bool} {vs : List α} :
    r.items first cs = .ok (vs, rest) ↔
      (nextItem first cs = .ok (.closed rest) ∧ vs = []) ∨
      ∃ cs₁ cs₂ v vs', nextItem first cs = .ok (.item cs₁) ∧ r.run cs₁ = .ok (v, cs₂) ∧
        r.items false cs₂ = .ok (vs', rest) ∧ vs = v :: vs' := by
  rw [items_eq]
  rcases nextItem first cs with e | _ | cs₁
  · simp
  · simp [and_comm, eq_comm]
  · rcases hv : r.run cs₁ with e | ⟨v, cs₂⟩
    · simp [hv]
    · simp only [hv]
      rcases hvs : r.items false cs₂ with e | ⟨vs', rest'⟩ <;> grind

/-- The members are read to the closing brace, or one is read and then the others. -/
theorem members_eq_ok_iff {member : String → δ → Reader δ} {first : Bool} {draft draft' : δ} :
    members member first draft cs = .ok (draft', rest) ↔
      (nextMember first cs = .ok (.closed rest) ∧ draft' = draft) ∨
      ∃ name cs₁ cs₂ mid, nextMember first cs = .ok (.named name cs₁) ∧
        (member name draft).run cs₁ = .ok (mid, cs₂) ∧
        members member false mid cs₂ = .ok (draft', rest) := by
  rw [members_eq]
  rcases nextMember first cs with e | _ | ⟨name, cs₁⟩
  · simp
  · simp [and_comm, eq_comm]
  · rcases hv : (member name draft).run cs₁ with e | ⟨mid, cs₂⟩ <;> grind

/-! ### Arrays, records and their parts -/

theorem list_eq_ok_iff {r : Reader α} {vs : List α} :
    (list r).run cs = .ok (vs, rest) ↔
      ∃ cs₁, Gap cs ('[' :: cs₁) ∧ r.items true cs₁ = .ok (vs, rest) := by
  constructor
  · intro h
    simp only [list] at h
    split at h
    · simp at h
    rename_i hn
    split at h
    · subst_vars
      exact ⟨_, gap_of_next hn, h⟩
    · simp at h
  · rintro ⟨cs₁, hg, h⟩
    simpa only [list, next_eq_ok_iff.2 ⟨hg, rfl⟩, ↓reduceIte] using h

/-- A record is read from the array of its elements or from its members. -/
theorem record_eq_ok_iff {title : String} {elements : Reader α} {member : String → δ → Reader δ}
    {start : δ} {finish : δ → Except Fault α} {v : α} :
    (record title elements member start finish).run cs = .ok (v, rest) ↔
      (∃ cs₁, Gap cs ('[' :: cs₁) ∧ elements.run cs₁ = .ok (v, rest)) ∨
      ∃ cs₁ draft, Gap cs ('\x7b' :: cs₁) ∧
        members member true start cs₁ = .ok (draft, rest) ∧ finish draft = .ok v := by
  constructor
  · intro h
    simp only [record] at h
    split at h
    · simp at h
    rename_i hn
    split at h
    · subst_vars
      exact .inl ⟨_, gap_of_next hn, h⟩
    split at h
    · subst_vars
      split at h
      · simp at h
      rename_i hm
      split at h
      · simp at h
      rename_i hv
      cases h
      exact .inr ⟨_, _, gap_of_next hn, hm, hv⟩
    · simp at h
  · rintro (⟨cs₁, hg, h⟩ | ⟨cs₁, draft, hg, hm, hv⟩)
    · simpa only [record, next_eq_ok_iff.2 ⟨hg, rfl⟩, ↓reduceIte] using h
    · simp only [record, next_eq_ok_iff.2 ⟨hg, rfl⟩, Char.reduceEq, ↓reduceIte, hm, hv]

/-- An element is absent where the array ends, or else it is read, and then the others are. -/
theorem element_eq_ok_iff {r : Reader α} {absent : Except Fault α} {others : Bool → Reader β}
    {first : Bool} {v : α} {vs : β} :
    (element r absent others first).run cs = .ok ((v, vs), rest) ↔
      (∃ after, nextItem first cs = .ok (.closed after) ∧ absent = .ok v ∧
        (others first).run cs = .ok (vs, rest)) ∨
      ∃ cs₁ cs₂, nextItem first cs = .ok (.item cs₁) ∧ r.run cs₁ = .ok (v, cs₂) ∧
        (others false).run cs₂ = .ok (vs, rest) := by
  simp only [element]
  rcases nextItem first cs with e | after | cs₁
  · simp
  · rcases absent with e | w
    · simp
    · rcases (others first).run cs with e | ⟨ws, _⟩ <;> simp [Prod.ext_iff, and_assoc]
  · rcases hv : r.run cs₁ with e | ⟨w, cs₂⟩
    · simp [hv]
    · rcases hvs : (others false).run cs₂ with e | ⟨ws, _⟩ <;> grind

/-- A member is the one of the first field, which was not read yet, or one of the others. -/
theorem member_eq_ok_iff {r : Reader α} {own name : String} {others : String → β → Reader β}
    {slot slot' : Option α} {draft draft' : β} :
    (member r own others name (slot, draft)).run cs = .ok ((slot', draft'), rest) ↔
      (name = own ∧ slot = none ∧ draft' = draft ∧
        ∃ cs₁ v, Gap cs (':' :: cs₁) ∧ r.run cs₁ = .ok (v, rest) ∧ slot' = some v) ∨
      (name ≠ own ∧ slot' = slot ∧ (others name draft).run cs = .ok (draft', rest)) := by
  unfold member
  by_cases hname : name = own
  · cases slot with
    | none =>
      simp only [hname, ↓reduceIte, map_eq_ok_iff, afterColon_eq_ok_iff]
      grind
    | some v => simp [hname, fail]
  · simp only [hname, ↓reduceIte, map_eq_ok_iff]
    grind

end Reader

/-- A record has the value of a field that was read, or the blank one if it may be left out. -/
theorem Fields.finish_eq_ok_iff {name : String} {required : Bool} {shape : Shape} {others : Fields}
    {slot : Option shape.Val} {slots : others.Draft} {v : shape.Val} {vs : others.Val} :
    (Fields.field name required shape others).finish (slot, slots) = .ok (v, vs) ↔
      (slot = some v ∨ slot = none ∧ required = false ∧ v = shape.blank) ∧
        others.finish slots = .ok vs := by
  constructor
  · intro h
    simp only [Fields.finish] at h
    split at h
    · simp at h
    · split at h
      · simp at h
      rename_i hothers
      cases h
      exact ⟨.inr ⟨rfl, rfl, rfl⟩, hothers⟩
    · split at h
      · simp at h
      rename_i hothers
      cases h
      exact ⟨.inl rfl, hothers⟩
  · rintro ⟨rfl | ⟨rfl, rfl, rfl⟩, hothers⟩ <;> simp only [Fields.finish, hothers]

end PrimitiveAbi.Document
