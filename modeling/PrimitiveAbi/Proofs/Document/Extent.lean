import PrimitiveAbi.Proofs.Document.Reading
import PrimitiveAbi.Proofs.Json.Skip

/-!
# Readers take whole values

What a reader takes off a text is a JSON value, whatever it makes of it. This holds for open records
too, of which the members that are skipped are no spellings of any tree.
-/

namespace PrimitiveAbi.Document

open Json

namespace Reader

variable {α β δ : Type}

/-- What the reader takes off a text is a value. -/
def TakesValues (r : Reader α) : Prop :=
  ∀ ⦃cs : List Char⦄ ⦃v : α⦄ ⦃rest : List Char⦄, r.run cs = .ok (v, rest) → Raw cs rest

/-- What the reader takes off a text is a colon and a value. -/
def TakesMembers (r : Reader α) : Prop :=
  ∀ ⦃cs : List Char⦄ ⦃v : α⦄ ⦃rest : List Char⦄, r.run cs = .ok (v, rest) →
    ∃ cs₁, Gap cs (':' :: cs₁) ∧ Raw cs₁ rest

theorem Sound.takesValues {r : Reader α} {form : α → Tree → Prop} (h : r.Sound form) :
    r.TakesValues := by
  intro cs v rest hr
  obtain ⟨t, ht, -⟩ := h hr
  exact ht.raw

theorem takesValues_skipped : skipped.TakesValues :=
  fun _ _ _ h => raw_of_skip (skipped_eq_ok_iff.1 h)

theorem TakesValues.afterColon {r : Reader α} (h : r.TakesValues) : r.afterColon.TakesMembers := by
  intro cs v rest hr
  obtain ⟨cs₁, hcolon, hr⟩ := afterColon_eq_ok_iff.1 hr
  exact ⟨cs₁, hcolon, h hr⟩

theorem TakesMembers.map {r : Reader α} (h : r.TakesMembers) (f : α → β) :
    (r.map f).TakesMembers := by
  intro cs w rest hr
  obtain ⟨v, hr, -⟩ := map_eq_ok_iff.1 hr
  exact h hr

theorem takesMembers_fail (fault : Fault) : (fail fault : Reader α).TakesMembers :=
  fun _ _ _ h => absurd h fail_ne_ok

theorem takesMembers_strange (closed : Bool) (known : List String) (name : String) :
    (strange closed known name).TakesMembers := by
  unfold strange
  split
  · exact takesMembers_fail _
  · exact takesValues_skipped.afterColon

/-! ### Loops -/

theorem TakesValues.items {r : Reader α} (hr : r.TakesValues) {first : Bool} {cs rest : List Char}
    {vs : List α} (h : r.items first cs = .ok (vs, rest)) : RawItems first cs rest := by
  obtain ⟨hn, rfl⟩ | ⟨cs₁, cs₂, v, vs, hn, hv, hvs, rfl⟩ := items_eq_ok_iff.1 h
  · exact .close (nextItem_eq_closed_iff.1 hn)
  · have := length_nextItem_item hn
    have := r.shrinks hv
    exact .item (separator_of_nextItem hn) (hr hv) (hr.items hvs)
termination_by cs.length

theorem TakesValues.list {r : Reader α} (hr : r.TakesValues) : (Reader.list r).TakesValues := by
  intro cs vs rest h
  obtain ⟨cs₁, hg, hvs⟩ := list_eq_ok_iff.1 h
  exact .array hg (hr.items hvs)

theorem rawMembers_of_members {member : String → δ → Reader δ}
    (hmember : ∀ name draft, (member name draft).TakesMembers) {first : Bool} {draft draft' : δ}
    {cs rest : List Char} (h : members member first draft cs = .ok (draft', rest)) :
    RawMembers first cs rest := by
  obtain ⟨hn, rfl⟩ | ⟨name, cs₁, cs₂, mid, hn, hv, hmore⟩ := members_eq_ok_iff.1 h
  · exact .close (nextMember_eq_closed_iff.1 hn)
  · have := length_nextMember_named hn
    have := (member _ _).shrinks hv
    obtain ⟨_, _, hs, hq, hname⟩ := separator_of_nextMember hn
    obtain ⟨cs₃, hcolon, hraw⟩ := hmember _ _ hv
    exact .member hs hq hname.raw hcolon hraw (rawMembers_of_members hmember hmore)
termination_by cs.length

end Reader

/-! ### Where elements stand -/

theorem nextItem_of_raw {first : Bool} {cs cs₁ rest : List Char} (hs : Separator first cs cs₁)
    (h : Raw cs₁ rest) : nextItem first cs = .ok (.item cs₁) := by
  obtain ⟨c, tail, hn, hc, -⟩ := h.next
  exact nextItem_of_next hs hn hc

/-- Where the array ends nothing but its end is taken. -/
theorem rest_eq_of_closed {first : Bool} {cs rest rest' : List Char} (h : RawItems first cs rest)
    (hc : nextItem first cs = .ok (.closed rest')) : rest = rest' := by
  cases h with
  | close hg =>
    rw [nextItem_eq_closed_iff.2 hg] at hc
    cases hc
    rfl
  | item hs hv =>
    rw [nextItem_of_raw hs hv] at hc
    cases hc

/-! ### Shapes -/

mutual

/-- What the reader of a shape takes off a text is a value. -/
theorem Shape.takesValues : (s : Shape) → s.reader.TakesValues
  | .text => sound_readText.takesValues
  | .flag => sound_readFlag.takesValues
  | .nat32 => sound_readNat32.takesValues
  | .filter => sound_readFilter.takesValues
  | .note => sound_readNote.takesValues
  | .list item => item.takesValues.list
  | .record title closed fields => by
    intro cs v rest h
    obtain ⟨cs₁, hg, helements⟩ | ⟨cs₁, draft, hg, hm, -⟩ := Reader.record_eq_ok_iff.1 h
    · exact .array hg (fields.rawItems_of_elements helements)
    · have hmember := fields.takesMembers (Reader.takesMembers_strange closed fields.names)
      exact .object hg (Reader.rawMembers_of_members hmember hm)

theorem Fields.rawItems_of_elements : (fs : Fields) → {title : String} → {size position : Nat} →
    {first : Bool} → {cs : List Char} → {v : fs.Val} → {rest : List Char} →
    (fs.elements title size position first).run cs = .ok (v, rest) → RawItems first cs rest
  | .nil, _, _, _, _, _, _, _, h => .close (Reader.arrayEnd_eq_ok_iff.1 h)
  | .field _ _ shape others, _, _, _, _, _, (_, _), _, h => by
    obtain ⟨_, -, -, hothers⟩ | ⟨cs₁, cs₂, hn, hv, hothers⟩ := Reader.element_eq_ok_iff.1 h
    · exact others.rawItems_of_elements hothers
    · exact .item (separator_of_nextItem hn) (shape.takesValues hv)
        (others.rawItems_of_elements hothers)

theorem Fields.takesMembers : (fs : Fields) → {other : String → Reader Unit} →
    (∀ name, (other name).TakesMembers) →
    ∀ (name : String) (draft : fs.Draft), (fs.member other name draft).TakesMembers
  | .nil, _, hother, name, _ => hother name
  | .field own _ shape others, _, hother, name, draft => by
    simp only [Fields.member, Reader.member]
    split
    · split
      · exact Reader.takesMembers_fail _
      · exact shape.takesValues.afterColon.map _
    · exact (others.takesMembers hother name draft.2).map _

end

end PrimitiveAbi.Document
