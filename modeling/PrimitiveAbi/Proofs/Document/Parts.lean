import PrimitiveAbi.Proofs.Document.Inversion
import PrimitiveAbi.Proofs.Document.Scalar

/-!
# Elements and members are read exactly

Commas, names and closing brackets stand where the grammar puts them, and the loops over elements
and over members are sound and complete for any reader of their parts. The loop over members keeps
an invariant of the members that were read, in their order, and of what was made of them.
-/

namespace PrimitiveAbi.Document

open Json

/-! ### In front of an element -/

theorem separator_of_nextItem {first : Bool} {cs rest : List Char}
    (h : nextItem first cs = .ok (.item rest)) : Separator first cs rest := by
  unfold nextItem at h
  split at h
  · simp at h
  rename_i hn
  split at h
  · simp at h
  split at h
  · rename_i hfirst
    simp only [Except.ok.injEq, NextItem.item.injEq] at h
    rw [h, hfirst]
    exact .first
  rename_i hfirst
  rw [Bool.not_eq_true] at hfirst
  split at h
  · subst_vars
    split at h
    · simp at h
    split at h
    · simp at h
    simp only [Except.ok.injEq, NextItem.item.injEq] at h
    exact .comma (h ▸ gap_of_next hn)
  · simp at h

theorem nextItem_eq_closed_iff {first : Bool} {cs rest : List Char} :
    nextItem first cs = .ok (.closed rest) ↔ Gap cs (']' :: rest) := by
  constructor
  · intro h
    unfold nextItem at h
    split at h
    · simp at h
    rename_i hn
    split at h
    · subst_vars
      simp only [Except.ok.injEq, NextItem.closed.injEq] at h
      exact h ▸ gap_of_next hn
    split at h
    · simp at h
    split at h
    · split at h
      · simp at h
      split at h <;> simp at h
    · simp at h
  · intro h
    unfold nextItem
    rw [next_eq_ok_iff.2 ⟨h, rfl⟩]
    rfl

/-- Where a separator and then a character that closes no array stand, there is an element. -/
theorem nextItem_of_next {first : Bool} {c : Char} {cs cs₁ tail : List Char}
    (hs : Separator first cs cs₁) (hn : next cs₁ = .ok (c, tail)) (hc : c ≠ ']') :
    nextItem first cs = .ok (.item cs₁) := by
  unfold nextItem
  cases hs with
  | first =>
    rw [hn]
    simp [hc]
  | comma hg =>
    rw [next_eq_ok_iff.2 ⟨hg, rfl⟩]
    simp [hn, hc]

theorem nextItem_of_spells {first : Bool} {t : Tree} {cs cs₁ rest : List Char}
    (hs : Separator first cs cs₁) (ht : Spells t cs₁ rest) :
    nextItem first cs = .ok (.item cs₁) := by
  obtain ⟨c, tail, hn, hc, -⟩ := ht.next
  exact nextItem_of_next hs hn hc

/-! ### In front of a member -/

theorem memberName_eq_ok_iff {cs rest : List Char} {name : String} :
    memberName cs = .ok (.named name rest) ↔ StringBody name.toList cs rest := by
  unfold memberName
  constructor
  · intro h
    split at h
    · simp at h
    rename_i hs
    simp only [Except.ok.injEq, NextMember.named.injEq] at h
    obtain ⟨rfl, rfl⟩ := h
    rw [String.toList_ofList]
    exact readString_eq_ok_iff.1 hs
  · intro h
    rw [readString_eq_ok_iff.2 h]
    simp

theorem separator_of_nextMember {first : Bool} {cs rest : List Char} {name : String}
    (h : nextMember first cs = .ok (.named name rest)) :
    ∃ cs₁ cs₂, Separator first cs cs₁ ∧ Gap cs₁ ('"' :: cs₂) ∧
      StringBody name.toList cs₂ rest := by
  unfold nextMember at h
  split at h
  · simp at h
  rename_i hn
  split at h
  · simp at h
  split at h
  · rename_i hfirst
    rw [hfirst]
    split at h
    · subst_vars
      exact ⟨_, _, .first, gap_of_next hn, memberName_eq_ok_iff.1 h⟩
    · simp at h
  rename_i hfirst
  rw [Bool.not_eq_true] at hfirst
  rw [hfirst]
  split at h
  · subst_vars
    split at h
    · simp at h
    rename_i hn'
    split at h
    · subst_vars
      exact ⟨_, _, .comma (gap_of_next hn), gap_of_next hn', memberName_eq_ok_iff.1 h⟩
    · simp at h
  · simp at h

theorem nextMember_eq_closed_iff {first : Bool} {cs rest : List Char} :
    nextMember first cs = .ok (.closed rest) ↔ Gap cs ('\x7d' :: rest) := by
  constructor
  · intro h
    unfold nextMember at h
    split at h
    · simp at h
    rename_i hn
    split at h
    · subst_vars
      simp only [Except.ok.injEq, NextMember.closed.injEq] at h
      exact h ▸ gap_of_next hn
    split at h
    · split at h
      · exact absurd h memberName_ne_closed
      · simp at h
    split at h
    · split at h
      · simp at h
      split at h
      · exact absurd h memberName_ne_closed
      · simp at h
    · simp at h
  · intro h
    unfold nextMember
    rw [next_eq_ok_iff.2 ⟨h, rfl⟩]
    rfl

theorem nextMember_of_separator {first : Bool} {cs cs₁ cs₂ rest : List Char} {name : String}
    (hs : Separator first cs cs₁) (hq : Gap cs₁ ('"' :: cs₂))
    (hname : StringBody name.toList cs₂ rest) :
    nextMember first cs = .ok (.named name rest) := by
  unfold nextMember
  cases hs with
  | first =>
    rw [next_eq_ok_iff.2 ⟨hq, rfl⟩]
    exact memberName_eq_ok_iff.2 hname
  | comma hg =>
    rw [next_eq_ok_iff.2 ⟨hg, rfl⟩]
    simp only [Char.reduceEq, ↓reduceIte, Bool.false_eq_true]
    rw [next_eq_ok_iff.2 ⟨hq, rfl⟩]
    exact memberName_eq_ok_iff.2 hname

/-! ### Loops -/

namespace Reader

variable {α δ : Type}

theorem Sound.items {r : Reader α} {form : α → Tree → Prop} (hr : r.Sound form) {first : Bool}
    {cs rest : List Char} {vs : List α} (h : r.items first cs = .ok (vs, rest)) :
    ∃ ts, Items first ts cs rest ∧ List.Forall₂ form vs ts := by
  obtain ⟨hn, rfl⟩ | ⟨cs₁, cs₂, v, vs, hn, hv, hvs, rfl⟩ := items_eq_ok_iff.1 h
  · exact ⟨[], .close (nextItem_eq_closed_iff.1 hn), .nil⟩
  · have := length_nextItem_item hn
    have := r.shrinks hv
    obtain ⟨t, ht, hform⟩ := hr hv
    obtain ⟨ts, hts, hforms⟩ := hr.items hvs
    exact ⟨t :: ts, .item (separator_of_nextItem hn) ht hts, .cons hform hforms⟩
termination_by cs.length

theorem Complete.items {r : Reader α} {form : α → Tree → Prop} (hr : r.Complete form) {vs : List α}
    {ts : List Tree} (hf : List.Forall₂ form vs ts) {first : Bool} {cs rest : List Char}
    (h : Items first ts cs rest) : r.items first cs = .ok (vs, rest) := by
  induction hf generalizing first cs with
  | nil =>
    cases h with
    | close hg => exact items_eq_ok_iff.2 (.inl ⟨nextItem_eq_closed_iff.2 hg, rfl⟩)
  | cons hv _ ih =>
    cases h with
    | item hs ht hts =>
      have hread := hr ht hv hts.numberEnds
      exact items_eq_ok_iff.2 (.inr ⟨_, _, _, _, nextItem_of_spells hs ht, hread, ih hts, rfl⟩)

theorem Sound.list {r : Reader α} {form : α → Tree → Prop} (hr : r.Sound form) :
    (Reader.list r).Sound (ListForm form) := by
  intro cs vs rest h
  obtain ⟨cs₁, hg, hvs⟩ := list_eq_ok_iff.1 h
  obtain ⟨ts, hts, hforms⟩ := hr.items hvs
  exact ⟨.array ts, .array hg hts, ts, rfl, hforms⟩

theorem Complete.list {r : Reader α} {form : α → Tree → Prop} (hr : r.Complete form) :
    (Reader.list r).Complete (ListForm form) := by
  rintro _ cs vs rest h ⟨ts, rfl, hforms⟩ -
  cases h with
  | array hg hts => exact list_eq_ok_iff.2 ⟨_, hg, hr.items hforms hts⟩

/-- An invariant of members and draft that every member keeps is kept by the loop. -/
theorem members_sound {member : String → δ → Reader δ} {inv : List (String × Tree) → δ → Prop}
    (step : ∀ {ms : List (String × Tree)} {draft draft' : δ} {name : String}
      {cs rest : List Char}, inv ms draft → (member name draft).run cs = .ok (draft', rest) →
      ∃ cs' t, Gap cs (':' :: cs') ∧ Spells t cs' rest ∧ inv (ms ++ [(name, t)]) draft')
    {first : Bool} {ms : List (String × Tree)} {draft draft' : δ} {cs rest : List Char}
    (hinv : inv ms draft) (h : members member first draft cs = .ok (draft', rest)) :
    ∃ ms', Members first ms' cs rest ∧ inv (ms ++ ms') draft' := by
  obtain ⟨hn, rfl⟩ | ⟨name, cs₁, cs₂, mid, hn, hv, hmore⟩ := members_eq_ok_iff.1 h
  · exact ⟨[], .close (nextMember_eq_closed_iff.1 hn), by simpa using hinv⟩
  · have := length_nextMember_named hn
    have := (member _ _).shrinks hv
    obtain ⟨_, _, hs, hq, hname⟩ := separator_of_nextMember hn
    obtain ⟨cs', t, hcolon, ht, hinv'⟩ := step hinv hv
    obtain ⟨ms', hms', hinv''⟩ := members_sound step hinv' hmore
    exact ⟨(name, t) :: ms', .member hs hq hname hcolon ht hms', by simpa using hinv''⟩
termination_by cs.length

/-- Where each member leads from one stage to the next, the loop leads through all of them. -/
theorem members_complete {member : String → δ → Reader δ} {stage : List String → δ}
    {ms : List (String × Tree)}
    (step : ∀ {seen : List String} {name : String} {t : Tree} {cs cs' rest : List Char},
      (name, t) ∈ ms → name ∉ seen → Gap cs (':' :: cs') → Spells t cs' rest → NumberEnds rest →
      (member name (stage seen)).run cs = .ok (stage (seen ++ [name]), rest))
    {first : Bool} {seen : List String} {cs rest : List Char} (hnew : (seen ++ ms.map Prod.fst).Nodup)
    (h : Members first ms cs rest) :
    members member first (stage seen) cs = .ok (stage (seen ++ ms.map Prod.fst), rest) := by
  induction ms generalizing first seen cs with
  | nil =>
    cases h with
    | close hg =>
      rw [List.map_nil, List.append_nil]
      exact members_eq_ok_iff.2 (.inl ⟨nextMember_eq_closed_iff.2 hg, rfl⟩)
  | cons m ms ih =>
    cases h with
    | @member _ name t _ _ _ _ _ _ _ _ hs hq hname hcolon ht hms =>
      have hfresh : name ∉ seen := by
        intro hmem
        exact (List.nodup_append.1 hnew).2.2 name hmem name (by simp) rfl
      have hread := step List.mem_cons_self hfresh hcolon ht hms.numberEnds
      rw [List.map_cons, List.append_cons] at hnew ⊢
      have hmore := ih (fun hmem => step (List.mem_cons_of_mem _ hmem)) hnew hms
      exact members_eq_ok_iff.2
        (.inr ⟨name, _, _, _, nextMember_of_separator hs hq hname, hread, hmore⟩)

end Reader

end PrimitiveAbi.Document
