import PrimitiveAbi.Document.Scalar
import PrimitiveAbi.Proofs.Document.Form
import PrimitiveAbi.Proofs.Json.Scanner

/-!
# Values without parts are read exactly

A reader is sound for a form if what it takes off a text is a spelling of a tree of that form, and
complete if it takes every such spelling, where a number that it ends with ends there. The readers
of texts, flags, integers, notes and filters are both.
-/

namespace PrimitiveAbi.Document

open Json

namespace Reader

variable {α : Type}

/-- What is read is the spelling of a tree of the form. -/
def Sound (r : Reader α) (form : α → Tree → Prop) : Prop :=
  ∀ ⦃cs : List Char⦄ ⦃v : α⦄ ⦃rest : List Char⦄, r.run cs = .ok (v, rest) →
    ∃ t, Spells t cs rest ∧ form v t

/-- Every spelling of a tree of the form is read. -/
def Complete (r : Reader α) (form : α → Tree → Prop) : Prop :=
  ∀ ⦃t : Tree⦄ ⦃cs : List Char⦄ ⦃v : α⦄ ⦃rest : List Char⦄, Spells t cs rest → form v t →
    NumberEnds rest → r.run cs = .ok (v, rest)

end Reader

/-! ### Texts and flags -/

theorem readText_eq_ok_iff {cs rest : List Char} {s : String} :
    readText cs = .ok (s, rest) ↔ Spells (.text s) cs rest := by
  constructor
  · intro h
    unfold readText at h
    split at h
    · simp at h
    rename_i hn
    split at h
    · subst_vars
      split at h
      · simp at h
      rename_i hs
      simp only [Except.ok.injEq, Prod.mk.injEq] at h
      obtain ⟨rfl, rfl⟩ := h
      refine .text (gap_of_next hn) ?_
      rw [String.toList_ofList]
      exact readString_eq_ok_iff.1 hs
    · simp at h
  · intro h
    cases h with
    | text hg hs =>
      unfold readText
      rw [next_eq_ok_iff.2 ⟨hg, rfl⟩]
      simp [readString_eq_ok_iff.2 hs]

theorem readFlag_eq_ok_iff {cs rest : List Char} {b : Bool} :
    readFlag cs = .ok (b, rest) ↔ Spells (.boolean b) cs rest := by
  constructor
  · intro h
    unfold readFlag at h
    split at h
    · simp at h
    rename_i hn
    have hg := gap_of_next hn
    split at h
    · subst_vars
      split at h
      · simp at h
      rename_i hl
      simp only [Except.ok.injEq, Prod.mk.injEq] at h
      obtain ⟨rfl, rfl⟩ := h
      rw [literal_eq_ok_iff.1 hl] at hg
      exact .true hg
    split at h
    · subst_vars
      split at h
      · simp at h
      rename_i hl
      simp only [Except.ok.injEq, Prod.mk.injEq] at h
      obtain ⟨rfl, rfl⟩ := h
      rw [literal_eq_ok_iff.1 hl] at hg
      exact .false hg
    · simp at h
  · intro h
    unfold readFlag
    cases h with
    | true hg =>
      rw [next_eq_ok_iff.2 ⟨hg, rfl⟩]
      simp [literal]
    | false hg =>
      rw [next_eq_ok_iff.2 ⟨hg, rfl⟩]
      simp [literal]

theorem sound_readText : Reader.Sound ⟨readText, length_readText⟩ TextForm :=
  fun _ _ _ h => ⟨_, readText_eq_ok_iff.1 h, rfl⟩

theorem complete_readText : Reader.Complete ⟨readText, length_readText⟩ TextForm := by
  rintro _ cs v rest h rfl -
  exact readText_eq_ok_iff.2 h

theorem sound_readFlag : Reader.Sound ⟨readFlag, length_readFlag⟩ FlagForm :=
  fun _ _ _ h => ⟨_, readFlag_eq_ok_iff.1 h, rfl⟩

theorem complete_readFlag : Reader.Complete ⟨readFlag, length_readFlag⟩ FlagForm := by
  rintro _ cs v rest h rfl -
  exact readFlag_eq_ok_iff.2 h

/-! ### Integers -/

theorem sound_readNat32 :
    Reader.Sound ⟨readNat32, length_readNat32⟩ fun v => NaturalForm v.toNat := by
  intro cs v rest h
  simp only at h
  unfold readNat32 at h
  split at h
  · simp at h
  rename_i hn
  split at h
  · split at h
    · simp at h
    rename_i number after hnumber
    split at h
    · simp at h
    rename_i n hv
    simp only [Except.ok.injEq, Prod.mk.injEq] at h
    obtain ⟨rfl, rfl⟩ := h
    unfold nat32 at hv
    split at hv
    · rename_i n
      split at hv
      · rename_i hlt
        simp only [Except.ok.injEq] at hv
        obtain ⟨ds, hw, hdec, heq⟩ := isWhole_of_readNumber hnumber
        refine ⟨.number ds, .number hw.isNumber (heq ▸ gap_of_next hn), ds, rfl, hw.1.2, ?_⟩
        rw [← hv, UInt32.toNat_ofNat_of_lt' hlt]
        exact hdec
      · simp at hv
    · simp at hv
    · simp at hv
  · simp at h

theorem complete_readNat32 :
    Reader.Complete ⟨readNat32, length_readNat32⟩ fun v => NaturalForm v.toNat := by
  rintro _ cs v rest h ⟨ds, rfl, hd, hv⟩ hr
  cases h with
  | number hn hg =>
    have hw := hn.isWhole hd
    have hlt : decimal ds < UInt32.size := by rw [decimal, hv]; exact v.toNat_lt
    have hread := readNumber_of_isWhole hw hr (Nat.lt_trans hlt (by decide))
    obtain ⟨c, tail, rfl, hc⟩ := hn.exists_cons
    rw [List.cons_append] at hg hread
    show readNat32 cs = _
    unfold readNat32
    rw [next_eq_ok_iff.2 ⟨hg, isBlank_of_opensNumber hc⟩]
    simp only [hc, ↓reduceIte, hread, nat32, hlt]
    rw [decimal, hv, UInt32.ofNat_toNat]

/-! ### Null, notes and filters -/

theorem readUnit_eq_ok_iff {cs rest : List Char} :
    readUnit cs = .ok rest ↔ Spells .null cs rest := by
  constructor
  · intro h
    unfold readUnit at h
    split at h
    · simp at h
    rename_i hn
    have hg := gap_of_next hn
    split at h
    · subst_vars
      rw [literal_eq_ok_iff.1 h] at hg
      exact .null hg
    · simp at h
  · intro h
    cases h with
    | null hg =>
      unfold readUnit
      rw [next_eq_ok_iff.2 ⟨hg, rfl⟩]
      simp [literal]

theorem sound_readNote : Reader.Sound ⟨readNote, length_readNote⟩ NoteForm := by
  intro cs v rest h
  simp only at h
  unfold readNote at h
  split at h
  · simp at h
  rename_i hn
  have hg := gap_of_next hn
  split at h
  · subst_vars
    split at h
    · simp at h
    rename_i hl
    simp only [Except.ok.injEq, Prod.mk.injEq] at h
    obtain ⟨rfl, rfl⟩ := h
    rw [literal_eq_ok_iff.1 hl] at hg
    exact ⟨.null, .null hg, rfl⟩
  · split at h
    · simp at h
    rename_i ht
    simp only [Except.ok.injEq, Prod.mk.injEq] at h
    obtain ⟨rfl, rfl⟩ := h
    exact ⟨.text _, readText_eq_ok_iff.1 ht, rfl⟩

theorem complete_readNote : Reader.Complete ⟨readNote, length_readNote⟩ NoteForm := by
  rintro t cs v rest h hv -
  show readNote cs = _
  unfold readNote
  cases v with
  | none =>
    cases hv
    cases h with
    | null hg =>
      rw [next_eq_ok_iff.2 ⟨hg, rfl⟩]
      simp [literal]
  | some s =>
    cases hv
    rw [readText_eq_ok_iff.2 h]
    cases h with
    | text hg =>
      rw [next_eq_ok_iff.2 ⟨hg, rfl⟩]
      simp

theorem filterName_eq_ok_iff {cs rest : List Char} {f : SurfaceFilter} :
    filterName cs = .ok (f, rest) ↔ StringBody f.name.toList cs rest := by
  unfold filterName
  constructor
  · intro h
    split at h
    · simp at h
    rename_i hs
    split at h
    · rename_i hf
      simp only [Except.ok.injEq, Prod.mk.injEq] at h
      obtain ⟨rfl, rfl⟩ := h
      rw [SurfaceFilter.ofName?_eq_some_iff.1 hf, String.toList_ofList]
      exact readString_eq_ok_iff.1 hs
    · simp at h
  · intro h
    rw [readString_eq_ok_iff.2 h]
    simp [SurfaceFilter.ofName?_name]

theorem filterKey_eq_ok_iff {cs rest : List Char} {f : SurfaceFilter} :
    filterKey cs = .ok (f, rest) ↔ Members true [(f.name, .null)] cs rest := by
  constructor
  · intro h
    unfold filterKey at h
    split at h
    · simp at h
    rename_i hn
    split at h
    · subst_vars
      split at h
      · simp at h
      rename_i hname
      split at h
      · simp at h
      rename_i hcolon
      split at h
      · simp at h
      rename_i hunit
      split at h
      · simp at h
      rename_i hend
      split at h
      · subst_vars
        simp only [Except.ok.injEq, Prod.mk.injEq] at h
        obtain ⟨rfl, rfl⟩ := h
        exact .member .first (gap_of_next hn) (filterName_eq_ok_iff.1 hname)
          (colon_eq_ok_iff.1 hcolon) (readUnit_eq_ok_iff.1 hunit) (.close (gap_of_next hend))
      · simp at h
    · simp at h
  · intro h
    cases h with
    | member hsep hquote hname hcolon hunit hend =>
      cases hsep
      cases hend with
      | close hclose =>
        unfold filterKey
        rw [next_eq_ok_iff.2 ⟨hquote, rfl⟩]
        simp only [↓reduceIte, filterName_eq_ok_iff.2 hname, colon_eq_ok_iff.2 hcolon,
          readUnit_eq_ok_iff.2 hunit]
        rw [next_eq_ok_iff.2 ⟨hclose, rfl⟩]
        rfl

theorem sound_readFilter : Reader.Sound ⟨readFilter, length_readFilter⟩ FilterForm := by
  intro cs f rest h
  simp only at h
  unfold readFilter at h
  split at h
  · simp at h
  rename_i hn
  split at h
  · subst_vars
    exact ⟨_, .text (gap_of_next hn) (filterName_eq_ok_iff.1 h), .inl rfl⟩
  split at h
  · subst_vars
    exact ⟨_, .object (gap_of_next hn) (filterKey_eq_ok_iff.1 h), .inr rfl⟩
  · simp at h

theorem complete_readFilter : Reader.Complete ⟨readFilter, length_readFilter⟩ FilterForm := by
  rintro t cs f rest h hf -
  show readFilter cs = _
  unfold readFilter
  rcases hf with rfl | rfl
  · cases h with
    | text hg hs =>
      rw [next_eq_ok_iff.2 ⟨hg, rfl⟩]
      simp [filterName_eq_ok_iff.2 hs]
  · cases h with
    | object hg hm =>
      rw [next_eq_ok_iff.2 ⟨hg, rfl⟩]
      simp [filterKey_eq_ok_iff.2 hm]

end PrimitiveAbi.Document
