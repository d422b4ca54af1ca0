import Mathlib.Data.List.Forall2
import PrimitiveAbi.Proofs.Spans
import PrimitiveAbi.Surface

/-!
# Spellings of a name

A surface or a filter may be named in any letter case and with white space around the name. What is
read as a name is described without trimming (`Text.IsSpelling`): some white space, the letters of
the name, each small or large, and some white space.
-/

namespace PrimitiveAbi

namespace Text

/-- The text is made of small letters of ASCII. -/
def InSmallLetters (word : String) : Prop := ∀ d ∈ word.toList, d.isLower = true

instance (word : String) : Decidable (InSmallLetters word) :=
  List.decidableBAll (fun d : Char => d.isLower = true) word.toList

/-- The word with each of its small letters small or large. -/
def InAnyCase (cs word : List Char) : Prop :=
  List.Forall₂ (fun c d => c = d ∨ c = d.toUpper) cs word

/-- The text is a word of small letters, in any letter case and with white space around it. -/
def IsSpelling (word s : String) : Prop :=
  ∃ front middle behind, s.toList = front ++ middle ++ behind ∧
    (∀ c ∈ front ++ behind, isBlank c = true) ∧ InAnyCase middle word.toList

/-- The text is made of white space, or of nothing. -/
def IsBlankText (s : String) : Prop := ∀ c ∈ s.toList, isBlank c = true

instance (s : String) : Decidable (IsBlankText s) :=
  List.decidableBAll (fun c => isBlank c = true) s.toList

/-! ### Letter case -/

theorem toNat_toLower (c : Char) :
    c.toLower.toNat = if 65 ≤ c.toNat ∧ c.toNat ≤ 90 then c.toNat + 32 else c.toNat := by
  have hshift : ('a'.val - 'A'.val).toNat = 32 := by decide
  by_cases hrange : 65 ≤ c.toNat ∧ c.toNat ≤ 90
  · have hmoved : c.toLower = ⟨c.val + ('a'.val - 'A'.val), _⟩ := dif_pos hrange
    rw [if_pos hrange, ← Char.toNat_val, hmoved, UInt32.toNat_add, hshift, Char.toNat_val]
    omega
  · have hsame : c.toLower = c := dif_neg hrange
    rw [if_neg hrange, hsame]

theorem toNat_toUpper (c : Char) :
    c.toUpper.toNat = if 97 ≤ c.toNat ∧ c.toNat ≤ 122 then c.toNat - 32 else c.toNat := by
  have hshift : ('A'.val - 'a'.val).toNat = 2 ^ 32 - 32 := by decide
  by_cases hrange : 97 ≤ c.toNat ∧ c.toNat ≤ 122
  · have hmoved : c.toUpper = ⟨c.val + ('A'.val - 'a'.val), _⟩ := dif_pos hrange
    rw [if_pos hrange, ← Char.toNat_val, hmoved, UInt32.toNat_add, hshift, Char.toNat_val]
    omega
  · have hsame : c.toUpper = c := dif_neg hrange
    rw [if_neg hrange, hsame]

theorem isLower_iff {c : Char} : c.isLower = true ↔ 97 ≤ c.toNat ∧ c.toNat ≤ 122 := by
  have hparts : c.isLower = (decide (c.val ≥ 'a'.val) && decide (c.val ≤ 'z'.val)) := rfl
  rw [hparts, Bool.and_eq_true, decide_eq_true_eq, decide_eq_true_eq]
  rfl

theorem toLower_eq_iff {c d : Char} (hd : d.isLower = true) :
    c.toLower = d ↔ c = d ∨ c = d.toUpper := by
  rw [isLower_iff] at hd
  simp only [← Char.toNat_inj, toNat_toLower, toNat_toUpper, if_pos hd]
  split <;> omega

theorem map_toLower_eq_iff {cs word : List Char} (hword : ∀ d ∈ word, d.isLower = true) :
    cs.map Char.toLower = word ↔ InAnyCase cs word := by
  rw [InAnyCase]
  induction cs generalizing word with
  | nil => rw [List.map_nil, List.forall₂_nil_left_iff, eq_comm]
  | cons c cs ih =>
    cases word with
    | nil => simp
    | cons d word =>
      obtain ⟨hd, hword⟩ := List.forall_mem_cons.1 hword
      rw [List.map_cons, List.cons.injEq, List.forall₂_cons, toLower_eq_iff hd, ih hword]

/-- Letters are no white space. -/
theorem isBlank_of_isLower_toLower {c : Char} (h : c.toLower.isLower = true) :
    isBlank c = false := by
  rw [isLower_iff, toNat_toLower] at h
  have hrange : 65 ≤ c.toNat ∧ c.toNat ≤ 122 := by
    split at h <;> omega
  rw [Bool.eq_false_iff]
  simp only [isBlank, ne_eq, Bool.or_eq_true, Bool.and_eq_true, decide_eq_true_eq]
  omega

/-! ### White space -/

theorem trim_eq (cs : List Char) : trim cs = (cs.dropWhile isBlank).rdropWhile isBlank := rfl

/-- Trimming takes off white space only. -/
theorem exists_append_trim (cs : List Char) : ∃ front behind, cs = front ++ trim cs ++ behind ∧
    ∀ c ∈ front ++ behind, isBlank c = true := by
  refine ⟨cs.takeWhile isBlank, (cs.dropWhile isBlank).rtakeWhile isBlank, ?_, ?_⟩
  · rw [trim_eq, List.append_assoc, List.rdropWhile_append_rtakeWhile,
      List.takeWhile_append_dropWhile]
  · intro c hc
    rcases List.mem_append.1 hc with hc | hc
    · exact List.mem_takeWhile_imp hc
    · exact List.mem_rtakeWhile_imp hc

/-- Trimming takes off all white space around a text that has none. -/
theorem trim_append {front middle behind : List Char}
    (hblank : ∀ c ∈ front ++ behind, isBlank c = true)
    (hmiddle : ∀ c ∈ middle, isBlank c = false) : trim (front ++ middle ++ behind) = middle := by
  obtain ⟨hfront, hbehind⟩ := List.forall_mem_append.1 hblank
  rw [trim_eq, List.append_assoc, List.dropWhile_append_of_pos hfront]
  cases middle with
  | nil =>
    rw [List.nil_append, List.dropWhile_eq_nil_iff.2 hbehind, List.rdropWhile_nil]
  | cons c middle =>
    have hc : isBlank c = false := hmiddle c List.mem_cons_self
    rw [List.cons_append, List.dropWhile_cons_of_neg (by simp [hc]), ← List.cons_append]
    exact (rtakeWhile_append_stop (fun d hd => hmiddle d (List.mem_of_getLast? hd)) hbehind).2

/-- What is left of a text without white space around it and without large letters is a word exactly
if the text spells the word. -/
theorem canonical_eq_iff {word s : String} (hword : InSmallLetters word) :
    canonical s = word ↔ IsSpelling word s := by
  rw [canonical, ← String.toList_inj, String.toList_ofList]
  constructor
  · intro h
    obtain ⟨front, behind, hs, hblank⟩ := exists_append_trim s.toList
    exact ⟨front, trim s.toList, behind, hs, hblank, (map_toLower_eq_iff hword).1 h⟩
  · rintro ⟨front, middle, behind, hs, hblank, hmiddle⟩
    rw [← map_toLower_eq_iff hword] at hmiddle
    have hletters : ∀ c ∈ middle, isBlank c = false := by
      intro c hc
      apply isBlank_of_isLower_toLower
      apply hword
      rw [← hmiddle]
      exact List.mem_map_of_mem hc
    rw [hs, trim_append hblank hletters, hmiddle]

theorem isSpelling_empty_iff {s : String} : IsSpelling "" s ↔ IsBlankText s := by
  constructor
  · rintro ⟨front, middle, behind, hs, hblank, hmiddle⟩
    obtain rfl : middle = [] := List.forall₂_nil_right_iff.1 hmiddle
    intro c hc
    rw [hs, List.append_nil] at hc
    exact hblank c hc
  · intro h
    exact ⟨s.toList, [], [], by simp, by rwa [List.append_nil], .nil⟩

end Text

open Text

/-! ### Readers that take every spelling -/

namespace Surface

theorem inSmallLetters_name (f : Surface) : InSmallLetters f.name := by
  cases f <;> decide

theorem parse_eq_ok_iff {s : String} {f : Surface} : parse s = .ok f ↔ IsSpelling f.name s := by
  rw [← canonical_eq_iff f.inSmallLetters_name, parse]
  split
  · next h => cases f <;> simp [h, name]
  · split
    · next h => cases f <;> simp [h, name]
    · next hspelled hsymbolic => cases f <;> simp [hspelled, hsymbolic, name]

end Surface

namespace SurfaceFilter

theorem parse_only_iff {s : String} {f : Surface} :
    parse s = .ok (only f) ↔ Surface.parse s = .ok f := by
  rw [parse, Surface.parse]
  split
  · cases f <;> simp [only]
  · split
    · cases f <;> simp [only]
    · split <;> cases f <;> simp [only]

theorem parse_all_iff {s : String} :
    parse s = .ok .all ↔ IsSpelling "all" s ∨ IsBlankText s := by
  have hall : InSmallLetters "all" := by decide
  have hempty : InSmallLetters "" := by decide
  rw [← canonical_eq_iff hall, ← isSpelling_empty_iff, ← canonical_eq_iff hempty, parse]
  split
  · next h => simp [h]
  · split
    · next h => simp [h]
    · split
      · next h => simp [h]
      · next h => simp [h]

theorem parse_name (f : SurfaceFilter) : parse f.name = .ok f := by
  cases f <;> decide

end SurfaceFilter

end PrimitiveAbi
