import PrimitiveAbi.Proofs.Collisions

/-!
# The texts that are symbols

Mangling goes character by character, and what a character contributes is a word of ASCII letters,
digits and underscores (`Mangling.isWord_mangle`), which mangling leaves as it is
(`Mangling.mangle_of_isWord`). So the symbols are exactly these words. A symbol begins with a digit
exactly if the name does, and only such a symbol, or the empty one, is no identifier of C.
-/

namespace PrimitiveAbi.Mangling

/-- The text consists of ASCII letters, digits and underscores. -/
def IsWord (s : String) : Prop := ∀ c ∈ s.toList, c.isAlphanum = true ∨ c = '_'

/-- The text begins with an ASCII digit. -/
def BeginsWithDigit (s : String) : Prop := ∃ c ∈ s.toList.head?, c.isDigit = true

/-- The text is a C identifier that every compiler takes. -/
structure IsIdentifier (s : String) : Prop where
  nonempty : s ≠ ""
  word : IsWord s
  first : ¬ BeginsWithDigit s

/-! ### One character -/

theorem isKept_iff {c : Char} : isKept c = true ↔ c.isAlphanum = true ∨ c = '_' := by
  rw [isKept, Bool.or_eq_true, decide_eq_true_eq]

theorem mangleChar_of_isKept {c : Char} (h : isKept c = true) : mangleChar c = [c] :=
  if_pos h

theorem isKept_of_mem_mangleChar {c d : Char} (h : d ∈ mangleChar c) : isKept d = true := by
  cases hc : c.isAlphanum with
  | true =>
    rw [mangleChar_of_isAlphanum hc, List.mem_singleton] at h
    rw [h, isKept_iff]
    exact .inl hc
  | false =>
    rw [mangleChar_of_not_isAlphanum hc, List.mem_cons] at h
    rw [isKept_iff]
    rcases h with rfl | h
    · exact .inr rfl
    · refine .inl ?_
      rw [Char.isAlphanum, isDigit_of_mem_codeDigits h, Bool.or_true]

/-- A character contributes a digit in front exactly if it is one. -/
theorem isDigit_head?_mangleChar_iff {c : Char} :
    (∃ d ∈ (mangleChar c).head?, d.isDigit = true) ↔ c.isDigit = true := by
  constructor
  · rintro ⟨d, hd, hdigit⟩
    exact isDigit_of_head?_mangleChar hd hdigit
  · intro h
    have halphanum : c.isAlphanum = true := by rw [Char.isAlphanum, h, Bool.or_true]
    rw [mangleChar_of_isAlphanum halphanum]
    exact ⟨c, rfl, h⟩

/-! ### Names -/

theorem mangle_append (a b : String) : mangle (a ++ b) = mangle a ++ mangle b := by
  rw [← String.toList_inj, String.toList_append, toList_mangle, toList_mangle, toList_mangle,
    String.toList_append, List.flatMap_append]

theorem isWord_mangle (a : String) : IsWord (mangle a) := by
  intro d hd
  rw [toList_mangle, List.mem_flatMap] at hd
  obtain ⟨c, -, hmem⟩ := hd
  exact isKept_iff.1 (isKept_of_mem_mangleChar hmem)

theorem mangle_of_isWord {a : String} (h : IsWord a) : mangle a = a := by
  have hchars : ∀ c ∈ a.toList, mangleChar c = [c] := fun c hc =>
    mangleChar_of_isKept (isKept_iff.2 (h c hc))
  rw [← String.toList_inj, toList_mangle, List.flatMap_congr hchars, List.flatMap_singleton']

theorem mangle_eq_self_iff {a : String} : mangle a = a ↔ IsWord a :=
  ⟨fun h => h ▸ isWord_mangle a, mangle_of_isWord⟩

theorem length_le_length_mangle (a : String) : a.length ≤ (mangle a).length := by
  rw [← String.length_toList, ← String.length_toList, toList_mangle]
  induction a.toList with
  | nil => exact Nat.le_refl 0
  | cons c cs ih =>
    have hpos := List.length_pos_iff.2 (mangleChar_ne_nil c)
    rw [List.flatMap_cons, List.length_append, List.length_cons]
    omega

theorem mangle_eq_empty_iff {a : String} : mangle a = "" ↔ a = "" := by
  constructor
  · intro h
    have hle := length_le_length_mangle a
    rw [h] at hle
    exact String.length_eq_zero_iff.1 (Nat.le_zero.1 hle)
  · rintro rfl
    rfl

theorem beginsWithDigit_mangle_iff {a : String} :
    BeginsWithDigit (mangle a) ↔ BeginsWithDigit a := by
  rw [BeginsWithDigit, BeginsWithDigit, toList_mangle]
  cases a.toList with
  | nil => rfl
  | cons c cs =>
    rw [List.flatMap_cons, List.head?_append_of_ne_nil _ (mangleChar_ne_nil c),
      isDigit_head?_mangleChar_iff]
    simp

theorem isIdentifier_mangle_iff {a : String} :
    IsIdentifier (mangle a) ↔ a ≠ "" ∧ ¬ BeginsWithDigit a := by
  rw [← beginsWithDigit_mangle_iff, ne_eq, ← mangle_eq_empty_iff]
  exact ⟨fun h => ⟨h.nonempty, h.first⟩, fun h => ⟨h.1, isWord_mangle a, h.2⟩⟩

/-- Mangling respects concatenation and takes the names onto the words, which it leaves as they are;
no name becomes shorter. A symbol is an identifier of C exactly if its name is not empty and does not
begin with a digit. -/
theorem mangle_projects_onto_words :
    (∀ a b, mangle (a ++ b) = mangle a ++ mangle b) ∧
    (∀ a, mangle (mangle a) = mangle a) ∧
    (∀ a, mangle a = a ↔ IsWord a) ∧
    (∀ s, (∃ a, mangle a = s) ↔ IsWord s) ∧
    (∀ a, a.length ≤ (mangle a).length) ∧
    ∀ a, IsIdentifier (mangle a) ↔ a ≠ "" ∧ ¬ BeginsWithDigit a := by
  refine ⟨mangle_append, fun a => mangle_of_isWord (isWord_mangle a), fun a => mangle_eq_self_iff,
    ?_, length_le_length_mangle, fun a => isIdentifier_mangle_iff⟩
  intro s
  constructor
  · rintro ⟨a, rfl⟩
    exact isWord_mangle a
  · exact fun h => ⟨s, mangle_of_isWord h⟩

end PrimitiveAbi.Mangling
