import PrimitiveAbi.Json.Skip
import PrimitiveAbi.Proofs.Json.Grammar

/-!
# The scanners and the grammar

White space, words, strings and unsigned integers: what each scanner takes off a text is exactly a
production of the grammar, and it takes all of it. Strings end at their quote wherever they stand; a
number must be told where it ends, so the scanner agrees with the grammar only where no character
behind it could go on with the number (`NumberEnds`).
-/

namespace PrimitiveAbi.Json

open Text (hexDigit?)

/-! ### White space -/

theorem gap_skipBlank (cs : List Char) : Gap cs (skipBlank cs) := by
  induction cs with
  | nil => exact .nil
  | cons c cs ih =>
    rw [skipBlank, List.dropWhile_cons]
    split
    · exact .cons ‹_› ih
    · exact .nil

/-- White space in front makes no difference to what is skipped. -/
theorem Gap.skipBlank_eq {cs rest : List Char} (h : Gap cs rest) :
    skipBlank cs = skipBlank rest := by
  induction h with
  | nil => rfl
  | cons hc _ ih => rw [skipBlank, List.dropWhile_cons_of_pos hc]; exact ih

theorem Gap.trans {a b c : List Char} (h : Gap a b) (h' : Gap b c) : Gap a c := by
  induction h with
  | nil => exact h'
  | cons hc _ ih => exact .cons hc (ih h')

theorem gap_nil_iff {cs : List Char} : Gap cs [] ↔ skipBlank cs = [] := by
  constructor
  · intro h
    exact h.skipBlank_eq
  · intro h
    have := gap_skipBlank cs
    rwa [h] at this

/-- The next character stands behind white space and is none itself. -/
theorem next_eq_ok_iff {cs rest : List Char} {c : Char} :
    next cs = .ok (c, rest) ↔ Gap cs (c :: rest) ∧ isBlank c = false := by
  unfold next
  constructor
  · intro h
    split at h
    · simp at h
    · rename_i d ds hd
      simp only [Except.ok.injEq, Prod.mk.injEq] at h
      obtain ⟨rfl, rfl⟩ := h
      refine ⟨hd ▸ gap_skipBlank cs, ?_⟩
      have := List.head?_dropWhile_not isBlank cs
      rw [← skipBlank, hd] at this
      simpa using this
  · rintro ⟨h, hc⟩
    rw [h.skipBlank_eq, skipBlank, List.dropWhile_cons_of_neg (by simp [hc])]

theorem gap_of_next {cs rest : List Char} {c : Char} (h : next cs = .ok (c, rest)) :
    Gap cs (c :: rest) :=
  (next_eq_ok_iff.1 h).1

/-! ### Words -/

theorem literal_eq_ok_iff {word cs rest : List Char} :
    literal word cs = .ok rest ↔ cs = word ++ rest := by
  induction word generalizing cs with
  | nil => simp [literal]
  | cons w word ih =>
    cases cs with
    | nil => simp [literal]
    | cons c cs =>
      rw [literal]
      by_cases hc : c = w
      · simp [hc, ih]
      · simp [hc]

/-- What follows a colon. -/
theorem colon_eq_ok_iff {cs rest : List Char} : colon cs = .ok rest ↔ Gap cs (':' :: rest) := by
  unfold colon
  constructor
  · intro h
    split at h
    · simp at h
    · rename_i hn
      split at h
      · subst_vars
        simp only [Except.ok.injEq] at h
        exact h ▸ gap_of_next hn
      · simp at h
  · intro h
    rw [next_eq_ok_iff.2 ⟨h, rfl⟩]
    rfl

/-! ### Strings -/

theorem hexDigit?_lt {c : Char} {n : Nat} (h : hexDigit? c = some n) : n < 16 := by
  unfold hexDigit? at h
  split at h
  · rename_i hd
    have hd := Char.isDigit_iff_toNat.1 hd
    simp only [Option.some.injEq, Char.reduceToNat] at h hd
    omega
  split at h
  · rename_i hd
    simp only [Option.some.injEq, Char.le_def, UInt32.le_iff_toNat_le, Char.toNat_val,
      Char.reduceToNat] at h hd
    omega
  split at h
  · rename_i hd
    simp only [Option.some.injEq, Char.le_def, UInt32.le_iff_toNat_le, Char.toNat_val,
      Char.reduceToNat] at h hd
    omega
  · simp at h

theorem hexNumber?_lt {a b c d : Char} {n : Nat} (h : hexNumber? a b c d = some n) :
    n < 0x10000 := by
  simp only [hexNumber?, Option.bind_eq_bind, Option.bind_eq_some_iff, Option.pure_def,
    Option.some.injEq] at h
  obtain ⟨i, hi, j, hj, k, hk, l, hl, rfl⟩ := h
  have := hexDigit?_lt hi
  have := hexDigit?_lt hj
  have := hexDigit?_lt hk
  have := hexDigit?_lt hl
  omega

theorem codeUnit_eq_ok_iff {cs rest : List Char} {n : Nat} :
    codeUnit cs = .ok (n, rest) ↔
      ∃ a b c d, cs = a :: b :: c :: d :: rest ∧ hexNumber? a b c d = some n := by
  constructor
  · intro h
    unfold codeUnit at h
    split at h
    · split at h
      · rename_i hx
        simp only [Except.ok.injEq, Prod.mk.injEq] at h
        obtain ⟨rfl, rfl⟩ := h
        exact ⟨_, _, _, _, rfl, hx⟩
      · simp at h
    · split at h <;> simp at h
  · rintro ⟨a, b, c, d, rfl, h⟩
    simp [codeUnit, h]

theorem escaped?_eq_some_iff {letter c : Char} :
    escaped? letter = some c ↔ (letter, c) ∈ shortEscapes := by
  constructor
  · intro h
    unfold escaped? at h
    split at h
    case h_9 => simp at h
    all_goals
      rw [Option.some.injEq] at h
      rw [← h]; decide
  · intro h
    simp only [shortEscapes, List.mem_cons, Prod.mk.injEq, List.not_mem_nil, or_false] at h
    rcases h with ⟨rfl, rfl⟩ | ⟨rfl, rfl⟩ | ⟨rfl, rfl⟩ | ⟨rfl, rfl⟩ | ⟨rfl, rfl⟩ | ⟨rfl, rfl⟩ |
      ⟨rfl, rfl⟩ | ⟨rfl, rfl⟩ <;> rfl

theorem toNat_ofNat_of_isValidChar {n : Nat} (h : n.isValidChar) : (Char.ofNat n).toNat = n := by
  rw [Char.ofNat, dif_pos h]; rfl

theorem isHighSurrogate_iff {n : Nat} : isHighSurrogate n = true ↔ 0xd800 ≤ n ∧ n ≤ 0xdbff := by
  simp [isHighSurrogate]

theorem isLowSurrogate_iff {n : Nat} : isLowSurrogate n = true ↔ 0xdc00 ≤ n ∧ n ≤ 0xdfff := by
  simp [isLowSurrogate]

/-- A pair of surrogates is the pair of its character. -/
theorem toNat_ofSurrogates {high low : Nat} (hh : isHighSurrogate high = true)
    (hl : isLowSurrogate low = true) :
    (ofSurrogates high low).toNat = 0x10000 + (high - 0xd800) * 0x400 + (low - 0xdc00) := by
  rw [isHighSurrogate_iff] at hh
  rw [isLowSurrogate_iff] at hl
  exact toNat_ofNat_of_isValidChar (.inr ⟨by omega, by omega⟩)

/-- The character of a pair of surrogates is the one that has them. -/
theorem ofSurrogates_surrogates {c : Char} (h : 0x10000 ≤ c.toNat) :
    ofSurrogates (highSurrogate c) (trailSurrogate c) = c := by
  rw [ofSurrogates, highSurrogate, trailSurrogate,
    show 0x10000 + (0xd800 + (c.toNat - 0x10000) / 0x400 - 0xd800) * 0x400 +
      (0xdc00 + (c.toNat - 0x10000) % 0x400 - 0xdc00) = c.toNat by omega, Char.ofNat_toNat]

/-- No character is a surrogate. -/
theorem toNat_not_surrogate (c : Char) : c.toNat < 0xd800 ∨ 0xdfff < c.toNat :=
  c.valid.imp_right And.left

theorem toNat_lt (c : Char) : c.toNat < 0x110000 := by
  have h : c.toNat.isValidChar := c.valid
  rcases h with h | h <;> omega

theorem lowSurrogate_sound {cs rest : List Char} {n : Nat} (h : lowSurrogate cs = .ok (n, rest)) :
    ∃ tail, cs = '\\' :: 'u' :: tail ∧ codeUnit tail = .ok (n, rest) ∧ isLowSurrogate n = true := by
  unfold lowSurrogate at h
  split at h
  · split at h
    · simp at h
    rename_i hu
    split at h
    · rename_i hl
      simp only [Except.ok.injEq, Prod.mk.injEq] at h
      obtain ⟨rfl, rfl⟩ := h
      exact ⟨_, rfl, hu, hl⟩
    · simp at h
  all_goals simp at h

theorem toNat_ofNat_of_not_surrogate {n : Nat} (hlt : n < 0x10000) (hl : ¬ isLowSurrogate n = true)
    (hh : ¬ isHighSurrogate n = true) : (Char.ofNat n).toNat = n := by
  rw [isLowSurrogate_iff] at hl
  rw [isHighSurrogate_iff] at hh
  apply toNat_ofNat_of_isValidChar
  by_cases hn : n < 0xd800
  · exact .inl hn
  · exact .inr ⟨by omega, by omega⟩

/-- The pair of the character of a pair of surrogates is that pair. -/
theorem surrogates_ofSurrogates {high low : Nat} (hh : isHighSurrogate high = true)
    (hl : isLowSurrogate low = true) :
    0x10000 ≤ (ofSurrogates high low).toNat ∧ high = highSurrogate (ofSurrogates high low) ∧
      low = trailSurrogate (ofSurrogates high low) := by
  have hc := toNat_ofSurrogates hh hl
  rw [isHighSurrogate_iff] at hh
  rw [isLowSurrogate_iff] at hl
  rw [highSurrogate, trailSurrogate, hc]
  omega

/-- A `\u` escape is the code unit of its character, or the two of its pair of surrogates. -/
theorem unicodeEscape_sound {c : Char} {cs after : List Char}
    (h : unicodeEscape cs = .ok (c, after)) :
    (∃ x₁ x₂ x₃ x₄, cs = x₁ :: x₂ :: x₃ :: x₄ :: after ∧
      hexNumber? x₁ x₂ x₃ x₄ = some c.toNat) ∨
    ∃ x₁ x₂ x₃ x₄ y₁ y₂ y₃ y₄,
      cs = x₁ :: x₂ :: x₃ :: x₄ :: '\\' :: 'u' :: y₁ :: y₂ :: y₃ :: y₄ :: after ∧
      0x10000 ≤ c.toNat ∧ hexNumber? x₁ x₂ x₃ x₄ = some (highSurrogate c) ∧
      hexNumber? y₁ y₂ y₃ y₄ = some (trailSurrogate c) := by
  unfold unicodeEscape at h
  split at h
  · simp at h
  rename_i n tail hn
  obtain ⟨x₁, x₂, x₃, x₄, rfl, hx⟩ := codeUnit_eq_ok_iff.1 hn
  split at h
  · simp at h
  rename_i hnotLow
  split at h
  · rename_i hhigh
    split at h
    · simp at h
    rename_i low tail' hlow
    simp only [Except.ok.injEq, Prod.mk.injEq] at h
    obtain ⟨rfl, rfl⟩ := h
    obtain ⟨tail'', rfl, hlow, hlowIs⟩ := lowSurrogate_sound hlow
    obtain ⟨y₁, y₂, y₃, y₄, rfl, hy⟩ := codeUnit_eq_ok_iff.1 hlow
    obtain ⟨hc, hhighOf, hlowOf⟩ := surrogates_ofSurrogates hhigh hlowIs
    exact .inr ⟨x₁, x₂, x₃, x₄, y₁, y₂, y₃, y₄, rfl, hc, hhighOf ▸ hx, hlowOf ▸ hy⟩
  · rename_i hnotHigh
    simp only [Except.ok.injEq, Prod.mk.injEq] at h
    obtain ⟨rfl, rfl⟩ := h
    refine .inl ⟨x₁, x₂, x₃, x₄, rfl, ?_⟩
    rw [toNat_ofNat_of_not_surrogate (hexNumber?_lt hx) hnotLow hnotHigh]
    exact hx

/-- What an escape gives is a way to write the character inside a string. -/
theorem StringBody.of_escape {c : Char} {s cs after rest : List Char}
    (h : escape cs = .ok (c, after)) (hs : StringBody s after rest) :
    StringBody (c :: s) ('\\' :: cs) rest := by
  cases cs with
  | nil => simp [escape] at h
  | cons letter cs =>
    rw [escape] at h
    by_cases hu : letter = 'u'
    · rw [if_pos hu] at h
      subst hu
      obtain ⟨_, _, _, _, rfl, hx⟩ | ⟨_, _, _, _, _, _, _, _, rfl, hc, hx, hy⟩ :=
        unicodeEscape_sound h
      · exact .code hx hs
      · exact .pair hc hx hy hs
    · rw [if_neg hu] at h
      split at h
      · rename_i d hd
        simp only [Except.ok.injEq, Prod.mk.injEq] at h
        obtain ⟨rfl, rfl⟩ := h
        exact .short (escaped?_eq_some_iff.1 hd) hs
      · simp at h

theorem stringBody_of_readString {cs s rest : List Char} (h : readString cs = .ok (s, rest)) :
    StringBody s cs rest := by
  fun_induction readString cs generalizing s with
  | case1 => simp at h
  | case2 =>
    simp only [Except.ok.injEq, Prod.mk.injEq] at h
    obtain ⟨rfl, rfl⟩ := h
    exact .close
  | case3 => simp at h
  | case4 => simp at h
  | case5 =>
    rename_i he _ _ _ hr _ ih
    simp only [Except.ok.injEq, Prod.mk.injEq] at h
    obtain ⟨rfl, rfl⟩ := h
    exact .of_escape he (ih hr)
  | case6 => simp at h
  | case7 => simp at h
  | case8 =>
    rename_i hq hb hc _ _ hr ih
    simp only [Except.ok.injEq, Prod.mk.injEq] at h
    obtain ⟨rfl, rfl⟩ := h
    exact .plain hq hb (Nat.le_of_not_lt hc) (ih hr)

theorem escape_code {c x₁ x₂ x₃ x₄ : Char} {cs : List Char}
    (h : hexNumber? x₁ x₂ x₃ x₄ = some c.toNat) :
    escape ('u' :: x₁ :: x₂ :: x₃ :: x₄ :: cs) = .ok (c, cs) := by
  have hs := toNat_not_surrogate c
  have hlow : isLowSurrogate c.toNat = false := by
    rw [Bool.eq_false_iff, Ne, isLowSurrogate_iff]; omega
  have hhigh : isHighSurrogate c.toNat = false := by
    rw [Bool.eq_false_iff, Ne, isHighSurrogate_iff]; omega
  simp [escape, unicodeEscape, codeUnit, h, hlow, hhigh]

theorem escape_pair {c x₁ x₂ x₃ x₄ y₁ y₂ y₃ y₄ : Char} {cs : List Char} (hc : 0x10000 ≤ c.toNat)
    (hx : hexNumber? x₁ x₂ x₃ x₄ = some (highSurrogate c))
    (hy : hexNumber? y₁ y₂ y₃ y₄ = some (trailSurrogate c)) :
    escape ('u' :: x₁ :: x₂ :: x₃ :: x₄ :: '\\' :: 'u' :: y₁ :: y₂ :: y₃ :: y₄ :: cs) =
      .ok (c, cs) := by
  have hlt := toNat_lt c
  have hlow : isLowSurrogate (highSurrogate c) = false := by
    rw [Bool.eq_false_iff, Ne, isLowSurrogate_iff, highSurrogate]; omega
  have hhigh : isHighSurrogate (highSurrogate c) = true := by
    rw [isHighSurrogate_iff, highSurrogate]; omega
  have htrail : isLowSurrogate (trailSurrogate c) = true := by
    rw [isLowSurrogate_iff, trailSurrogate]; omega
  simp [escape, unicodeEscape, codeUnit, lowSurrogate, hx, hy, hlow, hhigh, htrail,
    ofSurrogates_surrogates hc]

theorem readString_of_stringBody {cs s rest : List Char} (h : StringBody s cs rest) :
    readString cs = .ok (s, rest) := by
  induction h with
  | close => simp [readString]
  | plain hq hb hc _ ih => rw [readString_plain hq hb hc, ih]; rfl
  | @short letter c s cs rest hs _ ih =>
    have he : escape (letter :: cs) = .ok (c, cs) := by
      have hu : letter ≠ 'u' := by rintro rfl; revert hs; simp [shortEscapes]
      simp [escape, hu, escaped?_eq_some_iff.2 hs]
    rw [readString_escape he, ih]; rfl
  | code hx _ ih => rw [readString_escape (escape_code hx), ih]; rfl
  | pair hc hx hy _ ih => rw [readString_escape (escape_pair hc hx hy), ih]; rfl

/-- A string is read exactly where there is one. -/
theorem readString_eq_ok_iff {cs s rest : List Char} :
    readString cs = .ok (s, rest) ↔ StringBody s cs rest :=
  ⟨stringBody_of_readString, readString_of_stringBody⟩

/-! ### Unsigned integers -/

/-- Whether a character may stand in a number. -/
def inNumber (c : Char) : Bool := c.isDigit || c ∈ ['.', 'e', 'E', '+', '-']

/-- A number in front of this text does not go on into it. -/
def NumberEnds (rest : List Char) : Prop := ∀ c ∈ rest.head?, inNumber c = false

theorem NumberEnds.isDigit {rest : List Char} (h : NumberEnds rest) :
    ∀ c ∈ rest.head?, c.isDigit = false := by
  intro c hc
  exact (Bool.or_eq_false_iff.1 (h c hc)).1

theorem isDigits_of_digits {atEnd : Fault} {cs ds rest : List Char}
    (h : digits atEnd cs = .ok (ds, rest)) : IsDigits ds ∧ cs = ds ++ rest := by
  unfold digits at h
  split at h
  · simp at h
  rename_i c cs
  split at h
  · rename_i hc
    simp only [Except.ok.injEq, Prod.mk.injEq] at h
    obtain ⟨rfl, rfl⟩ := h
    refine ⟨⟨by simp [hc], fun d hd => ?_⟩, List.takeWhile_append_dropWhile.symm⟩
    exact List.all_eq_true.1 List.all_takeWhile d hd
  · simp at h

/-- Digits are read up to the first character that is none. -/
theorem digits_append {atEnd : Fault} {ds rest : List Char} (h : IsDigits ds)
    (hr : ∀ c ∈ rest.head?, c.isDigit = false) : digits atEnd (ds ++ rest) = .ok (ds, rest) := by
  obtain ⟨hne, hd⟩ := h
  cases ds with
  | nil => exact absurd rfl hne
  | cons d ds =>
    have hstop : rest.takeWhile Char.isDigit = [] ∧ rest.dropWhile Char.isDigit = rest := by
      cases rest with
      | nil => exact ⟨rfl, rfl⟩
      | cons c rest =>
        have hc : ¬c.isDigit = true := by simp [hr c rfl]
        exact ⟨List.takeWhile_cons_of_neg hc, List.dropWhile_cons_of_neg hc⟩
    rw [List.cons_append, digits, if_pos (hd d List.mem_cons_self), ← List.cons_append,
      List.takeWhile_append_of_pos hd, List.dropWhile_append_of_pos hd, hstop.1, hstop.2,
      List.append_nil]

theorem isWhole_of_wholePart {atEnd : Fault} {cs ds rest : List Char}
    (h : wholePart atEnd cs = .ok (ds, rest)) : IsWhole ds ∧ cs = ds ++ rest := by
  unfold wholePart at h
  split at h
  · split at h
    · simp at h
    · simp only [Except.ok.injEq, Prod.mk.injEq] at h
      obtain ⟨rfl, rfl⟩ := h
      refine ⟨⟨⟨by simp, fun d hd => ?_⟩, fun _ => rfl⟩, rfl⟩
      rw [List.mem_singleton.1 hd]
      rfl
  · rename_i cs hz
    obtain ⟨hds, rfl⟩ := isDigits_of_digits h
    refine ⟨⟨hds, fun h0 => ?_⟩, rfl⟩
    -- with another character behind it the zero would have been caught above
    cases ds with
    | nil => simp at h0
    | cons d ds =>
      simp only [List.head?_cons, Option.some.injEq] at h0
      subst h0
      cases ds with
      | nil => rfl
      | cons d ds => exact absurd rfl (hz d (ds ++ rest))

theorem wholePart_append {atEnd : Fault} {ds rest : List Char} (h : IsWhole ds)
    (hr : ∀ c ∈ rest.head?, c.isDigit = false) : wholePart atEnd (ds ++ rest) = .ok (ds, rest) := by
  obtain ⟨hds, hz⟩ := h
  unfold wholePart
  split
  · rename_i c tail heq
    cases ds with
    | nil => exact absurd rfl hds.1
    | cons d ds =>
      simp only [List.cons_append, List.cons.injEq] at heq
      obtain ⟨rfl, heq⟩ := heq
      obtain ⟨-, rfl⟩ := List.cons.inj (hz rfl)
      simp only [List.nil_append] at heq
      subst heq
      simp [hr c rfl]
  · exact digits_append hds hr

theorem signPart_eq_of_not_minus {cs : List Char} (h : (signPart cs).1 = false) :
    (signPart cs).2 = cs := by
  unfold signPart at h ⊢
  split at h
  · simp at h
  · rfl

theorem fractionPart_nil {atEnd : Fault} {cs rest : List Char}
    (h : fractionPart atEnd cs = .ok ([], rest)) : cs = rest := by
  unfold fractionPart at h
  split at h
  · exact absurd rfl (isDigits_of_digits h).1.1
  · simpa using h

theorem exponentPart_none {atEnd : Fault} {cs rest : List Char}
    (h : exponentPart atEnd cs = .ok (none, rest)) : cs = rest := by
  unfold exponentPart at h
  split at h
  · simpa using h
  · split at h
    · split at h <;> simp at h
    · simpa using h

/-- A number that is read as a natural number is written with digits alone. -/
theorem isWhole_of_readNumber {cs rest : List Char} {n : Nat}
    (h : readNumber cs = .ok (.natural n, rest)) :
    ∃ ds, IsWhole ds ∧ decimal ds = n ∧ cs = ds ++ rest := by
  unfold readNumber at h
  split at h
  · simp at h
  rename_i numeral after hnumeral
  split at h
  · rename_i number hvalue
    simp only [Except.ok.injEq, Prod.mk.injEq] at h
    obtain ⟨rfl, rfl⟩ := h
    unfold readNumeral at hnumeral
    split at hnumeral
    · simp at hnumeral
    rename_i whole afterWhole hwhole
    split at hnumeral
    · simp at hnumeral
    rename_i fraction afterFraction hfraction
    split at hnumeral
    · simp at hnumeral
    rename_i exponent _ hexponent
    simp only [Except.ok.injEq, Prod.mk.injEq] at hnumeral
    obtain ⟨rfl, rfl⟩ := hnumeral
    simp only [Numeral.value?, Numeral.isInteger, Bool.and_eq_true, List.isEmpty_iff,
      Option.isNone_iff_eq_none, Bool.not_eq_true', decide_eq_true_eq] at hvalue
    split at hvalue
    · rename_i hinteger
      obtain ⟨⟨⟨rfl, rfl⟩, hsign⟩, -⟩ := hinteger
      simp only [Option.some.injEq, Number.natural.injEq] at hvalue
      obtain ⟨hds, hcs⟩ := isWhole_of_wholePart hwhole
      rw [signPart_eq_of_not_minus hsign, fractionPart_nil hfraction,
        exponentPart_none hexponent] at hcs
      exact ⟨whole, hds, hvalue, hcs⟩
    split at hvalue
    · simp at hvalue
    · simp at hvalue
  · simp at h

theorem fractionPart_of_numberEnds {atEnd : Fault} {rest : List Char} (h : NumberEnds rest) :
    fractionPart atEnd rest = .ok ([], rest) := by
  unfold fractionPart
  split
  · exact absurd (h '.' rfl) (by decide)
  · rfl

theorem exponentPart_of_numberEnds {atEnd : Fault} {rest : List Char} (h : NumberEnds rest) :
    exponentPart atEnd rest = .ok (none, rest) := by
  unfold exponentPart
  split
  · rfl
  · rename_i c rest
    rw [if_neg]
    rintro (rfl | rfl) <;> exact absurd (h _ rfl) (by decide)

theorem signPart_of_isWhole {ds rest : List Char} (h : IsWhole ds) :
    signPart (ds ++ rest) = (false, ds ++ rest) := by
  unfold signPart
  split
  · rename_i tail heq
    obtain ⟨⟨hne, hd⟩, -⟩ := h
    cases ds with
    | nil => exact absurd rfl hne
    | cons d ds =>
      obtain ⟨rfl, -⟩ := List.cons.inj heq
      exact absurd (hd '-' List.mem_cons_self) (by decide)
  · rfl

/-- Digits alone are read as the number that they write, as long as it has 64 bits. -/
theorem readNumber_of_isWhole {ds rest : List Char} (h : IsWhole ds) (hr : NumberEnds rest)
    (hlt : decimal ds < UInt64.size) : readNumber (ds ++ rest) = .ok (.natural (decimal ds), rest) := by
  have hnumeral : readNumeral .truncated (ds ++ rest) = .ok (⟨false, ds, [], none⟩, rest) := by
    unfold readNumeral
    rw [signPart_of_isWhole h, wholePart_append h hr.isDigit]
    simp only [fractionPart_of_numberEnds hr, exponentPart_of_numberEnds hr]
  have hvalue : Numeral.value? ⟨false, ds, [], none⟩ = some (.natural (decimal ds)) := by
    rw [Numeral.value?]
    exact if_pos (by simpa [Numeral.isInteger] using hlt)
  rw [readNumber, hnumeral]
  simp only [hvalue]

/-! ### Where a number ends -/

theorem Gap.numberEnds {cs rest : List Char} (h : Gap cs rest) (hr : NumberEnds rest) :
    NumberEnds cs := by
  cases h with
  | nil => exact hr
  | @cons c cs _ hc _ =>
    intro d hd
    obtain rfl : c = d := by simpa using hd
    simp only [isBlank, Bool.or_eq_true, decide_eq_true_eq] at hc
    rcases hc with ((rfl | rfl) | rfl) | rfl <;> decide

theorem numberEnds_nil : NumberEnds [] := by
  intro c hc
  simp at hc

theorem numberEnds_cons {c : Char} {rest : List Char}
    (h : inNumber c = false) : NumberEnds (c :: rest) := by
  intro d hd
  obtain rfl : c = d := by simpa using hd
  exact h

theorem Separator.numberEnds {cs rest : List Char} (h : Separator false cs rest) :
    NumberEnds cs := by
  cases h with
  | comma hg => exact hg.numberEnds (numberEnds_cons (by decide))

/-- A number ends in front of a comma and of a closing bracket. -/
theorem Items.numberEnds {ts : List Tree} {cs rest : List Char} (h : Items false ts cs rest) :
    NumberEnds cs := by
  cases h with
  | close hg => exact hg.numberEnds (numberEnds_cons (by decide))
  | item hs => exact hs.numberEnds

theorem Members.numberEnds {ms : List (String × Tree)} {cs rest : List Char}
    (h : Members false ms cs rest) : NumberEnds cs := by
  cases h with
  | close hg => exact hg.numberEnds (numberEnds_cons (by decide))
  | member hs => exact hs.numberEnds

/-! ### The character that a value opens with -/

theorem isBlank_of_opensNumber {c : Char} (h : opensNumber c = true) : isBlank c = false := by
  simp only [isBlank, Bool.or_eq_false_iff, decide_eq_false_iff_not]
  refine ⟨⟨⟨?_, ?_⟩, ?_⟩, ?_⟩ <;> (rintro rfl; exact absurd h (by decide))

theorem IsNumber.exists_cons {token : List Char} (h : IsNumber token) :
    ∃ c tail, token = c :: tail ∧ opensNumber c = true := by
  cases h with
  | @plain whole _ _ hw _ _ =>
    obtain ⟨⟨hne, hd⟩, -⟩ := hw
    cases whole with
    | nil => exact absurd rfl hne
    | cons d ds => exact ⟨d, _, rfl, by simp [opensNumber, hd d List.mem_cons_self]⟩
  | minus => exact ⟨'-', _, rfl, rfl⟩

/-- A number of digits alone has no other part than those before the point. -/
theorem IsNumber.isWhole {ds : List Char} (h : IsNumber ds) (hd : ∀ d ∈ ds, d.isDigit = true) :
    IsWhole ds := by
  cases h with
  | @plain whole fraction exponent hw hf he =>
    have hf : fraction = [] := by
      cases hf with
      | none => rfl
      | point => exact absurd (hd '.' (by simp)) (by decide)
    have he : exponent = [] := by
      cases he with
      | none => rfl
      | @bare e _ hc =>
        have := hd e (by simp)
        rcases hc with rfl | rfl <;> exact absurd this (by decide)
      | @signed e _ _ hc =>
        have := hd e (by simp)
        rcases hc with rfl | rfl <;> exact absurd this (by decide)
    subst hf he
    simpa using hw
  | minus => exact absurd (hd '-' (by simp)) (by decide)

theorem IsWhole.isNumber {ds : List Char} (h : IsWhole ds) : IsNumber ds := by
  have := IsNumber.plain h .none .none
  simpa using this

/-- The next character in front of a value opens it, and closes no bracket. -/
theorem Spells.next {t : Tree} {cs rest : List Char} (h : Spells t cs rest) :
    ∃ c tail, next cs = .ok (c, tail) ∧ c ≠ ']' ∧ c ≠ '\x7d' := by
  cases h with
  | null hg => exact ⟨'n', _, next_eq_ok_iff.2 ⟨hg, rfl⟩, by decide, by decide⟩
  | true hg => exact ⟨'t', _, next_eq_ok_iff.2 ⟨hg, rfl⟩, by decide, by decide⟩
  | false hg => exact ⟨'f', _, next_eq_ok_iff.2 ⟨hg, rfl⟩, by decide, by decide⟩
  | number hn hg =>
    obtain ⟨c, tail, rfl, hc⟩ := hn.exists_cons
    refine ⟨c, tail ++ rest, next_eq_ok_iff.2 ⟨hg, isBlank_of_opensNumber hc⟩, ?_, ?_⟩
    · rintro rfl; exact absurd hc (by decide)
    · rintro rfl; exact absurd hc (by decide)
  | text hg => exact ⟨'"', _, next_eq_ok_iff.2 ⟨hg, rfl⟩, by decide, by decide⟩
  | array hg => exact ⟨'[', _, next_eq_ok_iff.2 ⟨hg, rfl⟩, by decide, by decide⟩
  | object hg => exact ⟨'\x7b', _, next_eq_ok_iff.2 ⟨hg, rfl⟩, by decide, by decide⟩

end PrimitiveAbi.Json
