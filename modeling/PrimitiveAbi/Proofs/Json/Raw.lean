import PrimitiveAbi.Proofs.Json.Scanner

/-!
# Values that nobody looks into

The grammar once more, without a meaning: what a text must look like to go past a value in it. Every
spelling of a tree is one (`Spells.raw`), but here a `\u` escape in a string need not be part of a
character, and numbers have any size.
-/

namespace PrimitiveAbi.Json

/-- The inside of a string with any escapes, from behind the opening quote. -/
inductive RawBody : List Char → List Char → Prop
  | close {rest : List Char} : RawBody ('"' :: rest) rest
  | plain {c : Char} {cs rest : List Char} : c ≠ '"' → c ≠ '\\' → 0x20 ≤ c.toNat →
      RawBody cs rest → RawBody (c :: cs) rest
  | short {letter c : Char} {cs rest : List Char} : (letter, c) ∈ shortEscapes →
      RawBody cs rest → RawBody ('\\' :: letter :: cs) rest
  | code {n : Nat} {x₁ x₂ x₃ x₄ : Char} {cs rest : List Char} :
      hexNumber? x₁ x₂ x₃ x₄ = some n → RawBody cs rest →
      RawBody ('\\' :: 'u' :: x₁ :: x₂ :: x₃ :: x₄ :: cs) rest

/-- The values that are words. -/
def words : List (List Char) :=
  [['n', 'u', 'l', 'l'], ['t', 'r', 'u', 'e'], ['f', 'a', 'l', 's', 'e']]

mutual

/-- A value of any kind, with the white space in front of it. -/
inductive Raw : List Char → List Char → Prop
  | word {w cs rest : List Char} : w ∈ words → Gap cs (w ++ rest) → Raw cs rest
  | number {token cs rest : List Char} : IsNumber token → Gap cs (token ++ rest) → Raw cs rest
  | text {cs body rest : List Char} : Gap cs ('"' :: body) → RawBody body rest → Raw cs rest
  | array {cs body rest : List Char} : Gap cs ('[' :: body) → RawItems true body rest → Raw cs rest
  | object {cs body rest : List Char} : Gap cs ('\x7b' :: body) → RawMembers true body rest →
      Raw cs rest

/-- The elements of an array from the first or a later one on, and the closing bracket. -/
inductive RawItems : Bool → List Char → List Char → Prop
  | close {first : Bool} {cs rest : List Char} : Gap cs (']' :: rest) → RawItems first cs rest
  | item {first : Bool} {cs cs₁ cs₂ rest : List Char} : Separator first cs cs₁ → Raw cs₁ cs₂ →
      RawItems false cs₂ rest → RawItems first cs rest

/-- The members of an object from the first or a later one on, and the closing brace. -/
inductive RawMembers : Bool → List Char → List Char → Prop
  | close {first : Bool} {cs rest : List Char} : Gap cs ('\x7d' :: rest) → RawMembers first cs rest
  | member {first : Bool} {cs cs₁ cs₂ cs₃ cs₄ cs₅ rest : List Char} : Separator first cs cs₁ →
      Gap cs₁ ('"' :: cs₂) → RawBody cs₂ cs₃ → Gap cs₃ (':' :: cs₄) → Raw cs₄ cs₅ →
      RawMembers false cs₅ rest → RawMembers first cs rest

end

/-! ### What has a meaning is well formed -/

theorem StringBody.raw {s cs rest : List Char} (h : StringBody s cs rest) : RawBody cs rest := by
  induction h with
  | close => exact .close
  | plain hq hb hc _ ih => exact .plain hq hb hc ih
  | short hs _ ih => exact .short hs ih
  | code hx _ ih => exact .code hx ih
  | pair _ hx hy _ ih => exact .code hx (.code hy ih)

mutual

theorem Spells.raw {t : Tree} {cs rest : List Char} (h : Spells t cs rest) : Raw cs rest := by
  cases h with
  | null hg => exact .word (w := ['n', 'u', 'l', 'l']) (by decide) hg
  | true hg => exact .word (w := ['t', 'r', 'u', 'e']) (by decide) hg
  | false hg => exact .word (w := ['f', 'a', 'l', 's', 'e']) (by decide) hg
  | number hn hg => exact .number hn hg
  | text hg hs => exact .text hg hs.raw
  | array hg hts => exact .array hg hts.raw
  | object hg hms => exact .object hg hms.raw

theorem Items.raw {first : Bool} {ts : List Tree} {cs rest : List Char}
    (h : Items first ts cs rest) : RawItems first cs rest := by
  cases h with
  | close hg => exact .close hg
  | item hs ht hts => exact .item hs ht.raw hts.raw

theorem Members.raw {first : Bool} {ms : List (String × Tree)} {cs rest : List Char}
    (h : Members first ms cs rest) : RawMembers first cs rest := by
  cases h with
  | close hg => exact .close hg
  | member hs hq hn hcolon ht hms => exact .member hs hq hn.raw hcolon ht.raw hms.raw

end

/-! ### The next character -/

theorem word_eq_cons {w : List Char} (h : w ∈ words) :
    ∃ c tail, w = c :: tail ∧ isBlank c = false ∧ c ≠ ']' ∧ c ≠ '\x7d' := by
  simp only [words, List.mem_cons, List.not_mem_nil, or_false] at h
  rcases h with rfl | rfl | rfl <;> exact ⟨_, _, rfl, by decide, by decide, by decide⟩

/-- The next character in front of a value opens it, and closes no bracket. -/
theorem Raw.next {cs rest : List Char} (h : Raw cs rest) :
    ∃ c tail, next cs = .ok (c, tail) ∧ c ≠ ']' ∧ c ≠ '\x7d' := by
  cases h with
  | word hw hg =>
    obtain ⟨c, tail, rfl, hblank, hc⟩ := word_eq_cons hw
    exact ⟨c, tail ++ rest, next_eq_ok_iff.2 ⟨hg, hblank⟩, hc⟩
  | number hn hg =>
    obtain ⟨c, tail, rfl, hc⟩ := hn.exists_cons
    refine ⟨c, tail ++ rest, next_eq_ok_iff.2 ⟨hg, isBlank_of_opensNumber hc⟩, ?_, ?_⟩
    · rintro rfl; exact absurd hc (by decide)
    · rintro rfl; exact absurd hc (by decide)
  | text hg => exact ⟨'"', _, next_eq_ok_iff.2 ⟨hg, rfl⟩, by decide, by decide⟩
  | array hg => exact ⟨'[', _, next_eq_ok_iff.2 ⟨hg, rfl⟩, by decide, by decide⟩
  | object hg => exact ⟨'\x7b', _, next_eq_ok_iff.2 ⟨hg, rfl⟩, by decide, by decide⟩

theorem RawItems.numberEnds {cs rest : List Char} (h : RawItems false cs rest) :
    NumberEnds cs := by
  cases h with
  | close hg => exact hg.numberEnds (numberEnds_cons (by decide))
  | item hs => exact hs.numberEnds

theorem RawMembers.numberEnds {cs rest : List Char} (h : RawMembers false cs rest) :
    NumberEnds cs := by
  cases h with
  | close hg => exact hg.numberEnds (numberEnds_cons (by decide))
  | member hs => exact hs.numberEnds

/-! ### More behind it -/

theorem Gap.append {cs rest : List Char} (h : Gap cs rest) (s : List Char) :
    Gap (cs ++ s) (rest ++ s) := by
  induction h with
  | nil => exact .nil
  | cons hc _ ih => exact .cons hc ih

theorem Separator.append {first : Bool} {cs rest : List Char} (h : Separator first cs rest)
    (s : List Char) : Separator first (cs ++ s) (rest ++ s) := by
  cases h with
  | first => exact .first
  | comma hg => exact .comma (hg.append s)

theorem StringBody.append {content cs rest : List Char} (h : StringBody content cs rest)
    (s : List Char) : StringBody content (cs ++ s) (rest ++ s) := by
  induction h with
  | close => exact .close
  | plain hq hb hc _ ih => exact .plain hq hb hc ih
  | short hs _ ih => exact .short hs ih
  | code hx _ ih => exact .code hx ih
  | pair hc hx hy _ ih => exact .pair hc hx hy ih

theorem RawBody.append {cs rest : List Char} (h : RawBody cs rest) (s : List Char) :
    RawBody (cs ++ s) (rest ++ s) := by
  induction h with
  | close => exact .close
  | plain hq hb hc _ ih => exact .plain hq hb hc ih
  | short hs _ ih => exact .short hs ih
  | code hx _ ih => exact .code hx ih

mutual

/-- A value stays one when more is put behind it. -/
theorem Raw.append {cs rest : List Char} (h : Raw cs rest) (s : List Char) :
    Raw (cs ++ s) (rest ++ s) := by
  match h with
  | .word hw hg => exact .word hw (by simpa using hg.append s)
  | .number hn hg => exact .number hn (by simpa using hg.append s)
  | .text hg hb => exact .text (hg.append s) (hb.append s)
  | .array hg hts => exact .array (hg.append s) (hts.append s)
  | .object hg hms => exact .object (hg.append s) (hms.append s)

theorem RawItems.append {first : Bool} {cs rest : List Char} (h : RawItems first cs rest)
    (s : List Char) : RawItems first (cs ++ s) (rest ++ s) := by
  match h with
  | .close hg => exact .close (hg.append s)
  | .item hs hv hts => exact .item (hs.append s) (hv.append s) (hts.append s)

theorem RawMembers.append {first : Bool} {cs rest : List Char} (h : RawMembers first cs rest)
    (s : List Char) : RawMembers first (cs ++ s) (rest ++ s) := by
  match h with
  | .close hg => exact .close (hg.append s)
  | .member hs hq hb hcolon hv hms =>
    exact .member (hs.append s) (hq.append s) (hb.append s) (hcolon.append s) (hv.append s)
      (hms.append s)

end

/-! ### Skipped strings -/

theorem skipEscape_short {letter c : Char} (cs : List Char) (h : (letter, c) ∈ shortEscapes) :
    skipEscape (letter :: cs) = .ok cs := by
  have hu : letter ≠ 'u' := by rintro rfl; revert h; simp [shortEscapes]
  simp [skipEscape, hu, escaped?_eq_some_iff.2 h]

theorem RawBody.of_skipEscape {cs after rest : List Char} (h : skipEscape cs = .ok after)
    (hb : RawBody after rest) : RawBody ('\\' :: cs) rest := by
  unfold skipEscape at h
  split at h
  · simp at h
  rename_i letter cs
  split at h
  · subst_vars
    split at h
    · simp at h
    rename_i hn
    simp only [Except.ok.injEq] at h
    subst h
    obtain ⟨x₁, x₂, x₃, x₄, rfl, hx⟩ := codeUnit_eq_ok_iff.1 hn
    exact .code hx hb
  split at h
  · rename_i hs
    simp only [Except.ok.injEq] at h
    subst h
    obtain ⟨c, hc⟩ := Option.isSome_iff_exists.1 hs
    exact .short (escaped?_eq_some_iff.1 hc) hb
  · simp at h

theorem rawBody_of_skipString {cs rest : List Char} (h : skipString cs = .ok rest) :
    RawBody cs rest := by
  fun_induction skipString cs with
  | case1 => simp at h
  | case2 =>
    simp only [Except.ok.injEq] at h
    subst h
    exact .close
  | case3 => simp at h
  | case4 _ _ he _ _ ih => exact .of_skipEscape he (ih h)
  | case5 => simp at h
  | case6 _ _ hq hb hc ih => exact .plain hq hb (Nat.le_of_not_lt hc) (ih h)

theorem skipString_escape {cs after : List Char} (h : skipEscape cs = .ok after) :
    skipString ('\\' :: cs) = skipString after := by
  rw [skipString]
  simp only [Char.reduceEq, ↓reduceIte]
  split
  · simp_all
  · rename_i he
    rw [h] at he
    cases he
    rfl

/-- A string is skipped exactly where there is one. -/
theorem skipString_eq_ok_iff {cs rest : List Char} :
    skipString cs = .ok rest ↔ RawBody cs rest := by
  constructor
  · exact rawBody_of_skipString
  · intro h
    induction h with
    | close => simp [skipString]
    | plain hq hb hc _ ih =>
      rw [skipString]
      simp only [hq, hb, ↓reduceIte, Nat.not_lt.2 hc, ih]
    | short hs _ ih => rw [skipString_escape (skipEscape_short _ hs), ih]
    | @code _ x₁ x₂ x₃ x₄ cs _ hx _ ih =>
      have he : skipEscape ('u' :: x₁ :: x₂ :: x₃ :: x₄ :: cs) = .ok cs := by
        simp [skipEscape, codeUnit, hx]
      rw [skipString_escape he, ih]

/-! ### Skipped numbers -/

theorem isFraction_of_fractionPart {atEnd : Fault} {cs ds rest : List Char}
    (h : fractionPart atEnd cs = .ok (ds, rest)) :
    ∃ fraction, IsFraction fraction ∧ cs = fraction ++ rest := by
  unfold fractionPart at h
  split at h
  · obtain ⟨hds, rfl⟩ := isDigits_of_digits h
    exact ⟨_, .point hds, rfl⟩
  · simp only [Except.ok.injEq, Prod.mk.injEq] at h
    exact ⟨[], .none, h.2⟩

theorem isExponent_of_exponentPart {atEnd : Fault} {cs rest : List Char} {e : Option Int}
    (h : exponentPart atEnd cs = .ok (e, rest)) :
    ∃ exponent, IsExponent exponent ∧ cs = exponent ++ rest := by
  unfold exponentPart at h
  split at h
  · simp only [Except.ok.injEq, Prod.mk.injEq] at h
    exact ⟨[], .none, h.2⟩
  rename_i c tail
  split at h
  · rename_i hc
    split at h
    · simp at h
    rename_i hd
    simp only [Except.ok.injEq, Prod.mk.injEq] at h
    obtain ⟨-, rfl⟩ := h
    obtain ⟨hds, htail⟩ := isDigits_of_digits hd
    unfold exponentSign at htail
    split at htail
    · exact ⟨_, .signed hc (.inr rfl) hds, congrArg (c :: '-' :: ·) htail⟩
    · exact ⟨_, .signed hc (.inl rfl) hds, congrArg (c :: '+' :: ·) htail⟩
    · exact ⟨_, .bare hc hds, congrArg (c :: ·) htail⟩
  · simp only [Except.ok.injEq, Prod.mk.injEq] at h
    exact ⟨[], .none, h.2⟩

theorem isNumber_of_readNumeral {atEnd : Fault} {cs rest : List Char} {n : Numeral}
    (h : readNumeral atEnd cs = .ok (n, rest)) :
    ∃ token, IsNumber token ∧ cs = token ++ rest := by
  unfold readNumeral at h
  split at h
  · simp at h
  rename_i hwhole
  split at h
  · simp at h
  rename_i hfraction
  split at h
  · simp at h
  rename_i hexponent
  simp only [Except.ok.injEq, Prod.mk.injEq] at h
  obtain ⟨-, rfl⟩ := h
  obtain ⟨hw, hcs⟩ := isWhole_of_wholePart hwhole
  obtain ⟨fraction, hf, rfl⟩ := isFraction_of_fractionPart hfraction
  obtain ⟨exponent, he, rfl⟩ := isExponent_of_exponentPart hexponent
  unfold signPart at hcs
  split at hcs
  · rw [← List.append_assoc, ← List.append_assoc] at hcs
    exact ⟨_, .minus hw hf he, congrArg ('-' :: ·) hcs⟩
  · rw [← List.append_assoc, ← List.append_assoc] at hcs
    exact ⟨_, .plain hw hf he, hcs⟩

theorem isNumber_of_skipNumber {cs rest : List Char} (h : skipNumber cs = .ok rest) :
    ∃ token, IsNumber token ∧ cs = token ++ rest := by
  unfold skipNumber at h
  split at h
  · simp at h
  rename_i hn
  simp only [Except.ok.injEq] at h
  exact h ▸ isNumber_of_readNumeral hn

theorem IsExponent.not_digit {exponent rest : List Char} (h : IsExponent exponent)
    (hr : NumberEnds rest) : ∀ c ∈ (exponent ++ rest).head?, c.isDigit = false := by
  intro c hc
  cases h with
  | none => exact hr.isDigit c hc
  | bare he =>
    obtain rfl := Option.some.inj hc
    rcases he with rfl | rfl <;> rfl
  | signed he =>
    obtain rfl := Option.some.inj hc
    rcases he with rfl | rfl <;> rfl

theorem IsFraction.not_digit {fraction rest : List Char} (h : IsFraction fraction)
    (hr : ∀ c ∈ rest.head?, c.isDigit = false) :
    ∀ c ∈ (fraction ++ rest).head?, c.isDigit = false := by
  intro c hc
  cases h with
  | none => exact hr c hc
  | point =>
    obtain rfl := Option.some.inj hc
    rfl

theorem fractionPart_append (atEnd : Fault) {fraction exponent rest : List Char}
    (hf : IsFraction fraction) (he : IsExponent exponent) (hr : NumberEnds rest) :
    ∃ ds, fractionPart atEnd (fraction ++ (exponent ++ rest)) = .ok (ds, exponent ++ rest) := by
  cases hf with
  | none =>
    refine ⟨[], ?_⟩
    rw [List.nil_append]
    unfold fractionPart
    split
    · rename_i heq
      cases he with
      | none => exact absurd (hr '.' (by rw [← List.nil_append rest, heq]; rfl)) (by decide)
      | bare he =>
        obtain ⟨rfl, -⟩ := List.cons.inj heq
        rcases he with he | he <;> exact absurd he (by decide)
      | signed he =>
        obtain ⟨rfl, -⟩ := List.cons.inj heq
        rcases he with he | he <;> exact absurd he (by decide)
    · rfl
  | point hds => exact ⟨_, digits_append hds (he.not_digit hr)⟩

theorem exponentPart_append (atEnd : Fault) {exponent rest : List Char}
    (he : IsExponent exponent) (hr : NumberEnds rest) :
    ∃ e, exponentPart atEnd (exponent ++ rest) = .ok (e, rest) := by
  cases he with
  | none => exact ⟨none, exponentPart_of_numberEnds hr⟩
  | @bare e ds hc hds =>
    have hsign : exponentSign (ds ++ rest) = (false, ds ++ rest) := by
      unfold exponentSign
      split
      · rename_i heq
        obtain ⟨d, ds, rfl⟩ := List.exists_cons_of_ne_nil hds.1
        obtain ⟨rfl, -⟩ := List.cons.inj heq
        exact absurd (hds.2 _ List.mem_cons_self) (by decide)
      · rename_i heq
        obtain ⟨d, ds, rfl⟩ := List.exists_cons_of_ne_nil hds.1
        obtain ⟨rfl, -⟩ := List.cons.inj heq
        exact absurd (hds.2 _ List.mem_cons_self) (by decide)
      · rfl
    rw [List.cons_append, exponentPart]
    simp only [hc, ↓reduceIte, hsign, digits_append hds hr.isDigit]
    exact ⟨_, rfl⟩
  | @signed e sign ds hc hs hds =>
    have hsign : (exponentSign (sign :: ds ++ rest)).2 = ds ++ rest := by
      rcases hs with rfl | rfl <;> rfl
    rw [List.cons_append, exponentPart]
    simp only [hc, ↓reduceIte, hsign, digits_append hds hr.isDigit]
    exact ⟨_, rfl⟩

/-- A number of any size is read to its end. -/
theorem readNumeral_append (atEnd : Fault) {token rest : List Char} (h : IsNumber token)
    (hr : NumberEnds rest) : ∃ n, readNumeral atEnd (token ++ rest) = .ok (n, rest) := by
  have parts : ∀ {whole fraction exponent : List Char}, IsWhole whole → IsFraction fraction →
      IsExponent exponent → ∀ (negative : Bool) (cs : List Char),
      signPart cs = (negative, whole ++ (fraction ++ (exponent ++ rest))) →
      ∃ n, readNumeral atEnd cs = .ok (n, rest) := by
    intro whole fraction exponent hw hf he negative cs hsign
    obtain ⟨ds, hfraction⟩ := fractionPart_append atEnd hf he hr
    obtain ⟨e, hexponent⟩ := exponentPart_append atEnd he hr
    have hwhole : wholePart atEnd _ = _ := wholePart_append hw (hf.not_digit (he.not_digit hr))
    unfold readNumeral
    simp only [hsign, hwhole, hfraction, hexponent]
    exact ⟨_, rfl⟩
  cases h with
  | plain hw hf he =>
    rw [List.append_assoc, List.append_assoc]
    exact parts hw hf he false _ (signPart_of_isWhole hw)
  | minus hw hf he =>
    refine parts hw hf he true _ ?_
    simp [signPart]

theorem skipNumber_append {token rest : List Char} (h : IsNumber token) (hr : NumberEnds rest) :
    skipNumber (token ++ rest) = .ok rest := by
  obtain ⟨n, hn⟩ := readNumeral_append .malformed h hr
  unfold skipNumber
  rw [hn]

end PrimitiveAbi.Json
