import PrimitiveAbi.Proofs.Json.Front

/-!
# Numbers and skipped values in a front

Where a front ends inside of a number, its whole number may be another one, or none. For the parts of
numbers there is a relation of its own (`ForetellsNumber`): the number stops at the cut, or it goes on
into the back. Values that are used are foretold where the back does not begin like the rest of a
number, and values that are skipped where no number is cut.
-/

namespace PrimitiveAbi.Json

open Leaves

attribute [grind →] length_literal_le length_digits length_wholePart length_fractionPart
  length_exponentPart length_readNumeral length_readNumber length_skipNumber length_colon
  length_skipKey length_skipScalar length_skipValue length_skipRest_le

/-! ### Numbers -/

variable {ρ σ : Type} [Leaves ρ] [Leaves σ]

/-- What reading a front of a number gives, and what reading it with a back behind it gives; `atEnd`
is the fault where the front ends. -/
inductive ForetellsNumber (atEnd : Fault) (back : List Char) :
    Except Fault ρ → Except Fault ρ → Prop
  | read (r : ρ) : ForetellsNumber atEnd back (.ok r) (.ok (extend r back))
  | fault (e : Fault) : ForetellsNumber atEnd back (.error e) (.error e)
  /-- The back is no part of the number that the front leaves unfinished. -/
  | ended : ForetellsNumber atEnd back (.error atEnd) (.error .malformed)
  /-- The number goes on into the back. -/
  | into {x y : Except Fault ρ} : ¬ NumberEnds back →
      (∀ r, y = .ok r → (left r).length < back.length) → ForetellsNumber atEnd back x y

theorem ForetellsNumber.bind {atEnd : Fault} {back : List Char} {x y : Except Fault ρ}
    {f g : Except Fault ρ → Except Fault σ} (h : ForetellsNumber atEnd back x y)
    (herror : ∀ e, f (.error e) = .error e ∧ g (.error e) = .error e)
    (hok : ∀ r, ForetellsNumber atEnd back (f (.ok r)) (g (.ok (extend r back))))
    (hleft : ∀ r r', y = .ok r → g (.ok r) = .ok r' → (left r').length ≤ (left r).length) :
    ForetellsNumber atEnd back (f x) (g y) := by
  have hf := fun e => (herror e).1
  have hg := fun e => (herror e).2
  cases h with
  | read r => exact hok r
  | fault e =>
    rw [hf, hg]
    exact .fault e
  | ended =>
    rw [hf, hg]
    exact .ended
  | into hends h =>
    refine .into hends fun r' hr' => ?_
    cases y with
    | error e => simp [hg] at hr'
    | ok r => exact Nat.lt_of_le_of_lt (hleft r r' rfl hr') (h r rfl)

/-- Where nothing of a part of a number stands in the front, the back has it or not. -/
theorem ForetellsNumber.of_starved {atEnd : Fault} {back : List Char} {y : Except Fault ρ}
    (herror : ∀ e, y = .error e → e = atEnd ∨ e = .malformed)
    (hok : ∀ r, y = .ok r → ¬ NumberEnds back ∧ (left r).length < back.length) :
    ForetellsNumber atEnd back (.error atEnd) y := by
  cases y with
  | error e =>
    rcases herror e rfl with rfl | rfl
    · exact .fault _
    · exact .ended
  | ok r =>
    refine .into (hok r rfl).1 fun r' hr' => ?_
    exact (hok r' hr').2

theorem not_numberEnds_cons {c : Char} {rest : List Char} (h : inNumber c = true) :
    ¬ NumberEnds (c :: rest) := by
  intro hends
  exact absurd (h.symm.trans (hends c rfl)) (by decide)

theorem IsDigits.not_numberEnds {ds rest : List Char} (h : IsDigits ds) :
    ¬ NumberEnds (ds ++ rest) := by
  obtain ⟨d, ds, rfl⟩ := List.exists_cons_of_ne_nil h.1
  exact not_numberEnds_cons (inNumber_of_isDigit (h.2 d List.mem_cons_self))

theorem error_of_digits {atEnd e : Fault} {cs : List Char} (h : digits atEnd cs = .error e) :
    e = atEnd ∨ e = .malformed := by
  unfold digits at h
  grind

theorem error_of_wholePart {atEnd e : Fault} {cs : List Char} (h : wholePart atEnd cs = .error e) :
    e = atEnd ∨ e = .malformed := by
  unfold wholePart at h
  grind [error_of_digits]

/-- Digits are read up to a character that is none. -/
theorem not_digit_of_digits {atEnd : Fault} {cs ds rest : List Char}
    (h : digits atEnd cs = .ok (ds, rest)) : ∀ c ∈ rest.head?, c.isDigit = false := by
  unfold digits at h
  split at h
  · simp at h
  rename_i d tail
  split at h
  · simp only [Except.ok.injEq, Prod.mk.injEq] at h
    intro c hc
    have hstop := List.head?_dropWhile_not Char.isDigit (d :: tail)
    rw [h.2, hc] at hstop
    simpa using hstop
  · simp at h

/-- Digits that go on into the back leave a part of it. -/
theorem length_digits_append {atEnd : Fault} {ds ds' back rest : List Char} {c : Char}
    (hds : IsDigits ds) (hc : c ∈ back.head?) (hdigit : c.isDigit = true)
    (h : digits atEnd (ds ++ back) = .ok (ds', rest)) : rest.length < back.length := by
  obtain ⟨d, ds, rfl⟩ := List.exists_cons_of_ne_nil hds.1
  obtain ⟨tail, rfl⟩ := List.head?_eq_some_iff.1 hc
  rw [List.cons_append, digits, if_pos (hds.2 d List.mem_cons_self), ← List.cons_append,
    List.dropWhile_append_of_pos hds.2, List.dropWhile_cons_of_pos hdigit] at h
  simp only [Except.ok.injEq, Prod.mk.injEq] at h
  rw [← h.2, List.length_cons]
  exact Nat.lt_succ_of_le (List.dropWhile_sublist Char.isDigit).length_le

theorem foretellsNumber_digits (atEnd : Fault) (front back : List Char) :
    ForetellsNumber atEnd back (digits atEnd front) (digits atEnd (front ++ back)) := by
  cases h : digits atEnd front with
  | error e =>
    cases front with
    | nil =>
      obtain rfl : atEnd = e := by simpa [digits] using h
      refine .of_starved (fun e he => error_of_digits he) fun r hr => ?_
      rw [List.nil_append] at hr
      have hds := isDigits_of_digits hr
      exact ⟨hds.2.symm ▸ hds.1.not_numberEnds, length_digits hr⟩
    | cons c front =>
      rw [digits] at h
      split at h
      · simp at h
      · rename_i hc
        rw [List.cons_append, digits, if_neg hc, ← h]
        exact .fault _
  | ok r =>
    obtain ⟨ds, rest⟩ := r
    obtain ⟨hds, rfl⟩ := isDigits_of_digits h
    have hstop := not_digit_of_digits h
    rw [List.append_assoc]
    by_cases hback : ∀ c ∈ (rest ++ back).head?, c.isDigit = false
    · rw [digits_append hds hback]
      exact .read (ds, rest)
    · -- only where the front ends with its digits can a digit stand behind them
      simp only [Classical.not_forall, Bool.not_eq_false] at hback
      obtain ⟨c, hc, hdigit⟩ := hback
      cases rest with
      | nil =>
        rw [List.nil_append] at hc ⊢
        obtain ⟨tail, rfl⟩ := List.head?_eq_some_iff.1 hc
        refine .into (not_numberEnds_cons (inNumber_of_isDigit hdigit)) fun r hr => ?_
        exact length_digits_append hds hc hdigit hr
      | cons d rest =>
        rw [List.cons_append, List.head?_cons, Option.mem_some_iff] at hc
        exact absurd (hstop d rfl) (by simp [hc, hdigit])

theorem wholePart_of_ne {c : Char} (h : c ≠ '0') (atEnd : Fault) (cs : List Char) :
    wholePart atEnd (c :: cs) = digits atEnd (c :: cs) := by
  simp [wholePart, h]

theorem foretellsNumber_wholePart (atEnd : Fault) (front back : List Char) :
    ForetellsNumber atEnd back (wholePart atEnd front) (wholePart atEnd (front ++ back)) := by
  cases front with
  | nil =>
    refine .of_starved (fun e he => error_of_wholePart he) fun r hr => ?_
    rw [List.nil_append] at hr
    have hw := isWhole_of_wholePart hr
    exact ⟨hw.2.symm ▸ hw.1.1.not_numberEnds, length_wholePart hr⟩
  | cons c rest =>
    rw [List.cons_append]
    by_cases hc : c = '0'
    · subst hc
      cases rest with
      | cons d rest =>
        rw [List.cons_append, wholePart, wholePart]
        split
        · exact .fault _
        · exact .read (['0'], d :: rest)
      | nil =>
        have hzero : wholePart atEnd ['0'] = .ok (['0'], []) := rfl
        rw [hzero, List.nil_append]
        cases back with
        | nil => exact .read (['0'], [])
        | cons d back =>
          rw [wholePart]
          split
          · exact .into (not_numberEnds_cons (inNumber_of_isDigit ‹_›)) (by simp)
          · exact .read (['0'], [])
    · rw [wholePart_of_ne hc, wholePart_of_ne hc]
      exact foretellsNumber_digits atEnd (c :: rest) back

theorem foretellsNumber_fractionPart (atEnd : Fault) (front back : List Char) :
    ForetellsNumber atEnd back (fractionPart atEnd front) (fractionPart atEnd (front ++ back)) := by
  have hother : ∀ {c : Char}, c ≠ '.' → ∀ cs, fractionPart atEnd (c :: cs) = .ok ([], c :: cs) := by
    intro c hc cs
    simp [fractionPart, hc]
  cases front with
  | nil =>
    rw [List.nil_append]
    cases back with
    | nil => exact .read ([], [])
    | cons c back =>
      by_cases hc : c = '.'
      · subst hc
        refine .into (not_numberEnds_cons rfl) fun r hr => ?_
        exact Nat.lt_succ_of_lt (length_digits hr)
      · rw [hother hc]
        exact .read ([], [])
  | cons c rest =>
    rw [List.cons_append]
    by_cases hc : c = '.'
    · subst hc
      exact foretellsNumber_digits atEnd rest back
    · rw [hother hc, hother hc]
      exact .read ([], c :: rest)

theorem exponentSign_append (c : Char) (rest back : List Char) :
    exponentSign (c :: rest ++ back) =
      ((exponentSign (c :: rest)).1, (exponentSign (c :: rest)).2 ++ back) := by
  by_cases hminus : c = '-'
  · subst hminus
    rfl
  by_cases hplus : c = '+'
  · subst hplus
    rfl
  · simp [exponentSign, hminus, hplus]

theorem not_numberEnds_of_exponentSign {cs ds rest : List Char} (hds : IsDigits ds)
    (h : (exponentSign cs).2 = ds ++ rest) : ¬ NumberEnds cs := by
  unfold exponentSign at h
  split at h
  · exact not_numberEnds_cons rfl
  · exact not_numberEnds_cons rfl
  · dsimp only at h
    exact h ▸ hds.not_numberEnds

/-- Digits behind a sign, if there is one, are part of a number, and they take something. -/
theorem of_digits_exponentSign {atEnd : Fault} {cs ds rest : List Char}
    (h : digits atEnd (exponentSign cs).2 = .ok (ds, rest)) :
    ¬ NumberEnds cs ∧ rest.length < cs.length := by
  obtain ⟨hds, heq⟩ := isDigits_of_digits h
  exact ⟨not_numberEnds_of_exponentSign hds heq,
    Nat.lt_of_lt_of_le (length_digits h) (length_exponentSign_le cs)⟩

theorem foretellsNumber_exponentPart (atEnd : Fault) (front back : List Char) :
    ForetellsNumber atEnd back (exponentPart atEnd front) (exponentPart atEnd (front ++ back)) := by
  cases front with
  | nil =>
    rw [List.nil_append]
    cases back with
    | nil => exact .read (none, [])
    | cons c back =>
      by_cases hc : c = 'e' ∨ c = 'E'
      · refine .into (not_numberEnds_cons (by rcases hc with rfl | rfl <;> rfl)) fun r hr => ?_
        rw [exponentPart, if_pos hc] at hr
        split at hr
        · simp at hr
        rename_i hd
        obtain rfl := Except.ok.inj hr
        exact Nat.lt_succ_of_lt (of_digits_exponentSign hd).2
      · rw [exponentPart, exponentPart, if_neg hc]
        exact .read (none, [])
  | cons c rest =>
    rw [List.cons_append, exponentPart, exponentPart]
    split
    · cases rest with
      | nil =>
        rw [List.nil_append]
        cases hd : digits atEnd (exponentSign back).2 with
        | error e =>
          refine .of_starved (fun e he => ?_) (fun r hr => by simp at hr)
          exact Except.error.inj he ▸ error_of_digits hd
        | ok r =>
          refine .of_starved (fun e he => by simp at he) (fun r hr => ?_)
          obtain rfl := Except.ok.inj hr
          exact of_digits_exponentSign hd
      | cons d rest =>
        have h := foretellsNumber_digits atEnd (exponentSign (d :: rest)).2 back
        rw [exponentSign_append]
        generalize digits atEnd (exponentSign (d :: rest)).2 = x,
          digits atEnd ((exponentSign (d :: rest)).2 ++ back) = y at h ⊢
        apply h.bind (by intro e; exact ⟨rfl, rfl⟩)
        · rintro ⟨ds, after⟩
          exact .read (_, after)
        · grind
    · exact .read (none, c :: rest)

theorem signPart_append (c : Char) (rest back : List Char) : signPart (c :: rest ++ back) =
    ((signPart (c :: rest)).1, (signPart (c :: rest)).2 ++ back) := by
  by_cases hminus : c = '-'
  · subst hminus
    rfl
  · simp [signPart, hminus]

/-- A numeral that has begun in the front is foretold. -/
theorem foretellsNumber_readNumeral (atEnd : Fault) (c : Char) (rest back : List Char) :
    ForetellsNumber atEnd back (readNumeral atEnd (c :: rest))
      (readNumeral atEnd (c :: rest ++ back)) := by
  unfold readNumeral
  rw [signPart_append]
  generalize signPart (c :: rest) = sign
  have h := foretellsNumber_wholePart atEnd sign.2 back
  generalize wholePart atEnd sign.2 = x, wholePart atEnd (sign.2 ++ back) = y at h ⊢
  apply h.bind (by intro e; exact ⟨rfl, rfl⟩)
  · rintro ⟨whole, rest⟩
    dsimp only [extend_pair]
    have h := foretellsNumber_fractionPart atEnd rest back
    generalize fractionPart atEnd rest = x, fractionPart atEnd (rest ++ back) = y at h ⊢
    apply h.bind (by intro e; exact ⟨rfl, rfl⟩)
    · rintro ⟨fraction, rest⟩
      dsimp only [extend_pair]
      have h := foretellsNumber_exponentPart atEnd rest back
      generalize exponentPart atEnd rest = x, exponentPart atEnd (rest ++ back) = y at h ⊢
      apply h.bind (by intro e; exact ⟨rfl, rfl⟩)
      · rintro ⟨exponent, rest⟩
        exact .read (_, rest)
      · grind
    · grind
  · grind

/-- A number that is used is foretold, or goes on into the back. -/
theorem foretells_or_into_readNumber (c : Char) (rest back : List Char) :
    Foretells back (readNumber (c :: rest)) (readNumber (c :: rest ++ back)) ∨
      ¬ NumberEnds back ∧ ∀ n after, readNumber (c :: rest ++ back) = .ok (n, after) →
        after.length < back.length := by
  unfold readNumber
  have h := foretellsNumber_readNumeral .truncated c rest back
  generalize readNumeral .truncated (c :: rest) = x,
    readNumeral .truncated (c :: rest ++ back) = y at h ⊢
  cases h with
  | read r =>
    obtain ⟨n, rest⟩ := r
    dsimp only [extend_pair]
    left
    split
    · exact .read (_, rest)
    · exact .fault _
  | fault e => exact .inl (.fault e)
  | ended => exact .inl (.early (by simp))
  | into hends hlen =>
    refine .inr ⟨hends, fun n after h => ?_⟩
    split at h
    · simp at h
    split at h
    · simp only [Except.ok.injEq, Prod.mk.injEq] at h
      exact h.2 ▸ hlen _ rfl
    · simp at h

/-- A number that is used is foretold where the back does not go on with it. -/
theorem foretells_readNumber {back : List Char} (hends : NumberEnds back) (c : Char)
    (rest : List Char) : Foretells back (readNumber (c :: rest)) (readNumber (c :: rest ++ back)) :=
  (foretells_or_into_readNumber c rest back).resolve_right fun h => h.1 hends

theorem exists_append_of_length_lt {front back token rest : List Char}
    (heq : front ++ back = token ++ rest) (hlen : rest.length < back.length) :
    ∃ y, front ++ y = token := by
  refine List.prefix_of_prefix_length_le ⟨back, heq⟩ ⟨rest, rfl⟩ ?_
  have := congrArg List.length heq
  simp only [List.length_append] at this
  omega

/-- A number that goes on into the back is cut. -/
theorem insideNumber_of_append {c : Char} {front back token rest : List Char} (h : IsNumber token)
    (heq : c :: front ++ back = token ++ rest) (hlen : rest.length < back.length) :
    InsideNumber (c :: front) back := by
  obtain ⟨y, rfl⟩ := exists_append_of_length_lt heq hlen
  rw [List.append_assoc] at heq
  have hback := List.append_cancel_left heq
  refine ⟨[], c :: front, y, rest, rfl, hback, by simp, ?_, h, rfl⟩
  rintro rfl
  rw [hback, List.nil_append] at hlen
  exact Nat.lt_irrefl _ hlen

theorem foretells_skipNumber {c : Char} {rest back : List Char}
    (hcut : ¬ InsideNumber (c :: rest) back) :
    Foretells back (skipNumber (c :: rest)) (skipNumber (c :: rest ++ back)) := by
  unfold skipNumber
  have h := foretellsNumber_readNumeral .malformed c rest back
  generalize readNumeral .malformed (c :: rest) = x,
    hy : readNumeral .malformed (c :: rest ++ back) = y at h ⊢
  cases h with
  | read r => exact .read r.2
  | fault e => exact .fault e
  | ended => exact .fault _
  | into hends hlen =>
    cases y with
    | error e => exact .cut hends
    | ok r =>
      obtain ⟨token, hn, heq⟩ := isNumber_of_readNumeral hy
      exact absurd (insideNumber_of_append hn heq (hlen r rfl)) hcut

theorem le_ofDigitChars (n : Nat) (ds : List Char) : n ≤ Nat.ofDigitChars 10 ds n := by
  induction ds generalizing n with
  | nil => exact Nat.le_refl n
  | cons d ds ih =>
    rw [Nat.ofDigitChars_cons]
    refine Nat.le_trans ?_ (ih _)
    omega

theorem decimal_le_append (ds ds' : List Char) : decimal ds ≤ decimal (ds ++ ds') := by
  rw [decimal, decimal, Nat.ofDigitChars_append]
  exact le_ofDigitChars _ _

/-- The beginning of an integer is one. -/
theorem IsWhole.of_append {ds ds' : List Char} (h : IsWhole (ds ++ ds')) (hne : ds ≠ []) :
    IsWhole ds := by
  obtain ⟨⟨-, hd⟩, hzero⟩ := h
  refine ⟨⟨hne, fun d hmem => hd d (List.mem_append_left _ hmem)⟩, fun hhead => ?_⟩
  obtain ⟨tail, rfl⟩ := List.head?_eq_some_iff.1 hhead
  have hall := List.cons.inj (hzero rfl)
  rw [(List.append_eq_nil_iff.1 hall.2).1]

/-- An integer that goes on into the back is one in the front, with the digits that it has. -/
theorem readNumber_of_into {c : Char} {front back rest : List Char} {n : Nat}
    (h : readNumber (c :: front ++ back) = .ok (.natural n, rest)) (hlen : rest.length < back.length)
    (hn : n < UInt32.size) :
    ∃ m < UInt32.size, readNumber (c :: front) = .ok (.natural m, []) := by
  obtain ⟨ds, hw, rfl, heq⟩ := isWhole_of_readNumber h
  obtain ⟨y, rfl⟩ := exists_append_of_length_lt heq hlen
  have hm := Nat.lt_of_le_of_lt (decimal_le_append (c :: front) y) hn
  have hread := readNumber_of_isWhole (hw.of_append (by simp)) numberEnds_nil
    (Nat.lt_trans hm (by decide))
  rw [List.append_nil] at hread
  exact ⟨_, hm, hread⟩

/-! ### Skipped values -/

theorem foretells_colon (front back : List Char) :
    Foretells back (colon front) (colon (front ++ back)) := by
  unfold colon
  have h := foretells_next front back
  generalize next front = x, next (front ++ back) = y at h ⊢
  apply h.bind (by intro e; exact ⟨rfl, rfl⟩)
  · rintro ⟨c, rest⟩ -
    dsimp only [extend_pair]
    split
    · exact .read rest
    · exact .fault _
  · grind

theorem foretells_skipKey (front back : List Char) :
    Foretells back (skipKey front) (skipKey (front ++ back)) := by
  unfold skipKey
  have h := foretells_next front back
  generalize next front = x, next (front ++ back) = y at h ⊢
  apply h.bind (by intro e; exact ⟨rfl, rfl⟩)
  · rintro ⟨c, rest⟩ -
    dsimp only [extend_pair]
    split
    · have h := foretells_skipString rest back
      generalize skipString rest = x, skipString (rest ++ back) = y at h ⊢
      apply h.bind (by intro e; exact ⟨rfl, rfl⟩)
      · intro rest _
        exact foretells_colon rest back
      · grind
    · exact .fault _
  · grind

theorem foretells_skipScalar {c : Char} {rest back : List Char}
    (hcut : ¬ InsideNumber (c :: rest) back) :
    Foretells back (skipScalar c rest) (skipScalar c (rest ++ back)) := by
  unfold skipScalar
  split
  · exact foretells_skipString rest back
  split
  · exact foretells_literal _ rest back
  split
  · exact foretells_literal _ rest back
  split
  · exact foretells_literal _ rest back
  split
  · exact foretells_skipNumber hcut
  · exact .fault _

theorem leads_of_next {cs rest : List Char} {c : Char} (h : next cs = .ok (c, rest))
    (hc : c ≠ '"') : Leads .outside .outside cs rest :=
  (gap_of_next h).leads_cons hc

theorem not_insideNumber_of_next {cs rest back : List Char} {c : Char}
    (hcut : ¬ InsideNumber cs back) (h : next cs = .ok (c, rest)) (hc : c ≠ '"') :
    ¬ InsideNumber rest back :=
  mt (.of_leads (leads_of_next h hc)) hcut

theorem leads_of_skipKey {cs rest : List Char} (h : skipKey cs = .ok rest) :
    Leads .outside .outside cs rest := by
  obtain ⟨_, _, hq, hb, hcolon⟩ := skipKey_eq_ok_iff.1 h
  exact (hq.leads_quote.trans hb.leads).trans (hcolon.leads_cons (by decide))

theorem length_skipKey_next {cs after rest : List Char} {d : Char} (hn : next cs = .ok (d, after))
    (h : skipKey cs = .ok rest) : rest.length ≤ after.length := by
  rw [skipKey, hn] at h
  grind

theorem length_skipValue_next {around : List Bracket} {cs after rest : List Char} {d : Char}
    (hn : next cs = .ok (d, after)) (h : skipValue around cs = .ok rest) :
    rest.length ≤ after.length := by
  rw [skipValue_eq, hn] at h
  grind

mutual

/-- Where no number is cut, the loop that skips a value says of the front what it says of the
whole. -/
theorem foretells_skipValue (around : List Bracket) {front back : List Char}
    (hcut : ¬ InsideNumber front back) :
    Foretells back (skipValue around front) (skipValue around (front ++ back)) := by
  rw [skipValue_eq, skipValue_eq]
  have h := foretells_next front back
  generalize hx : next front = x, next (front ++ back) = y at h ⊢
  apply h.bind (by intro e; exact ⟨rfl, rfl⟩)
  · rintro ⟨c, rest⟩ rfl
    have := length_next hx
    dsimp only [extend_pair]
    split
    · have hcut := not_insideNumber_of_next hcut hx (by simp [*])
      have h := foretells_next rest back
      generalize hx' : next rest = x, hy : next (rest ++ back) = y at h ⊢
      apply h.bind (by intro e; exact ⟨rfl, rfl⟩)
      · rintro ⟨d, after⟩ rfl
        have := length_next hx'
        dsimp only [extend_pair]
        split
        · have hcut := not_insideNumber_of_next hcut hx' (by simp [*])
          exact foretells_skipRest around hcut
        · exact foretells_skipValue (.array :: around) hcut
      · grind [→ length_skipValue_next]
    split
    · have hcut := not_insideNumber_of_next hcut hx (by simp [*])
      have h := foretells_next rest back
      generalize hx' : next rest = x, hy : next (rest ++ back) = y at h ⊢
      apply h.bind (by intro e; exact ⟨rfl, rfl⟩)
      · rintro ⟨d, after⟩ rfl
        have := length_next hx'
        dsimp only [extend_pair]
        split
        · have hcut := not_insideNumber_of_next hcut hx' (by simp [*])
          exact foretells_skipRest around hcut
        · have h := foretells_skipKey rest back
          generalize hk : skipKey rest = x, skipKey (rest ++ back) = y at h ⊢
          apply h.bind (by intro e; exact ⟨rfl, rfl⟩)
          · rintro after' rfl
            have := length_skipKey hk
            exact foretells_skipValue (.object :: around)
              (mt (InsideNumber.of_leads (leads_of_skipKey hk)) hcut)
          · grind
      · grind [→ length_skipKey_next]
    · have hscalar : ¬ InsideNumber (c :: rest) back :=
        mt (InsideNumber.of_leads (gap_of_next hx).leads) hcut
      have h := foretells_skipScalar hscalar
      generalize hs : skipScalar c rest = x, skipScalar c (rest ++ back) = y at h ⊢
      apply h.bind (by intro e; exact ⟨rfl, rfl⟩)
      · rintro after rfl
        have := length_skipScalar hs
        have hraw := raw_of_skipScalar (gap_of_next hx) hs
        exact foretells_skipRest around (mt (InsideNumber.of_leads hraw.leads) hcut)
      · grind
  · grind
termination_by front.length

theorem foretells_skipRest (around : List Bracket) {front back : List Char}
    (hcut : ¬ InsideNumber front back) :
    Foretells back (skipRest around front) (skipRest around (front ++ back)) := by
  match around with
  | [] =>
    rw [skipRest, skipRest]
    exact .read front
  | .array :: around =>
    rw [skipRest_array, skipRest_array]
    have h := foretells_next front back
    generalize hx : next front = x, next (front ++ back) = y at h ⊢
    apply h.bind (by intro e; exact ⟨rfl, rfl⟩)
    · rintro ⟨c, rest⟩ rfl
      have := length_next hx
      dsimp only [extend_pair]
      split
      · have hcut := not_insideNumber_of_next hcut hx (by simp [*])
        exact foretells_skipValue (.array :: around) hcut
      split
      · have hcut := not_insideNumber_of_next hcut hx (by simp [*])
        exact foretells_skipRest around hcut
      · exact .fault _
    · grind
  | .object :: around =>
    rw [skipRest_object, skipRest_object]
    have h := foretells_next front back
    generalize hx : next front = x, next (front ++ back) = y at h ⊢
    apply h.bind (by intro e; exact ⟨rfl, rfl⟩)
    · rintro ⟨c, rest⟩ rfl
      have := length_next hx
      dsimp only [extend_pair]
      split
      · have hcut := not_insideNumber_of_next hcut hx (by simp [*])
        have h := foretells_skipKey rest back
        generalize hk : skipKey rest = x, skipKey (rest ++ back) = y at h ⊢
        apply h.bind (by intro e; exact ⟨rfl, rfl⟩)
        · rintro after rfl
          have := length_skipKey hk
          exact foretells_skipValue (.object :: around)
            (mt (InsideNumber.of_leads (leads_of_skipKey hk)) hcut)
        · grind
      split
      · have hcut := not_insideNumber_of_next hcut hx (by simp [*])
        exact foretells_skipRest around hcut
      · exact .fault _
    · grind
termination_by front.length

end

end PrimitiveAbi.Json
