import PrimitiveAbi.Proofs.Json.Raw

/-!
# Values are skipped exactly

The loop that reads past a value goes past exactly what the grammar says (`skip_eq_ok_iff`). It keeps
the brackets that are open, so where it stands behind a value, what is left to go past is `RawRest`
of those brackets.
-/

namespace PrimitiveAbi.Json

/-- The brackets that are open around a value are closed, with what else stands in them. -/
inductive RawRest : List Bracket → List Char → List Char → Prop
  | done {cs : List Char} : RawRest [] cs cs
  | array {around : List Bracket} {cs cs₁ rest : List Char} : RawItems false cs cs₁ →
      RawRest around cs₁ rest → RawRest (.array :: around) cs rest
  | object {around : List Bracket} {cs cs₁ rest : List Char} : RawMembers false cs cs₁ →
      RawRest around cs₁ rest → RawRest (.object :: around) cs rest

theorem skipKey_eq_ok_iff {cs rest : List Char} : skipKey cs = .ok rest ↔
    ∃ cs₁ cs₂, Gap cs ('"' :: cs₁) ∧ RawBody cs₁ cs₂ ∧ Gap cs₂ (':' :: rest) := by
  unfold skipKey
  constructor
  · intro h
    split at h
    · simp at h
    rename_i hn
    split at h
    · subst_vars
      split at h
      · simp at h
      rename_i hs
      exact ⟨_, _, gap_of_next hn, skipString_eq_ok_iff.1 hs, colon_eq_ok_iff.1 h⟩
    · simp at h
  · rintro ⟨cs₁, cs₂, hq, hb, hcolon⟩
    rw [next_eq_ok_iff.2 ⟨hq, rfl⟩]
    simp only [↓reduceIte, skipString_eq_ok_iff.2 hb, colon_eq_ok_iff.2 hcolon]

theorem raw_of_skipScalar {c : Char} {cs after rest : List Char} (hg : Gap cs (c :: after))
    (h : skipScalar c after = .ok rest) : Raw cs rest := by
  unfold skipScalar at h
  split at h
  · subst_vars
    exact .text hg (skipString_eq_ok_iff.1 h)
  split at h
  · subst_vars
    rw [literal_eq_ok_iff.1 h] at hg
    exact .word (w := ['n', 'u', 'l', 'l']) (by decide) hg
  split at h
  · subst_vars
    rw [literal_eq_ok_iff.1 h] at hg
    exact .word (w := ['t', 'r', 'u', 'e']) (by decide) hg
  split at h
  · subst_vars
    rw [literal_eq_ok_iff.1 h] at hg
    exact .word (w := ['f', 'a', 'l', 's', 'e']) (by decide) hg
  split at h
  · obtain ⟨token, hn, heq⟩ := isNumber_of_skipNumber h
    exact .number hn (heq ▸ hg)
  · simp at h

/-! ### The steps of the loop -/

theorem skipValue_eq (around : List Bracket) (cs : List Char) : skipValue around cs =
    match next cs with
    | .error e => .error e
    | .ok (c, rest) =>
        if c = '[' then
          match next rest with
          | .error e => .error e
          | .ok (d, after) =>
              if d = ']' then skipRest around after else skipValue (.array :: around) rest
        else if c = '\x7b' then
          match next rest with
          | .error e => .error e
          | .ok (d, after) =>
              if d = '\x7d' then skipRest around after
              else
                match skipKey rest with
                | .error e => .error e
                | .ok rest => skipValue (.object :: around) rest
        else
          match skipScalar c rest with
          | .error e => .error e
          | .ok rest => skipRest around rest := by
  rw [skipValue]
  split
  · simp only [*]
  simp only [*]
  split
  · split <;> simp only [*]
  split
  · split
    · simp only [*]
    simp only [*]
    split
    · rfl
    · split <;> simp only [*]
  · split <;> simp only [*]

theorem skipRest_array (around : List Bracket) (cs : List Char) :
    skipRest (.array :: around) cs =
      match next cs with
      | .error e => .error e
      | .ok (c, rest) =>
          if c = ',' then skipValue (.array :: around) rest
          else if c = ']' then skipRest around rest
          else .error .malformed := by
  rw [skipRest.eq_def]
  dsimp only
  split <;> simp only [*]

theorem skipRest_object (around : List Bracket) (cs : List Char) :
    skipRest (.object :: around) cs =
      match next cs with
      | .error e => .error e
      | .ok (c, rest) =>
          if c = ',' then
            match skipKey rest with
            | .error e => .error e
            | .ok rest => skipValue (.object :: around) rest
          else if c = '\x7d' then skipRest around rest
          else .error .malformed := by
  rw [skipRest.eq_def]
  dsimp only
  split <;> simp only [*]
  split
  · split <;> simp only [*]
  · rfl

/-! ### What is skipped is a value -/

mutual

theorem raw_of_skipValue {around : List Bracket} {cs rest : List Char}
    (h : skipValue around cs = .ok rest) : ∃ cs₁, Raw cs cs₁ ∧ RawRest around cs₁ rest := by
  rw [skipValue_eq] at h
  split at h
  · simp at h
  rename_i hn
  have := length_next hn
  split at h
  · subst_vars
    split at h
    · simp at h
    rename_i hn'
    have := length_next hn'
    split at h
    · subst_vars
      exact ⟨_, .array (gap_of_next hn) (.close (gap_of_next hn')), rawRest_of_skipRest h⟩
    · obtain ⟨cs₁, hv, hrest⟩ := raw_of_skipValue h
      cases hrest with
      | array hts hrest => exact ⟨_, .array (gap_of_next hn) (.item .first hv hts), hrest⟩
  split at h
  · subst_vars
    split at h
    · simp at h
    rename_i hn'
    have := length_next hn'
    split at h
    · subst_vars
      exact ⟨_, .object (gap_of_next hn) (.close (gap_of_next hn')), rawRest_of_skipRest h⟩
    split at h
    · simp at h
    rename_i hk
    have := length_skipKey hk
    obtain ⟨_, _, hq, hb, hcolon⟩ := skipKey_eq_ok_iff.1 hk
    obtain ⟨cs₁, hv, hrest⟩ := raw_of_skipValue h
    cases hrest with
    | object hms hrest =>
      exact ⟨_, .object (gap_of_next hn) (.member .first hq hb hcolon hv hms), hrest⟩
  · split at h
    · simp at h
    rename_i hs
    have := length_skipScalar hs
    exact ⟨_, raw_of_skipScalar (gap_of_next hn) hs, rawRest_of_skipRest h⟩
termination_by cs.length

theorem rawRest_of_skipRest {around : List Bracket} {cs rest : List Char}
    (h : skipRest around cs = .ok rest) : RawRest around cs rest := by
  match around with
  | [] =>
    simp only [skipRest, Except.ok.injEq] at h
    subst h
    exact .done
  | .array :: around =>
    rw [skipRest_array] at h
    split at h
    · simp at h
    rename_i hn
    have := length_next hn
    split at h
    · subst_vars
      obtain ⟨cs₁, hv, hrest⟩ := raw_of_skipValue h
      cases hrest with
      | array hts hrest => exact .array (.item (.comma (gap_of_next hn)) hv hts) hrest
    split at h
    · subst_vars
      exact .array (.close (gap_of_next hn)) (rawRest_of_skipRest h)
    · simp at h
  | .object :: around =>
    rw [skipRest_object] at h
    split at h
    · simp at h
    rename_i hn
    have := length_next hn
    split at h
    · subst_vars
      split at h
      · simp at h
      rename_i hk
      have := length_skipKey hk
      obtain ⟨_, _, hq, hb, hcolon⟩ := skipKey_eq_ok_iff.1 hk
      obtain ⟨cs₁, hv, hrest⟩ := raw_of_skipValue h
      cases hrest with
      | object hms hrest =>
        exact .object (.member (.comma (gap_of_next hn)) hq hb hcolon hv hms) hrest
    split at h
    · subst_vars
      exact .object (.close (gap_of_next hn)) (rawRest_of_skipRest h)
    · simp at h
termination_by cs.length

end

/-! ### Every value is skipped -/

theorem skipScalar_of_isNumber {c : Char} {tail rest : List Char} (h : IsNumber (c :: tail))
    (hr : NumberEnds rest) : skipScalar c (tail ++ rest) = .ok rest := by
  obtain ⟨d, tail', heq, hd⟩ := h.exists_cons
  obtain ⟨rfl, rfl⟩ := List.cons.inj heq
  have hne : ∀ d : Char, opensNumber d = false → c ≠ d := by
    rintro d hd' rfl
    exact absurd (hd.symm.trans hd') (by decide)
  rw [skipScalar, if_neg (hne '"' rfl), if_neg (hne 'n' rfl), if_neg (hne 't' rfl),
    if_neg (hne 'f' rfl), if_pos hd]
  exact skipNumber_append h hr

theorem skipScalar_of_word {c : Char} {tail : List Char} (rest : List Char)
    (h : c :: tail ∈ words) : skipScalar c (tail ++ rest) = .ok rest := by
  simp only [words, List.mem_cons, List.cons.injEq, List.not_mem_nil, or_false] at h
  rcases h with ⟨rfl, rfl⟩ | ⟨rfl, rfl⟩ | ⟨rfl, rfl⟩ <;> simp [skipScalar, literal]

/-- Behind a value without parts the loop goes on with the brackets around it. -/
theorem skipValue_of_scalar {around : List Bracket} {c : Char} {cs tail rest : List Char}
    (hn : next cs = .ok (c, tail)) (hc : c ≠ '[') (hc' : c ≠ '\x7b')
    (hs : skipScalar c tail = .ok rest) : skipValue around cs = skipRest around rest := by
  rw [skipValue_eq, hn]
  simp only [hc, hc', ↓reduceIte, hs]

/-- What the loop does where an element of an array may come. -/
def skipItems : Bool → List Bracket → List Char → Except Fault (List Char)
  | false, around, cs => skipRest (.array :: around) cs
  | true, around, cs =>
      match next cs with
      | .error e => .error e
      | .ok (d, after) =>
          if d = ']' then skipRest around after else skipValue (.array :: around) cs

/-- What the loop does where a member of an object may come. -/
def skipMembers : Bool → List Bracket → List Char → Except Fault (List Char)
  | false, around, cs => skipRest (.object :: around) cs
  | true, around, cs =>
      match next cs with
      | .error e => .error e
      | .ok (d, after) =>
          if d = '\x7d' then skipRest around after
          else
            match skipKey cs with
            | .error e => .error e
            | .ok rest => skipValue (.object :: around) rest

mutual

theorem Raw.skipValue_eq {cs rest : List Char} (h : Raw cs rest) (hr : NumberEnds rest)
    (around : List Bracket) : skipValue around cs = skipRest around rest := by
  match h with
  | .word hw hg =>
    obtain ⟨c, tail, rfl, hblank, -⟩ := word_eq_cons hw
    refine skipValue_of_scalar (next_eq_ok_iff.2 ⟨hg, hblank⟩) ?_ ?_ (skipScalar_of_word _ hw)
    · rintro rfl; revert hw; simp [words]
    · rintro rfl; revert hw; simp [words]
  | .number hn hg =>
    obtain ⟨c, tail, rfl, hc⟩ := hn.exists_cons
    refine skipValue_of_scalar (next_eq_ok_iff.2 ⟨hg, isBlank_of_opensNumber hc⟩) ?_ ?_
      (skipScalar_of_isNumber hn hr)
    · rintro rfl; exact absurd hc (by decide)
    · rintro rfl; exact absurd hc (by decide)
  | .text hg hb =>
    exact skipValue_of_scalar (next_eq_ok_iff.2 ⟨hg, rfl⟩) (by decide) (by decide)
      (skipString_eq_ok_iff.2 hb)
  | .array hg hts =>
    rw [Json.skipValue_eq, next_eq_ok_iff.2 ⟨hg, rfl⟩]
    exact hts.skipItems_eq around
  | .object hg hms =>
    rw [Json.skipValue_eq, next_eq_ok_iff.2 ⟨hg, rfl⟩]
    exact hms.skipMembers_eq around

theorem RawItems.skipItems_eq {first : Bool} {cs rest : List Char} (h : RawItems first cs rest)
    (around : List Bracket) : skipItems first around cs = skipRest around rest := by
  match h with
  | .close hg =>
    cases first
    · rw [skipItems, skipRest_array, next_eq_ok_iff.2 ⟨hg, rfl⟩]
      rfl
    · rw [skipItems, next_eq_ok_iff.2 ⟨hg, rfl⟩]
      rfl
  | .item hs hv hts =>
    rw [← hts.skipItems_eq around, skipItems, ← hv.skipValue_eq hts.numberEnds]
    cases hs with
    | first =>
      obtain ⟨d, tail, hn, hd, -⟩ := hv.next
      rw [skipItems, hn]
      exact if_neg hd
    | comma hg =>
      rw [skipItems, skipRest_array, next_eq_ok_iff.2 ⟨hg, rfl⟩]
      rfl

theorem RawMembers.skipMembers_eq {first : Bool} {cs rest : List Char}
    (h : RawMembers first cs rest) (around : List Bracket) :
    skipMembers first around cs = skipRest around rest := by
  match h with
  | .close hg =>
    cases first
    · rw [skipMembers, skipRest_object, next_eq_ok_iff.2 ⟨hg, rfl⟩]
      rfl
    · rw [skipMembers, next_eq_ok_iff.2 ⟨hg, rfl⟩]
      rfl
  | .member hs hq hb hcolon hv hms =>
    have hkey := skipKey_eq_ok_iff.2 ⟨_, _, hq, hb, hcolon⟩
    rw [← hms.skipMembers_eq around, skipMembers, ← hv.skipValue_eq hms.numberEnds]
    cases hs with
    | first =>
      rw [skipMembers, next_eq_ok_iff.2 ⟨hq, rfl⟩]
      simp only [Char.reduceEq, ↓reduceIte, hkey]
    | comma hg =>
      rw [skipMembers, skipRest_object, next_eq_ok_iff.2 ⟨hg, rfl⟩]
      simp only [↓reduceIte, hkey]

end

/-- What is skipped is a value, and where a number ends every value is skipped. -/
theorem raw_of_skip {cs rest : List Char} (h : skip cs = .ok rest) : Raw cs rest := by
  obtain ⟨cs₁, hv, hrest⟩ := raw_of_skipValue h
  cases hrest
  exact hv

theorem Raw.skip_eq {cs rest : List Char} (h : Raw cs rest) (hr : NumberEnds rest) :
    skip cs = .ok rest := by
  rw [skip, h.skipValue_eq hr, skipRest]

/-- The text of a value decides where it ends. -/
theorem Raw.unique {cs rest rest' : List Char} (h : Raw cs rest) (h' : Raw cs rest')
    (hr : NumberEnds rest) (hr' : NumberEnds rest') : rest = rest' := by
  simpa [h.skip_eq hr] using h'.skip_eq hr'

end PrimitiveAbi.Json
