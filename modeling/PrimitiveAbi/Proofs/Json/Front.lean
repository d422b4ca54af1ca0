import PrimitiveAbi.Proofs.Json.Cut

/-!
# What scanners say of a front

The scanners of words and strings say of the front of a text what they say of the whole. The four
digits of an escape are looked at together, so the front ends too early where fewer than four bytes
are left; where four bytes are fewer characters, they are no digits in the whole either.
-/

namespace PrimitiveAbi.Json

open Leaves

attribute [grind →] length_next length_codeUnit length_lowSurrogate length_unicodeEscape
  length_escape length_readString length_skipEscape length_skipString

/-! ### Words -/

theorem skipBlank_append_of_nil {front : List Char} (h : skipBlank front = []) (back : List Char) :
    skipBlank (front ++ back) = skipBlank back := by
  rw [skipBlank, List.dropWhile_append, ← skipBlank, h]
  rfl

theorem skipBlank_append_of_cons {front rest : List Char} {c : Char}
    (h : skipBlank front = c :: rest) (back : List Char) :
    skipBlank (front ++ back) = c :: (rest ++ back) := by
  rw [skipBlank, List.dropWhile_append, ← skipBlank, h]
  rfl

theorem foretells_next (front back : List Char) :
    Foretells back (next front) (next (front ++ back)) := by
  unfold next
  cases h : skipBlank front with
  | nil =>
    rw [skipBlank_append_of_nil h]
    exact .early fun r hr => length_next hr
  | cons c rest =>
    rw [skipBlank_append_of_cons h]
    exact .read (c, rest)

theorem foretells_literal (word front back : List Char) :
    Foretells back (literal word front) (literal word (front ++ back)) := by
  induction word generalizing front with
  | nil => exact .read front
  | cons w word ih =>
    cases front with
    | nil =>
      refine .early fun r hr => ?_
      rw [List.nil_append, literal_eq_ok_iff] at hr
      rw [hr, left_list, List.length_append, List.length_cons]
      omega
    | cons c front =>
      rw [literal, List.cons_append, literal]
      split
      · exact ih front
      · exact .fault _

/-! ### Strings -/

theorem utf8Size_of_hexDigit? {c : Char} {n : Nat} (h : Text.hexDigit? c = some n) :
    c.utf8Size = 1 := by
  unfold Text.hexDigit? at h
  rw [Char.utf8Size_eq_one_iff]
  simp only [Char.isDigit, Char.le_def] at h
  grind

theorem utf8ByteSize_ofList_of_ascii {cs : List Char} (h : ∀ c ∈ cs, c.utf8Size = 1) :
    (String.ofList cs).utf8ByteSize = cs.length := by
  induction cs with
  | nil => rfl
  | cons c cs ih =>
    rw [String.ofList_cons, String.utf8ByteSize_append, String.utf8ByteSize_singleton,
      h c List.mem_cons_self, ih fun d hd => h d (List.mem_cons_of_mem c hd), List.length_cons]
    omega

theorem utf8Size_of_hexNumber? {x₁ x₂ x₃ x₄ : Char} {n : Nat}
    (h : hexNumber? x₁ x₂ x₃ x₄ = some n) : ∀ x ∈ [x₁, x₂, x₃, x₄], x.utf8Size = 1 := by
  simp only [hexNumber?, Option.bind_eq_bind, Option.bind_eq_some_iff, Option.pure_def,
    Option.some.injEq] at h
  obtain ⟨_, h₁, _, h₂, _, h₃, _, h₄, -⟩ := h
  simp [utf8Size_of_hexDigit? h₁, utf8Size_of_hexDigit? h₂, utf8Size_of_hexDigit? h₃,
    utf8Size_of_hexDigit? h₄]

theorem codeUnit_of_length_lt {cs : List Char} (h : cs.length < 4) : codeUnit cs =
    if (String.ofList cs).utf8ByteSize < 4 then .error .truncated else .error .malformed := by
  match cs, h with
  | [], _ => rfl
  | [_], _ => rfl
  | [_, _], _ => rfl
  | [_, _, _], _ => rfl

/-- Four bytes that are fewer characters are no digits, whatever follows. -/
theorem codeUnit_append_of_bytes {short : List Char} (hlen : short.length < 4)
    (hsize : 4 ≤ (String.ofList short).utf8ByteSize) (back : List Char) :
    codeUnit (short ++ back) = .error .malformed := by
  unfold codeUnit
  split
  · rename_i x₁ x₂ x₃ x₄ rest heq
    split
    · rename_i hx
      have hle : short.length ≤ [x₁, x₂, x₃, x₄].length := Nat.le_of_lt hlen
      have hshort : short <+: [x₁, x₂, x₃, x₄] :=
        List.prefix_of_prefix_length_le ⟨back, heq⟩ ⟨rest, rfl⟩ hle
      have hascii := fun c hc => utf8Size_of_hexNumber? hx c (hshort.subset hc)
      rw [utf8ByteSize_ofList_of_ascii hascii] at hsize
      omega
    · rfl
  · rw [if_neg]
    rw [String.ofList_append, String.utf8ByteSize_append]
    omega

theorem foretells_codeUnit (front back : List Char) :
    Foretells back (codeUnit front) (codeUnit (front ++ back)) := by
  by_cases hlen : front.length < 4
  · rw [codeUnit_of_length_lt hlen]
    split
    · refine .early fun r hr => ?_
      obtain ⟨_, _, _, _, heq, -⟩ := codeUnit_eq_ok_iff.1 hr
      have := congrArg List.length heq
      simp only [List.length_append, List.length_cons] at this
      simp only [left_pair]
      omega
    · rename_i hsize
      rw [codeUnit_append_of_bytes hlen (Nat.le_of_not_lt hsize)]
      exact .fault _
  · match front, hlen with
    | _ :: _ :: _ :: _ :: rest, _ =>
      simp only [List.cons_append, codeUnit]
      split
      · exact .read (_, rest)
      · exact .fault _
    | [], h | [_], h | [_, _], h | [_, _, _], h => simp at h

theorem lowSurrogate_of_ne {c : Char} (h : c ≠ '\\') (cs : List Char) :
    lowSurrogate (c :: cs) = .error .malformed := by
  simp [lowSurrogate, h]

theorem lowSurrogate_of_letter {c : Char} (h : c ≠ 'u') (cs : List Char) :
    lowSurrogate ('\\' :: c :: cs) = .error .malformed := by
  simp [lowSurrogate, h]

theorem foretells_lowSurrogate (front back : List Char) :
    Foretells back (lowSurrogate front) (lowSurrogate (front ++ back)) := by
  match front with
  | [] => exact .early fun r hr => length_lowSurrogate hr
  | c :: rest =>
    rw [List.cons_append]
    by_cases hc : c = '\\'
    · subst hc
      match rest with
      | [] =>
        refine .early fun r hr => ?_
        obtain ⟨tail, heq, hu, -⟩ := lowSurrogate_sound hr
        obtain ⟨-, rfl⟩ := List.cons.inj heq
        exact Nat.lt_succ_of_lt (length_codeUnit hu)
      | d :: rest =>
        rw [List.cons_append]
        by_cases hd : d = 'u'
        · subst hd
          have h := foretells_codeUnit rest back
          rw [lowSurrogate, lowSurrogate]
          generalize codeUnit rest = x, codeUnit (rest ++ back) = y at h ⊢
          apply h.bind (by intro e; exact ⟨rfl, rfl⟩)
          · rintro ⟨n, rest⟩ -
            dsimp only [extend_pair]
            split
            · exact .read (n, rest)
            · exact .fault _
          · grind
        · rw [lowSurrogate_of_letter hd, lowSurrogate_of_letter hd]
          exact .fault _
    · rw [lowSurrogate_of_ne hc, lowSurrogate_of_ne hc]
      exact .fault _

theorem foretells_unicodeEscape (front back : List Char) :
    Foretells back (unicodeEscape front) (unicodeEscape (front ++ back)) := by
  unfold unicodeEscape
  have h := foretells_codeUnit front back
  generalize codeUnit front = x, codeUnit (front ++ back) = y at h ⊢
  apply h.bind (by intro e; exact ⟨rfl, rfl⟩)
  · rintro ⟨n, rest⟩ -
    dsimp only [extend_pair]
    split
    · exact .fault _
    split
    · have h := foretells_lowSurrogate rest back
      generalize lowSurrogate rest = x, lowSurrogate (rest ++ back) = y at h ⊢
      apply h.bind (by intro e; exact ⟨rfl, rfl⟩)
      · rintro ⟨low, rest⟩ -
        dsimp only [extend_pair]
        generalize ofSurrogates n low = c
        exact .read (c, rest)
      · grind
    · exact .read (Char.ofNat n, rest)
  · grind

theorem foretells_escape (front back : List Char) :
    Foretells back (escape front) (escape (front ++ back)) := by
  cases front with
  | nil =>
    rw [List.nil_append]
    exact .early fun r hr => length_escape hr
  | cons c rest =>
    rw [escape, List.cons_append, escape]
    split
    · exact foretells_unicodeEscape rest back
    split
    · exact .read (_, rest)
    · exact .fault _

theorem readString_backslash (cs : List Char) : readString ('\\' :: cs) =
    match escape cs with
    | .error e => .error e
    | .ok (c, rest) => consChar c (readString rest) := by
  split
  · rename_i h
    rw [readString]
    simp only [Char.reduceEq, ↓reduceIte]
    split <;> simp_all
  · exact readString_escape ‹_›

theorem Foretells.consChar {back : List Char} {x y : Except Fault (List Char × List Char)}
    (h : Foretells back x y) (c : Char) :
    Foretells back (consChar c x) (consChar c y) := by
  apply h.bind (by intro e; exact ⟨rfl, rfl⟩)
  · rintro ⟨text, rest⟩ -
    exact .read (c :: text, rest)
  · grind [Json.consChar]

theorem foretells_readString (front back : List Char) :
    Foretells back (readString front) (readString (front ++ back)) := by
  match front with
  | [] =>
    rw [readString]
    exact .early fun r hr => length_readString hr
  | c :: rest =>
    rw [List.cons_append]
    by_cases hq : c = '"'
    · subst hq
      rw [readString, readString]
      exact .read ([], rest)
    by_cases hb : c = '\\'
    · subst hb
      rw [readString_backslash, readString_backslash]
      have h := foretells_escape rest back
      generalize hx : escape rest = x, escape (rest ++ back) = y at h ⊢
      apply h.bind (by intro e; exact ⟨rfl, rfl⟩)
      · rintro ⟨d, rest'⟩ rfl
        have := length_escape hx
        exact (foretells_readString rest' back).consChar d
      · grind [consChar.eq_def]
    by_cases hc : 0x20 ≤ c.toNat
    · rw [readString_plain hq hb hc, readString_plain hq hb hc]
      exact (foretells_readString rest back).consChar c
    · rw [readString, readString]
      simp only [hq, hb, ↓reduceIte, Nat.lt_of_not_le hc]
      exact .fault _
termination_by front.length

theorem foretells_skipEscape (front back : List Char) :
    Foretells back (skipEscape front) (skipEscape (front ++ back)) := by
  cases front with
  | nil => exact .early fun r hr => length_skipEscape hr
  | cons c rest =>
    rw [skipEscape, List.cons_append, skipEscape]
    split
    · have h := foretells_codeUnit rest back
      generalize codeUnit rest = x, codeUnit (rest ++ back) = y at h ⊢
      apply h.bind (by intro e; exact ⟨rfl, rfl⟩)
      · rintro ⟨n, rest⟩ -
        exact .read rest
      · grind
    split
    · exact .read rest
    · exact .fault _

theorem skipString_backslash (cs : List Char) : skipString ('\\' :: cs) =
    match skipEscape cs with
    | .error e => .error e
    | .ok rest => skipString rest := by
  split
  · rename_i h
    rw [skipString]
    simp only [Char.reduceEq, ↓reduceIte]
    split <;> simp_all
  · exact skipString_escape ‹_›

theorem foretells_skipString (front back : List Char) :
    Foretells back (skipString front) (skipString (front ++ back)) := by
  match front with
  | [] =>
    rw [skipString]
    exact .early fun r hr => length_skipString hr
  | c :: rest =>
    rw [List.cons_append]
    by_cases hb : c = '\\'
    · subst hb
      rw [skipString_backslash, skipString_backslash]
      have h := foretells_skipEscape rest back
      generalize hx : skipEscape rest = x, skipEscape (rest ++ back) = y at h ⊢
      apply h.bind (by intro e; exact ⟨rfl, rfl⟩)
      · rintro rest' rfl
        have := length_skipEscape hx
        exact foretells_skipString rest' back
      · grind
    · rw [skipString, skipString]
      simp only [hb, ↓reduceIte]
      split
      · exact .read rest
      split
      · exact .fault _
      · exact foretells_skipString rest back
termination_by front.length

end PrimitiveAbi.Json
