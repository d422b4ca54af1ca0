import PrimitiveAbi.Proofs.Json.Scanner

/-!
# The grammar is unambiguous

A text is a document of at most one tree. Every value is known by the character that it opens with,
a string by what `readString` makes of it, and a number goes as far as its characters do: behind a
value stands white space, a comma or a bracket, and none of them is one of those characters.
-/

namespace PrimitiveAbi.Json

/-! ### Parts -/

/-- Behind white space stands one character that is none. -/
theorem Gap.unique {cs rest rest' : List Char} {c c' : Char} (h : Gap cs (c :: rest))
    (h' : Gap cs (c' :: rest')) (hc : isBlank c = false) (hc' : isBlank c' = false) :
    c = c' ∧ rest = rest' := by
  have hn := next_eq_ok_iff.2 ⟨h, hc⟩
  rw [next_eq_ok_iff.2 ⟨h', hc'⟩] at hn
  simp only [Except.ok.injEq, Prod.mk.injEq] at hn
  exact ⟨hn.1.symm, hn.2.symm⟩

theorem StringBody.unique {s s' cs rest rest' : List Char} (h : StringBody s cs rest)
    (h' : StringBody s' cs rest') : s = s' ∧ rest = rest' := by
  have hr := readString_of_stringBody h
  rw [readString_of_stringBody h'] at hr
  simp only [Except.ok.injEq, Prod.mk.injEq] at hr
  exact ⟨hr.1.symm, hr.2.symm⟩

theorem inNumber_of_isDigit {c : Char} (h : c.isDigit = true) : inNumber c = true := by
  simp [inNumber, h]

theorem IsFraction.inNumber {cs : List Char} (h : IsFraction cs) :
    ∀ c ∈ cs, inNumber c = true := by
  cases h with
  | none => simp
  | point hd =>
    intro c hc
    rcases List.mem_cons.1 hc with rfl | hc
    · rfl
    · exact inNumber_of_isDigit (hd.2 c hc)

theorem IsExponent.inNumber {cs : List Char} (h : IsExponent cs) :
    ∀ c ∈ cs, inNumber c = true := by
  cases h with
  | none => simp
  | bare he hd =>
    intro c hc
    rcases List.mem_cons.1 hc with rfl | hc
    · rcases he with rfl | rfl <;> rfl
    · exact inNumber_of_isDigit (hd.2 c hc)
  | signed he hs hd =>
    intro c hc
    rcases List.mem_cons.1 hc with rfl | hc
    · rcases he with rfl | rfl <;> rfl
    rcases List.mem_cons.1 hc with rfl | hc
    · rcases hs with rfl | rfl <;> rfl
    · exact inNumber_of_isDigit (hd.2 c hc)

theorem IsNumber.inNumber {token : List Char} (h : IsNumber token) :
    ∀ c ∈ token, inNumber c = true := by
  have parts : ∀ {whole fraction exponent : List Char}, IsWhole whole → IsFraction fraction →
      IsExponent exponent → ∀ c ∈ whole ++ fraction ++ exponent, Json.inNumber c = true := by
    intro whole fraction exponent hw hf he c hc
    rcases List.mem_append.1 hc with hc | hc
    · rcases List.mem_append.1 hc with hc | hc
      · exact inNumber_of_isDigit (hw.1.2 c hc)
      · exact hf.inNumber c hc
    · exact he.inNumber c hc
  cases h with
  | plain hw hf he => exact parts hw hf he
  | minus hw hf he =>
    intro c hc
    rcases List.mem_cons.1 hc with rfl | hc
    · rfl
    · exact parts hw hf he c hc

/-- A number is all that can be taken of its characters. -/
theorem IsNumber.takeWhile_append {token rest : List Char} (h : IsNumber token)
    (hr : NumberEnds rest) : (token ++ rest).takeWhile Json.inNumber = token := by
  rw [List.takeWhile_append_of_pos h.inNumber]
  cases rest with
  | nil => simp
  | cons c rest => rw [List.takeWhile_cons_of_neg (by simp [hr c rfl]), List.append_nil]

/-- No white space stands in front of a number itself. -/
theorem IsNumber.skipBlank_append {token rest : List Char} (h : IsNumber token) :
    skipBlank (token ++ rest) = token ++ rest := by
  obtain ⟨c, tail, rfl, hc⟩ := h.exists_cons
  exact List.dropWhile_cons_of_neg (by simp [isBlank_of_opensNumber hc])

/-! ### Values -/

/-- The character that a value opens with, a digit for every number. -/
def Tree.opening : Tree → Char
  | .null => 'n'
  | .boolean true => 't'
  | .boolean false => 'f'
  | .number _ => '0'
  | .text _ => '"'
  | .array _ => '['
  | .object _ => '\x7b'

theorem Spells.opening {t : Tree} {cs rest : List Char} (h : Spells t cs rest) :
    ∃ c tail, Json.next cs = .ok (c, tail) ∧
      t.opening = if opensNumber c then '0' else c := by
  cases h with
  | null hg => exact ⟨'n', _, next_eq_ok_iff.2 ⟨hg, rfl⟩, rfl⟩
  | true hg => exact ⟨'t', _, next_eq_ok_iff.2 ⟨hg, rfl⟩, rfl⟩
  | false hg => exact ⟨'f', _, next_eq_ok_iff.2 ⟨hg, rfl⟩, rfl⟩
  | number hn hg =>
    obtain ⟨c, tail, rfl, hc⟩ := hn.exists_cons
    exact ⟨c, _, next_eq_ok_iff.2 ⟨hg, isBlank_of_opensNumber hc⟩, (if_pos hc).symm⟩
  | text hg => exact ⟨'"', _, next_eq_ok_iff.2 ⟨hg, rfl⟩, rfl⟩
  | array hg => exact ⟨'[', _, next_eq_ok_iff.2 ⟨hg, rfl⟩, rfl⟩
  | object hg => exact ⟨'\x7b', _, next_eq_ok_iff.2 ⟨hg, rfl⟩, rfl⟩

theorem Spells.opening_eq {t t' : Tree} {cs rest rest' : List Char} (h : Spells t cs rest)
    (h' : Spells t' cs rest') : t.opening = t'.opening := by
  obtain ⟨c, tail, hn, hc⟩ := h.opening
  obtain ⟨c', tail', hn', hc'⟩ := h'.opening
  rw [hn, Except.ok.injEq, Prod.mk.injEq] at hn'
  obtain ⟨rfl, -⟩ := hn'
  rw [hc, hc']

/-- A bracket is closed where no comma and no value stands. -/
theorem Separator.not_closed {first : Bool} {t : Tree} {c : Char} {cs cs₁ rest after : List Char}
    (hs : Separator first cs cs₁) (h : Spells t cs₁ rest) (hc : c = ']' ∨ c = '\x7d') :
    ¬ Gap cs (c :: after) := by
  intro hg
  have hblank : isBlank c = false := by rcases hc with rfl | rfl <;> rfl
  cases hs with
  | first =>
    obtain ⟨d, tail, hn, hne, hne'⟩ := h.next
    obtain ⟨hg', hd⟩ := next_eq_ok_iff.1 hn
    obtain ⟨rfl, -⟩ := hg.unique hg' hblank hd
    exact hc.elim hne hne'
  | comma hg' =>
    obtain ⟨rfl, -⟩ := hg.unique hg' hblank rfl
    rcases hc with hc | hc <;> exact absurd hc (by decide)

theorem Separator.unique {first : Bool} {cs rest rest' : List Char} (h : Separator first cs rest)
    (h' : Separator first cs rest') : rest = rest' := by
  cases h with
  | first => cases h'; rfl
  | comma hg =>
    cases h' with
    | comma hg' => exact (hg.unique hg' rfl rfl).2

mutual

/-- The text of a value decides the value, and where it ends. -/
theorem Spells.unique {t t' : Tree} {cs rest rest' : List Char} (h : Spells t cs rest)
    (h' : Spells t' cs rest') (hr : NumberEnds rest) (hr' : NumberEnds rest') :
    t = t' ∧ rest = rest' := by
  -- the character that both open with leaves one constructor for the second value
  have hopen := h.opening_eq h'
  cases h with
  | null hg =>
    cases h' with
    | null hg' => simpa using hg.unique hg' rfl rfl
    | _ => simp [Tree.opening] at hopen
  | true hg =>
    cases h' with
    | true hg' => simpa using hg.unique hg' rfl rfl
    | _ => simp [Tree.opening] at hopen
  | false hg =>
    cases h' with
    | false hg' => simpa using hg.unique hg' rfl rfl
    | _ => simp [Tree.opening] at hopen
  | number hn hg =>
    cases h' with
    | number hn' hg' =>
      have htoken := hg.skipBlank_eq.symm.trans hg'.skipBlank_eq
      rw [hn.skipBlank_append, hn'.skipBlank_append] at htoken
      -- neither number goes on into what stands behind it
      have heq := congrArg (List.takeWhile inNumber) htoken
      rw [hn.takeWhile_append hr, hn'.takeWhile_append hr'] at heq
      subst heq
      exact ⟨rfl, List.append_cancel_left htoken⟩
    | _ => simp [Tree.opening] at hopen
  | text hg hs =>
    cases h' with
    | text hg' hs' =>
      obtain ⟨-, rfl⟩ := hg.unique hg' rfl rfl
      obtain ⟨heq, rfl⟩ := hs.unique hs'
      exact ⟨congrArg Tree.text (String.toList_inj.1 heq), rfl⟩
    | _ => simp [Tree.opening] at hopen
  | array hg hts =>
    cases h' with
    | array hg' hts' =>
      obtain ⟨-, rfl⟩ := hg.unique hg' rfl rfl
      obtain ⟨rfl, rfl⟩ := hts.unique hts'
      exact ⟨rfl, rfl⟩
    | _ => simp [Tree.opening] at hopen
  | object hg hms =>
    cases h' with
    | object hg' hms' =>
      obtain ⟨-, rfl⟩ := hg.unique hg' rfl rfl
      obtain ⟨rfl, rfl⟩ := hms.unique hms'
      exact ⟨rfl, rfl⟩
    | _ => simp [Tree.opening] at hopen

theorem Items.unique {first : Bool} {ts ts' : List Tree} {cs rest rest' : List Char}
    (h : Items first ts cs rest) (h' : Items first ts' cs rest') : ts = ts' ∧ rest = rest' := by
  cases h with
  | close hg =>
    cases h' with
    | close hg' => exact ⟨rfl, (hg.unique hg' rfl rfl).2⟩
    | item hs' ht' => exact absurd hg (hs'.not_closed ht' (.inl rfl))
  | item hs ht hts =>
    cases h' with
    | close hg' => exact absurd hg' (hs.not_closed ht (.inl rfl))
    | item hs' ht' hts' =>
      obtain rfl := hs.unique hs'
      obtain ⟨rfl, rfl⟩ := ht.unique ht' hts.numberEnds hts'.numberEnds
      obtain ⟨rfl, rfl⟩ := hts.unique hts'
      exact ⟨rfl, rfl⟩

theorem Members.unique {first : Bool} {ms ms' : List (String × Tree)} {cs rest rest' : List Char}
    (h : Members first ms cs rest) (h' : Members first ms' cs rest') :
    ms = ms' ∧ rest = rest' := by
  cases h with
  | close hg =>
    cases h' with
    | close hg' => exact ⟨rfl, (hg.unique hg' rfl rfl).2⟩
    | member hs' hq' hn' => exact absurd hg (hs'.not_closed (.text hq' hn') (.inr rfl))
  | member hs hq hn hcolon ht hms =>
    cases h' with
    | close hg' => exact absurd hg' (hs.not_closed (.text hq hn) (.inr rfl))
    | member hs' hq' hn' hcolon' ht' hms' =>
      obtain rfl := hs.unique hs'
      obtain ⟨-, rfl⟩ := hq.unique hq' rfl rfl
      obtain ⟨hname, rfl⟩ := hn.unique hn'
      obtain ⟨-, rfl⟩ := hcolon.unique hcolon' rfl rfl
      obtain ⟨rfl, rfl⟩ := ht.unique ht' hms.numberEnds hms'.numberEnds
      obtain ⟨rfl, rfl⟩ := hms.unique hms'
      obtain rfl := String.toList_inj.1 hname
      exact ⟨rfl, rfl⟩

end

/-- A text is a document of one tree at most. -/
theorem IsDocument.unique {t t' : Tree} {text : String} (h : IsDocument t text)
    (h' : IsDocument t' text) : t = t' := by
  obtain ⟨rest, ht, hg⟩ := h
  obtain ⟨rest', ht', hg'⟩ := h'
  exact (ht.unique ht' (hg.numberEnds numberEnds_nil) (hg'.numberEnds numberEnds_nil)).1

end PrimitiveAbi.Json
