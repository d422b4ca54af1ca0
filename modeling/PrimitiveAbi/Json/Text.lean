import PrimitiveAbi.Json.Fault
import PrimitiveAbi.Text.Hex

/-!
# Strings in JSON

Strings are read from behind their opening quote. A string that is used must be text: a `\u` escape
of a surrogate stands only in a pair, the high one first. A string that is skipped may hold any
escapes. The four digits of a `\u` escape are looked at together, so that fewer than four bytes of
text are an early end, whatever they are. Written strings escape the quote, the backslash and the
characters below U+0020, and nothing else.
-/

namespace PrimitiveAbi.Json

open Text (hexDigit? hexDigit?_digitChar)

/-- White space between the tokens. -/
def isBlank (c : Char) : Bool :=
  c = ' ' || c = '\n' || c = '\t' || c = '\r'

def skipBlank (cs : List Char) : List Char :=
  cs.dropWhile isBlank

theorem length_skipBlank_le (cs : List Char) : (skipBlank cs).length ≤ cs.length :=
  (List.dropWhile_sublist isBlank).length_le

/-- The next character that is no white space, and what follows it. -/
def next (cs : List Char) : Except Fault (Char × List Char) :=
  match skipBlank cs with
  | [] => .error .truncated
  | c :: rest => .ok (c, rest)

theorem length_next {cs rest : List Char} {c : Char} (h : next cs = .ok (c, rest)) :
    rest.length < cs.length := by
  have hb := length_skipBlank_le cs
  unfold next at h
  split at h
  · simp at h
  · rename_i hc
    simp only [Except.ok.injEq, Prod.mk.injEq] at h
    rw [hc, List.length_cons] at hb
    rw [← h.2]; omega

/-- What follows a word; the text must go on with it. -/
def literal : List Char → List Char → Except Fault (List Char)
  | [], cs => .ok cs
  | _ :: _, [] => .error .truncated
  | w :: word, c :: cs => if c = w then literal word cs else .error .malformed

theorem length_literal_le {word cs rest : List Char} (h : literal word cs = .ok rest) :
    rest.length ≤ cs.length := by
  induction word generalizing cs with
  | nil => simp [literal] at h; simp [h]
  | cons w word ih =>
    cases cs with
    | nil => simp [literal] at h
    | cons c cs =>
      simp only [literal] at h
      split at h
      · have := ih h; simp only [List.length_cons]; omega
      · simp at h

/-- The number that four hexadecimal digits write. -/
def hexNumber? (a b c d : Char) : Option Nat := do
  return ((← hexDigit? a) * 16 + (← hexDigit? b)) * 256 + ((← hexDigit? c) * 16 + (← hexDigit? d))

/-- The code unit that a `\u` escape gives in four digits. -/
def codeUnit (cs : List Char) : Except Fault (Nat × List Char) :=
  match cs with
  | a :: b :: c :: d :: rest =>
      match hexNumber? a b c d with
      | some n => .ok (n, rest)
      | none => .error .malformed
  | short =>
      if (String.ofList short).utf8ByteSize < 4 then .error .truncated else .error .malformed

theorem length_codeUnit {cs rest : List Char} {n : Nat} (h : codeUnit cs = .ok (n, rest)) :
    rest.length < cs.length := by
  unfold codeUnit at h
  split at h
  · split at h
    · simp only [Except.ok.injEq, Prod.mk.injEq] at h
      simp only [← h.2, List.length_cons]; omega
    · simp at h
  · split at h <;> simp at h

/-- The character of a one-letter escape. -/
def escaped? : Char → Option Char
  | '"' => some '"'
  | '\\' => some '\\'
  | '/' => some '/'
  | 'b' => some '\x08'
  | 'f' => some '\x0c'
  | 'n' => some '\n'
  | 'r' => some '\r'
  | 't' => some '\t'
  | _ => none

def isHighSurrogate (n : Nat) : Bool := 0xd800 ≤ n && n ≤ 0xdbff

def isLowSurrogate (n : Nat) : Bool := 0xdc00 ≤ n && n ≤ 0xdfff

/-- The character of a pair of surrogates. -/
def ofSurrogates (high low : Nat) : Char :=
  Char.ofNat (0x10000 + (high - 0xd800) * 0x400 + (low - 0xdc00))

/-- The low surrogate of a pair, as an escape of its own. -/
def lowSurrogate : List Char → Except Fault (Nat × List Char)
  | '\\' :: 'u' :: rest =>
      match codeUnit rest with
      | .error e => .error e
      | .ok (n, rest) => if isLowSurrogate n then .ok (n, rest) else .error .malformed
  | [] | ['\\'] => .error .truncated
  | _ => .error .malformed

theorem length_lowSurrogate {cs rest : List Char} {n : Nat} (h : lowSurrogate cs = .ok (n, rest)) :
    rest.length < cs.length := by
  unfold lowSurrogate at h
  split at h
  · split at h
    · simp at h
    · rename_i hu
      split at h
      · simp only [Except.ok.injEq, Prod.mk.injEq] at h
        have := length_codeUnit hu
        simp only [← h.2, List.length_cons]; omega
      · simp at h
  all_goals simp at h

/-- The character of a `\u` escape, from behind the `u`. -/
def unicodeEscape (cs : List Char) : Except Fault (Char × List Char) :=
  match codeUnit cs with
  | .error e => .error e
  | .ok (n, rest) =>
      if isLowSurrogate n then .error .malformed
      else if isHighSurrogate n then
        match lowSurrogate rest with
        | .error e => .error e
        | .ok (low, rest) => .ok (ofSurrogates n low, rest)
      else .ok (Char.ofNat n, rest)

theorem length_unicodeEscape {cs rest : List Char} {c : Char}
    (h : unicodeEscape cs = .ok (c, rest)) : rest.length < cs.length := by
  unfold unicodeEscape at h
  split at h
  · simp at h
  · rename_i hu
    have := length_codeUnit hu
    split at h
    · simp at h
    · split at h
      · split at h
        · simp at h
        · rename_i hl
          have := length_lowSurrogate hl
          simp only [Except.ok.injEq, Prod.mk.injEq] at h
          rw [← h.2]; omega
      · simp only [Except.ok.injEq, Prod.mk.injEq] at h
        rw [← h.2]; omega

/-- The character of an escape, from behind the backslash. -/
def escape : List Char → Except Fault (Char × List Char)
  | [] => .error .truncated
  | c :: rest =>
      if c = 'u' then unicodeEscape rest
      else match escaped? c with
        | some d => .ok (d, rest)
        | none => .error .malformed

theorem length_escape {cs rest : List Char} {c : Char} (h : escape cs = .ok (c, rest)) :
    rest.length < cs.length := by
  unfold escape at h
  split at h
  · simp at h
  · split at h
    · have := length_unicodeEscape h
      simp only [List.length_cons]; omega
    · split at h
      · simp only [Except.ok.injEq, Prod.mk.injEq] at h
        simp [h.2]
      · simp at h

/-- A string that is used, from behind its opening quote. -/
def readString (cs : List Char) : Except Fault (List Char × List Char) :=
  match cs with
  | [] => .error .truncated
  | c :: rest =>
      if c = '"' then .ok ([], rest)
      else if c = '\\' then
        match h : escape rest with
        | .error e => .error e
        | .ok (d, rest') =>
            have := length_escape h
            match readString rest' with
            | .error e => .error e
            | .ok (text, rest) => .ok (d :: text, rest)
      else if c.toNat < 0x20 then .error .malformed
      else match readString rest with
        | .error e => .error e
        | .ok (text, rest) => .ok (c :: text, rest)
termination_by cs.length
decreasing_by all_goals simp only [List.length_cons]; omega

theorem length_readString {cs text rest : List Char} (h : readString cs = .ok (text, rest)) :
    rest.length < cs.length := by
  fun_induction readString cs generalizing text with
  | case1 => simp at h
  | case2 => simp_all
  | case3 => simp at h
  | case4 => simp at h
  | case5 =>
    rename_i ih
    simp only [Except.ok.injEq, Prod.mk.injEq] at h
    obtain ⟨rfl, rfl⟩ := h
    have := ih ‹_›
    simp only [List.length_cons]; omega
  | case6 => simp at h
  | case7 => simp at h
  | case8 =>
    rename_i ih
    simp only [Except.ok.injEq, Prod.mk.injEq] at h
    obtain ⟨rfl, rfl⟩ := h
    have := ih ‹_›
    simp only [List.length_cons]; omega

/-- What follows an escape that is skipped, from behind the backslash. -/
def skipEscape : List Char → Except Fault (List Char)
  | [] => .error .truncated
  | c :: rest =>
      if c = 'u' then
        match codeUnit rest with
        | .error e => .error e
        | .ok (_, rest) => .ok rest
      else if (escaped? c).isSome then .ok rest
      else .error .malformed

theorem length_skipEscape {cs rest : List Char} (h : skipEscape cs = .ok rest) :
    rest.length < cs.length := by
  unfold skipEscape at h
  split at h
  · simp at h
  · split at h
    · split at h
      · simp at h
      · rename_i hu
        have := length_codeUnit hu
        simp only [Except.ok.injEq] at h
        simp only [← h, List.length_cons]; omega
    · split at h
      · simp_all
      · simp at h

/-- What follows a string that is skipped, from behind its opening quote. -/
def skipString (cs : List Char) : Except Fault (List Char) :=
  match cs with
  | [] => .error .truncated
  | c :: rest =>
      if c = '"' then .ok rest
      else if c = '\\' then
        match h : skipEscape rest with
        | .error e => .error e
        | .ok rest' =>
            have := length_skipEscape h
            skipString rest'
      else if c.toNat < 0x20 then .error .malformed
      else skipString rest
termination_by cs.length
decreasing_by all_goals simp only [List.length_cons]; omega

theorem length_skipString {cs rest : List Char} (h : skipString cs = .ok rest) :
    rest.length < cs.length := by
  fun_induction skipString cs with
  | case1 => simp at h
  | case2 => simp_all
  | case3 => simp at h
  | case4 =>
    rename_i ih
    have := ih h
    simp only [List.length_cons]; omega
  | case5 => simp at h
  | case6 =>
    rename_i ih
    have := ih h
    simp only [List.length_cons]; omega

/-- A character as it is written inside a string. -/
def writeChar (c : Char) : List Char :=
  if c = '"' then ['\\', '"']
  else if c = '\\' then ['\\', '\\']
  else if c = '\x08' then ['\\', 'b']
  else if c = '\x0c' then ['\\', 'f']
  else if c = '\n' then ['\\', 'n']
  else if c = '\r' then ['\\', 'r']
  else if c = '\t' then ['\\', 't']
  else if c.toNat < 0x20 then
    ['\\', 'u', '0', '0', Nat.digitChar (c.toNat / 16), Nat.digitChar (c.toNat % 16)]
  else [c]

/-- A string as it is written, with its quotes. -/
def writeString (s : String) : List Char :=
  '"' :: s.toList.flatMap writeChar ++ ['"']

/-! ### What is written is read -/

/-- What is read of a string that has one more character in front. -/
def consChar (c : Char) :
    Except Fault (List Char × List Char) → Except Fault (List Char × List Char)
  | .error e => .error e
  | .ok (text, rest) => .ok (c :: text, rest)

theorem readString_plain {c : Char} {cs : List Char} (hq : c ≠ '"') (hb : c ≠ '\\')
    (hc : 0x20 ≤ c.toNat) : readString (c :: cs) = consChar c (readString cs) := by
  rw [readString]
  simp only [hq, hb, ↓reduceIte, Nat.not_lt.2 hc]
  cases readString cs <;> rfl

theorem readString_escape {c : Char} {cs rest : List Char} (h : escape cs = .ok (c, rest)) :
    readString ('\\' :: cs) = consChar c (readString rest) := by
  rw [readString]
  simp only [Char.reduceEq, ↓reduceIte]
  split
  · simp_all
  · rename_i he
    rw [h] at he
    simp only [Except.ok.injEq, Prod.mk.injEq] at he
    obtain ⟨rfl, rfl⟩ := he
    cases readString rest <;> rfl

theorem unicodeEscape_low {n : Nat} (h : n < 0x20) (cs : List Char) :
    unicodeEscape ('0' :: '0' :: Nat.digitChar (n / 16) :: Nat.digitChar (n % 16) :: cs) =
      .ok (Char.ofNat n, cs) := by
  have h1 := hexDigit?_digitChar (n / 16) (by omega)
  have h2 := hexDigit?_digitChar (n % 16) (by omega)
  have hz : hexDigit? '0' = some 0 := by decide
  have hn : n / 16 * 16 + n % 16 = n := by omega
  have hl : isLowSurrogate n = false := by simp [isLowSurrogate]; omega
  have hh : isHighSurrogate n = false := by simp [isHighSurrogate]; omega
  simp [unicodeEscape, codeUnit, hexNumber?, h1, h2, hz, hn, hl, hh]

theorem readString_writeChar (c : Char) (cs : List Char) :
    readString (writeChar c ++ cs) = consChar c (readString cs) := by
  unfold writeChar
  iterate 7 (split; · subst_vars; exact readString_escape rfl)
  split
  · rename_i h
    refine readString_escape ?_
    have := unicodeEscape_low h cs
    simp only [escape]
    simpa using this
  · rename_i hq hb _ _ _ _ _ h
    exact readString_plain hq hb (by omega)

/-- A written string is read as what it was written from. -/
theorem readString_writeString (s : List Char) (rest : List Char) :
    readString (s.flatMap writeChar ++ '"' :: rest) = .ok (s, rest) := by
  induction s with
  | nil => simp [readString]
  | cons c s ih => simp [readString_writeChar, List.append_assoc, ih, consChar]

end PrimitiveAbi.Json
