import PrimitiveAbi.Json.Text

/-!
# Numbers in JSON

A numeral is read in full before it is valued. Without fraction and exponent it is an integer when
it fits into 64 bits, unsigned without a sign and two's complement with one; `-0` and every other
numeral is a double. The digits of a double are gathered in 64 bits: digits that do not fit any more
are left out, and only those before the point count for the exponent.
-/

namespace PrimitiveAbi.Json

/-- The parts of a numeral; an absent fraction is empty. -/
structure Numeral where
  negative : Bool
  whole : List Char
  fraction : List Char
  exponent : Option Int
  deriving DecidableEq, Repr

/-- A number as a document holds it. -/
inductive Number where
  | natural (value : Nat)
  /-- An integer below zero, by its magnitude. -/
  | negative (magnitude : Nat)
  | real (value : Decimal.Binary64)
  deriving DecidableEq, Repr

def Number.found : Number → Found
  | .natural value => .integer value
  | .negative magnitude => .integer (-(magnitude : Int))
  | .real value => .real value

/-- One digit or more; `atEnd` is the fault where the text ends instead. -/
def digits (atEnd : Fault) (cs : List Char) : Except Fault (List Char × List Char) :=
  match cs with
  | [] => .error atEnd
  | c :: _ =>
      if c.isDigit then .ok (cs.takeWhile Char.isDigit, cs.dropWhile Char.isDigit)
      else .error .malformed

/-- The digits before the point, where a zero stands alone. -/
def wholePart (atEnd : Fault) (cs : List Char) : Except Fault (List Char × List Char) :=
  match cs with
  | '0' :: c :: rest => if c.isDigit then .error .malformed else .ok (['0'], c :: rest)
  | cs => digits atEnd cs

/-- The digits after a point, and none where there is no point. -/
def fractionPart (atEnd : Fault) (cs : List Char) : Except Fault (List Char × List Char) :=
  match cs with
  | '.' :: rest => digits atEnd rest
  | cs => .ok ([], cs)

/-- The number that decimal digits write. -/
def decimal (ds : List Char) : Nat := Nat.ofDigitChars 10 ds 0

/-- The sign of an exponent, which may be absent: whether it is a minus. -/
def exponentSign : List Char → Bool × List Char
  | '-' :: rest => (true, rest)
  | '+' :: rest => (false, rest)
  | cs => (false, cs)

/-- The exponent, where there is one. -/
def exponentPart (atEnd : Fault) (cs : List Char) : Except Fault (Option Int × List Char) :=
  match cs with
  | [] => .ok (none, [])
  | c :: rest =>
      if c = 'e' ∨ c = 'E' then
        match digits atEnd (exponentSign rest).2 with
        | .error e => .error e
        | .ok (ds, after) =>
            .ok (some (if (exponentSign rest).1 then -(decimal ds : Int) else decimal ds), after)
      else .ok (none, cs)

/-- The sign in front of a numeral: whether there is one. -/
def signPart : List Char → Bool × List Char
  | '-' :: rest => (true, rest)
  | cs => (false, cs)

/-- A numeral, and what follows it. -/
def readNumeral (atEnd : Fault) (cs : List Char) : Except Fault (Numeral × List Char) :=
  match wholePart atEnd (signPart cs).2 with
  | .error e => .error e
  | .ok (whole, afterWhole) =>
      match fractionPart atEnd afterWhole with
      | .error e => .error e
      | .ok (fraction, afterFraction) =>
          match exponentPart atEnd afterFraction with
          | .error e => .error e
          | .ok (exponent, rest) => .ok (⟨(signPart cs).1, whole, fraction, exponent⟩, rest)

/-- Appends digits to a number as long as it has 64 bits, and counts those left out. -/
def gather (n : Nat) : List Char → Nat × Nat
  | [] => (n, 0)
  | d :: ds =>
      let next := 10 * n + (d.toNat - 48)
      if next < UInt64.size then gather next ds else (n, ds.length + 1)

namespace Numeral

/-- Whether the numeral is an integer by its form. -/
def isInteger (n : Numeral) : Bool :=
  n.fraction.isEmpty && n.exponent.isNone

/-- The double that the numeral is read as; nothing if it is too large. -/
def toReal? (n : Numeral) : Option Decimal.Binary64 :=
  let (head, wholeLeft) := gather 0 n.whole
  let (all, fractionLeft) := gather head n.fraction
  Decimal.Binary64.ofDecimal? n.negative all
    (wholeLeft - (n.fraction.length - fractionLeft : Nat) + n.exponent.getD 0)

/-- The number that the numeral writes; nothing if it is too large. -/
def value? (n : Numeral) : Option Number :=
  let magnitude := decimal n.whole
  if n.isInteger && !n.negative && magnitude < UInt64.size then some (.natural magnitude)
  else if n.isInteger && n.negative && 0 < magnitude && magnitude ≤ UInt64.size / 2 then
    some (.negative magnitude)
  else n.toReal?.map .real

end Numeral

/-- A number that is used, and what follows it. -/
def readNumber (cs : List Char) : Except Fault (Number × List Char) :=
  match readNumeral .truncated cs with
  | .error e => .error e
  | .ok (numeral, rest) =>
      match numeral.value? with
      | some number => .ok (number, rest)
      | none => .error .malformed

/-- What follows a number that is skipped; its size does not matter, and no end of text inside it
counts as early. -/
def skipNumber (cs : List Char) : Except Fault (List Char) :=
  match readNumeral .malformed cs with
  | .error e => .error e
  | .ok (_, rest) => .ok rest

/-- Whether a character opens a number. -/
def opensNumber (c : Char) : Bool := c = '-' || c.isDigit

theorem length_digits {atEnd : Fault} {cs ds rest : List Char}
    (h : digits atEnd cs = .ok (ds, rest)) : rest.length < cs.length := by
  unfold digits at h
  split at h
  · simp at h
  · rename_i c cs
    split at h
    · rename_i hc
      simp only [Except.ok.injEq, Prod.mk.injEq] at h
      rw [← h.2, List.dropWhile_cons_of_pos hc]
      have := (List.dropWhile_sublist Char.isDigit (l := cs)).length_le
      simp only [List.length_cons]; omega
    · simp at h

theorem length_wholePart {atEnd : Fault} {cs ds rest : List Char}
    (h : wholePart atEnd cs = .ok (ds, rest)) : rest.length < cs.length := by
  unfold wholePart at h
  split at h
  · split at h
    · simp at h
    · simp only [Except.ok.injEq, Prod.mk.injEq] at h
      simp [← h.2]
  · exact length_digits h

theorem length_fractionPart {atEnd : Fault} {cs ds rest : List Char}
    (h : fractionPart atEnd cs = .ok (ds, rest)) : rest.length ≤ cs.length := by
  unfold fractionPart at h
  split at h
  · have := length_digits h
    simp only [List.length_cons]; omega
  · simp_all

theorem length_exponentSign_le (cs : List Char) : (exponentSign cs).2.length ≤ cs.length := by
  unfold exponentSign; split <;> simp

theorem length_signPart_le (cs : List Char) : (signPart cs).2.length ≤ cs.length := by
  unfold signPart; split <;> simp

theorem length_exponentPart {atEnd : Fault} {cs rest : List Char} {e : Option Int}
    (h : exponentPart atEnd cs = .ok (e, rest)) : rest.length ≤ cs.length := by
  unfold exponentPart at h
  split at h
  · simp_all
  · rename_i tail
    split at h
    · split at h
      · simp at h
      · rename_i hd
        simp only [Except.ok.injEq, Prod.mk.injEq] at h
        have := length_digits hd
        have := length_exponentSign_le tail
        simp only [← h.2, List.length_cons]; omega
    · simp_all

theorem length_readNumeral {atEnd : Fault} {cs rest : List Char} {n : Numeral}
    (h : readNumeral atEnd cs = .ok (n, rest)) : rest.length < cs.length := by
  have := length_signPart_le cs
  unfold readNumeral at h
  split at h
  · simp at h
  · rename_i hw
    have := length_wholePart hw
    split at h
    · simp at h
    · rename_i hf
      have := length_fractionPart hf
      split at h
      · simp at h
      · rename_i he
        have := length_exponentPart he
        simp only [Except.ok.injEq, Prod.mk.injEq] at h
        rw [← h.2]; omega

theorem length_readNumber {cs rest : List Char} {n : Number} (h : readNumber cs = .ok (n, rest)) :
    rest.length < cs.length := by
  unfold readNumber at h
  split at h
  · simp at h
  · rename_i hn
    split at h
    · simp only [Except.ok.injEq, Prod.mk.injEq] at h
      rw [← h.2]; exact length_readNumeral hn
    · simp at h

theorem length_skipNumber {cs rest : List Char} (h : skipNumber cs = .ok rest) :
    rest.length < cs.length := by
  unfold skipNumber at h
  split at h
  · simp at h
  · rename_i hn
    simp only [Except.ok.injEq] at h
    rw [← h]; exact length_readNumeral hn

end PrimitiveAbi.Json
