/-!
# Doubles, exactly

A finite double is a sign and a magnitude `significand · 2 ^ exponent`. Magnitudes are computed in
natural numbers: `ofRatio?` rounds a quotient to the nearest double, a tie to the even significand,
and products and quotients of magnitudes round the exact result once. A decimal is scaled by rounded
powers of ten, at most `10 ^ 308` at a time, so its last digit may differ from that of the nearest
double.
-/

namespace PrimitiveAbi.Decimal

/-- The magnitude of a finite double. -/
structure Magnitude where
  significand : Nat
  exponent : Int
  deriving DecidableEq, Repr

/-- A finite double. -/
structure Binary64 where
  negative : Bool
  magnitude : Magnitude
  deriving DecidableEq, Repr

/-- The quotient rounded to the nearest integer, a tie to the even one. -/
def roundQuotient (num den : Nat) : Nat :=
  let q := num / den
  let twice := 2 * (num % den)
  if den < twice ∨ (twice = den ∧ q % 2 = 1) then q + 1 else q

/-- Numerator and denominator of `num / den / 2 ^ exponent`. -/
def scaled (num den : Nat) (exponent : Int) : Nat × Nat :=
  (num <<< (-exponent).toNat, den <<< exponent.toNat)

namespace Magnitude

/-- The least exponent of a double. -/
def leastExponent : Int := -1074

/-- The greatest exponent of a double. -/
def mostExponent : Int := 971

def zero : Magnitude := ⟨0, leastExponent⟩

/-- The double nearest to a quotient; nothing if it is too large. -/
def ofRatio? (num den : Nat) : Option Magnitude :=
  if num = 0 then some zero
  else
    let guess := max ((num.log2 : Int) - den.log2 - 53) leastExponent
    let (n, d) := scaled num den guess
    let exponent := if 1 <<< 53 ≤ n / d then guess + 1 else guess
    let (n, d) := scaled num den exponent
    let m := roundQuotient n d
    let rounded : Magnitude := if m = 1 <<< 53 then ⟨1 <<< 52, exponent + 1⟩ else ⟨m, exponent⟩
    if mostExponent < rounded.exponent then none else some rounded

/-- The double nearest to a product. -/
def mul? (x y : Magnitude) : Option Magnitude :=
  let (n, d) := scaled (x.significand * y.significand) 1 (-(x.exponent + y.exponent))
  ofRatio? n d

/-- The double nearest to a quotient of doubles. -/
def div? (x y : Magnitude) : Option Magnitude :=
  let (n, d) := scaled x.significand y.significand (y.exponent - x.exponent)
  ofRatio? n d

/-- The greatest power of ten that is a double. -/
def mostPower : Nat := 308

/-- The double nearest to a power of ten up to the greatest. -/
def powerOfTen (k : Nat) : Magnitude :=
  (ofRatio? (Nat.pow 10 k) 1).getD zero

/-- A magnitude times a power of ten; nothing if it is too large. -/
def timesPowerOfTen? (x : Magnitude) (k : Int) : Option Magnitude :=
  if 0 ≤ k then
    if k.toNat ≤ mostPower then x.mul? (powerOfTen k.toNat)
    else if x.significand = 0 then some x
    else none
  else if (-k).toNat ≤ mostPower then x.div? (powerOfTen (-k).toNat)
  else if x.significand = 0 then some x
  else do timesPowerOfTen? (← x.div? (powerOfTen mostPower)) (k + mostPower)
termination_by (-k).toNat
decreasing_by simp only [mostPower] at *; omega

end Magnitude

namespace Binary64

/-- The double that a decimal `digits · 10 ^ exponent` is read as; nothing if it is too large. -/
def ofDecimal? (negative : Bool) (digits : Nat) (exponent : Int) : Option Binary64 := do
  let whole ← Magnitude.ofRatio? digits 1
  return ⟨negative, ← whole.timesPowerOfTen? exponent⟩

end Binary64

end PrimitiveAbi.Decimal
