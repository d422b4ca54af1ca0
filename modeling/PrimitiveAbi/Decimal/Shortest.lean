import PrimitiveAbi.Decimal.Binary64

/-!
# The shortest decimal of a double

Of all decimals that round to a double the shortest are chosen, and of those the nearest. A grid of
decimals `d · 10 ^ g` has a point in the interval that rounds to the double exactly when one of the
two neighbours of the double on the grid lies there, so grids are tried from the coarsest on. How
the digits are laid out is the record `Layout`.
-/

namespace PrimitiveAbi.Decimal

/-- A decimal `digits · 10 ^ exponent`. -/
structure Figure where
  digits : Nat
  exponent : Int
  deriving DecidableEq, Repr

/-- Numerator and denominator of `num / den / 10 ^ exponent`. -/
def scaledTen (num den : Nat) (exponent : Int) : Nat × Nat :=
  (num * Nat.pow 10 (-exponent).toNat, den * Nat.pow 10 exponent.toNat)

namespace Magnitude

/-- The ends of the interval that rounds to a magnitude, in quarters of its last place: the ends
belong to it when the significand is even. -/
def quarters (x : Magnitude) : Nat × Nat :=
  let narrow := x.significand = 1 <<< 52 ∧ leastExponent < x.exponent
  (4 * x.significand - (if narrow then 1 else 2), 4 * x.significand + 2)

/-- Whether a quotient, in quarters of the last place, rounds to the magnitude. -/
def holds (x : Magnitude) (num den : Nat) : Bool :=
  let (low, high) := x.quarters
  if x.significand % 2 = 0 then low * den ≤ num && num ≤ high * den
  else low * den < num && num < high * den

/-- The point of a decimal grid next to the magnitude that rounds to it, the nearer one of two. -/
def onGrid? (x : Magnitude) (grid : Int) : Option Figure :=
  let (n, d) := scaled (4 * x.significand) 1 (2 - x.exponent)
  let (n, d) := scaledTen n d grid
  let floor := n / d
  let rounds (digits : Nat) : Bool :=
    let (a, b) := scaledTen digits 1 (-grid)
    let (a, b) := scaled a b (x.exponent - 2)
    x.holds a b
  if rounds floor && rounds (floor + 1) then some ⟨roundQuotient n d, grid⟩
  else if rounds floor then some ⟨floor, grid⟩
  else if rounds (floor + 1) then some ⟨floor + 1, grid⟩
  else none

/-- A grid on which no decimal but zero is as small as the magnitude. -/
def coarsest (x : Magnitude) : Int :=
  (x.significand.log2 + 1 + x.exponent) * 30103 / 100000 + 1

/-- The shortest decimal that rounds to a magnitude above zero, and of those the nearest. -/
def shortest (x : Magnitude) : Figure :=
  ((List.range 24).findSome? fun (i : Nat) => x.onGrid? (x.coarsest - i)).getD ⟨0, 0⟩

end Magnitude

/-- How a decimal is laid out. -/
structure Layout where
  /-- The exponents of the first digit for which the point is written in place. -/
  leastPlain : Int
  mostPlain : Int
  deriving DecidableEq, Repr

/-- Numbers in messages: the point in place from `0.00001` to below `1e+16`, and an exponent
elsewhere. -/
def messageLayout : Layout := ⟨-5, 15⟩

namespace Layout

/-- Digits with a point after the first few; a part left empty is written as one zero. -/
def plain (digits : List Char) (point : Int) : List Char :=
  if point ≤ 0 then '0' :: '.' :: List.replicate (-point).toNat '0' ++ digits
  else
    let whole := digits.take point.toNat
    let fraction := digits.drop point.toNat
    whole ++ List.replicate (point.toNat - whole.length) '0' ++
      '.' :: (if fraction.isEmpty then ['0'] else fraction)

/-- An exponent: its sign, also of one above zero, and its digits. -/
def exponentText (exponent : Int) : List Char :=
  (if exponent < 0 then '-' else '+') :: Nat.toDigits 10 exponent.natAbs

/-- The digits of a figure without its closing zeros. -/
def significant (f : Figure) : List Char :=
  ((Nat.toDigits 10 f.digits).reverse.dropWhile (· = '0')).reverse

/-- A decimal above zero. -/
def write (l : Layout) (f : Figure) : List Char :=
  let digits := significant f
  let first := f.exponent + (Nat.toDigits 10 f.digits).length - 1
  if l.leastPlain ≤ first ∧ first ≤ l.mostPlain then plain digits (first + 1)
  else
    digits.take 1 ++ (if digits.length ≤ 1 then [] else '.' :: digits.drop 1) ++
      'e' :: exponentText first

end Layout

/-- The text of a double in messages. -/
def Binary64.text (x : Binary64) : String :=
  String.ofList ((if x.negative then ['-'] else []) ++
    if x.magnitude.significand = 0 then ['0', '.', '0']
    else messageLayout.write x.magnitude.shortest)

end PrimitiveAbi.Decimal
