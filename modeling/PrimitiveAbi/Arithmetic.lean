/-!
# Words of 32 bits

The arithmetic that both surfaces share. A word is a pattern of 32 bits; signedness says how it is
read as an integer. Overflow wraps, division truncates toward zero, the remainder takes the sign of
the dividend, and the one failure is a zero divisor.
-/

namespace PrimitiveAbi

/-- How a pattern of bits is read as an integer. -/
inductive Signedness where
  | signed
  | unsigned
  deriving DecidableEq, Repr

namespace Signedness

def name : Signedness → String
  | .signed => "signed"
  | .unsigned => "unsigned"

/-- The integer that a pattern of bits stands for. -/
def toInt {w : Nat} : Signedness → BitVec w → Int
  | .signed, x => x.toInt
  | .unsigned, x => x.toNat

@[simp] theorem toInt_signed {w : Nat} (x : BitVec w) : signed.toInt x = x.toInt := rfl

@[simp] theorem toInt_unsigned {w : Nat} (x : BitVec w) : unsigned.toInt x = x.toNat := rfl

/-- Either reading determines the bits. -/
theorem ofInt_toInt {w : Nat} (s : Signedness) (x : BitVec w) : BitVec.ofInt w (s.toInt x) = x := by
  cases s <;> simp

end Signedness

/-- A binary operator on words. -/
inductive Operator where
  | add
  | sub
  | mul
  | div
  | rem
  | lt
  | gt
  | eql
  deriving DecidableEq, Repr

/-- An operation that a zero divisor rules out. -/
inductive DivisionError where
  | quotient
  | remainder
  deriving DecidableEq, Repr

def DivisionError.message : DivisionError → String
  | .quotient => "attempt to divide by zero"
  | .remainder => "attempt to calculate the remainder with a divisor of zero"

/-- The word that stands for a truth value. -/
def truth (b : Bool) : BitVec 32 :=
  if b then 1 else 0

/-- Logical negation: 1 for zero and 0 for any other word. -/
def logicalNot (x : BitVec 32) : BitVec 32 :=
  truth (x = 0)

namespace Operator

def name : Operator → String
  | .add => "add"
  | .sub => "sub"
  | .mul => "mul"
  | .div => "div"
  | .rem => "rem"
  | .lt => "lt"
  | .gt => "gt"
  | .eql => "eql"

def isComparison : Operator → Bool
  | .lt | .gt | .eql => true
  | _ => false

/-- The quotient truncated toward zero; the least signed word over -1 wraps to itself. -/
def quotient : Signedness → BitVec 32 → BitVec 32 → BitVec 32
  | .signed, a, b => a.sdiv b
  | .unsigned, a, b => a.udiv b

/-- The remainder that goes with `quotient`. -/
def remainder : Signedness → BitVec 32 → BitVec 32 → BitVec 32
  | .signed, a, b => a.srem b
  | .unsigned, a, b => a.umod b

/-- Whether one word is below another. -/
def below : Signedness → BitVec 32 → BitVec 32 → Bool
  | .signed, a, b => a.slt b
  | .unsigned, a, b => a.ult b

/-- The value of an operator on two words; comparisons yield 1 or 0. -/
def eval (s : Signedness) : Operator → BitVec 32 → BitVec 32 → Except DivisionError (BitVec 32)
  | .add, a, b => .ok (a + b)
  | .sub, a, b => .ok (a - b)
  | .mul, a, b => .ok (a * b)
  | .div, a, b => if b = 0 then .error .quotient else .ok (quotient s a b)
  | .rem, a, b => if b = 0 then .error .remainder else .ok (remainder s a b)
  | .lt, a, b => .ok (truth (below s a b))
  | .gt, a, b => .ok (truth (below s b a))
  | .eql, a, b => .ok (truth (a = b))

end Operator

end PrimitiveAbi
