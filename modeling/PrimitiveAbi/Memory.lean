import PrimitiveAbi.Arithmetic

/-!
# Bytes in memory

Loads and stores of fixed-width integers in a buffer of bytes, the low byte first. A store reduces
its value into the type; a load reads the same bytes with the signedness of the type.
-/

namespace PrimitiveAbi

/-- An integer type of one, two, four or eight bytes. -/
inductive Width where
  | one
  | two
  | four
  | eight
  deriving DecidableEq, Repr

def Width.bytes : Width → Nat
  | .one => 1
  | .two => 2
  | .four => 4
  | .eight => 8

structure IntegerType where
  width : Width
  signedness : Signedness
  deriving DecidableEq, Repr

namespace Memory

/-- The low bytes of a number, the lowest first. -/
def encode : Nat → Nat → List UInt8
  | 0, _ => []
  | count + 1, n => UInt8.ofNat n :: encode count (n / 256)

/-- The number whose bytes these are, the lowest first. -/
def decode : List UInt8 → Nat
  | [] => 0
  | b :: rest => b.toNat + 256 * decode rest

/-- The value of a type that an integer is reduced to. -/
def reduce (t : IntegerType) (value : Int) : BitVec (8 * t.width.bytes) :=
  BitVec.ofInt _ value

/-- The integer of a type at an offset. -/
def load (t : IntegerType) (offset : Nat) (buffer : List UInt8) : Int :=
  t.signedness.toInt
    (BitVec.ofNat (8 * t.width.bytes) (decode ((buffer.drop offset).take t.width.bytes)))

/-- The buffer with an integer stored at an offset. -/
def store (t : IntegerType) (offset : Nat) (value : Int) (buffer : List UInt8) : List UInt8 :=
  buffer.take offset ++ encode t.width.bytes (reduce t value).toNat ++
    buffer.drop (offset + t.width.bytes)

/-- A load, or a store of a value. -/
structure Access where
  type : IntegerType
  offset : Nat
  value : Option Int
  deriving DecidableEq, Repr

/-- An access keeps to the buffer and to the alignment of its type. -/
def Access.InRange (a : Access) (size : Nat) : Prop :=
  a.offset % a.type.width.bytes = 0 ∧ a.offset + a.type.width.bytes ≤ size

/-- What an access yields and the buffer after it; a store yields nothing. -/
def Access.perform (a : Access) (buffer : List UInt8) : Option Int × List UInt8 :=
  match a.value with
  | none => (some (load a.type a.offset buffer), buffer)
  | some value => (none, store a.type a.offset value buffer)

/-- Performs accesses in order, each with what it yields and the buffer after it. -/
def performAll : List UInt8 → List Access → List (Option Int × List UInt8)
  | _, [] => []
  | buffer, a :: rest =>
      let first := a.perform buffer
      first :: performAll first.2 rest

/-- A buffer of zeros. -/
def zeroed (size : Nat) : List UInt8 := List.replicate size 0

theorem length_encode (count n : Nat) : (encode count n).length = count := by
  induction count generalizing n with
  | zero => rfl
  | succ count ih => simp [encode, ih]

theorem length_store {t : IntegerType} {offset : Nat} {value : Int} {buffer : List UInt8}
    (h : offset + t.width.bytes ≤ buffer.length) :
    (store t offset value buffer).length = buffer.length := by
  simp only [store, List.length_append, List.length_take, List.length_drop, length_encode]
  omega

end Memory

end PrimitiveAbi
