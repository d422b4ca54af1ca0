import Mathlib.Data.Nat.Digits.Defs
import PrimitiveAbi.Memory
import PrimitiveAbi.Proofs.Trace

/-!
# Bytes that stores of many types leave

A store changes the bytes of its range, to the bytes of its value with the low one first
(`Memory.getElem?_store`), and a load changes none. So after any accesses a byte is the last one that
a store has put there, whatever the types of the stores before and after it
(`Memory.byte_bufferAfter`), and a load reads what the latest stores have left in its range.
-/

namespace PrimitiveAbi

namespace IntegerType

/-- The integer of the type that is the same modulo its size: from zero on, or around zero if the
type is signed. -/
def wrap (t : IntegerType) (value : Int) : Int :=
  match t.signedness with
  | .unsigned => value % 2 ^ (8 * t.width.bytes)
  | .signed => value.bmod (2 ^ (8 * t.width.bytes))

/-- The integer that bytes stand for, the low one first; in a signed type, numbers of its upper half
stand for those below zero. -/
def reading (t : IntegerType) (bytes : List UInt8) : Int :=
  let n : Nat := Nat.ofDigits 256 (bytes.map UInt8.toNat)
  match t.signedness with
  | .unsigned => n
  | .signed => if 2 * n < 2 ^ (8 * t.width.bytes) then n else n - 2 ^ (8 * t.width.bytes)

end IntegerType

namespace Memory

/-! ### Numbers as bytes -/

theorem pow_bytes (count : Nat) : 256 ^ count = 2 ^ (8 * count) :=
  (Nat.pow_mul 2 8 count).symm

theorem getElem?_encode {count j : Nat} (h : j < count) (n : Nat) :
    (encode count n)[j]? = some (UInt8.ofNat (n / 256 ^ j)) := by
  induction j generalizing count n with
  | zero =>
    obtain ⟨count, rfl⟩ := Nat.exists_eq_add_of_lt h
    simp [encode]
  | succ j ih =>
    cases count with
    | zero => omega
    | succ count =>
      rw [encode, List.getElem?_cons_succ, ih (by omega), Nat.div_div_eq_div_mul, Nat.pow_succ']

theorem decode_encode (count n : Nat) : decode (encode count n) = n % 256 ^ count := by
  induction count generalizing n with
  | zero => rw [encode, decode, Nat.pow_zero, Nat.mod_one]
  | succ count ih =>
    have hbyte : (UInt8.ofNat n).toNat = n % 256 := UInt8.toNat_ofNat'
    rw [encode, decode, ih, hbyte, Nat.pow_succ', Nat.mod_mul]

theorem decode_eq_ofDigits (bytes : List UInt8) :
    decode bytes = Nat.ofDigits 256 (bytes.map UInt8.toNat) := by
  induction bytes with
  | nil => rfl
  | cons b bytes ih => rw [decode, ih, List.map_cons, Nat.ofDigits_cons]

theorem decode_lt (bytes : List UInt8) : decode bytes < 2 ^ (8 * bytes.length) := by
  induction bytes with
  | nil => exact Nat.one_pos
  | cons b bytes ih =>
    have hb := b.toNat_lt
    rw [← pow_bytes] at ih ⊢
    rw [decode, List.length_cons, Nat.pow_succ']
    omega

/-! ### Loads and stores -/

/-- The bytes of a range. -/
def bytesAt (buffer : List UInt8) (offset count : Nat) : List UInt8 :=
  (buffer.drop offset).take count

section

variable {t : IntegerType} {offset : Nat} {value : Int} {buffer : List UInt8}

theorem toInt_reduce (t : IntegerType) (value : Int) :
    t.signedness.toInt (reduce t value) = t.wrap value := by
  rw [IntegerType.wrap]
  cases t.signedness with
  | unsigned => exact toNat_ofInt_eq_emod _ value
  | signed => exact BitVec.toInt_ofInt value

theorem toInt_decode {bytes : List UInt8} (h : bytes.length = t.width.bytes) :
    t.signedness.toInt (BitVec.ofNat (8 * t.width.bytes) (decode bytes)) = t.reading bytes := by
  have hlt := decode_lt bytes
  rw [h] at hlt
  have hnat : (BitVec.ofNat (8 * t.width.bytes) (decode bytes)).toNat = decode bytes := by
    rw [BitVec.toNat_ofNat, Nat.mod_eq_of_lt hlt]
  rw [IntegerType.reading, ← decode_eq_ofDigits]
  cases t.signedness with
  | unsigned => rw [Signedness.toInt_unsigned, hnat]
  | signed =>
    rw [Signedness.toInt_signed, BitVec.toInt_eq_toNat_cond, hnat, Int.natCast_pow]
    rfl

/-- A load reads the bytes of its range. -/
theorem load_eq_reading (h : offset + t.width.bytes ≤ buffer.length) :
    load t offset buffer = t.reading (bytesAt buffer offset t.width.bytes) := by
  refine toInt_decode ?_
  rw [List.length_take, List.length_drop]
  omega

theorem bytesAt_store (h : offset + t.width.bytes ≤ buffer.length) :
    bytesAt (store t offset value buffer) offset t.width.bytes =
      encode t.width.bytes (reduce t value).toNat := by
  have hfront : (buffer.take offset).length = offset := by
    rw [List.length_take]
    omega
  rw [bytesAt, store, List.append_assoc, List.drop_left' hfront,
    List.take_left' (length_encode _ _)]

/-- A load from the range of a store of the same type reads the value that was stored. -/
theorem load_store (h : offset + t.width.bytes ≤ buffer.length) :
    load t offset (store t offset value buffer) = t.wrap value := by
  have hlt := (reduce t value).isLt
  have hbits : BitVec.ofNat (8 * t.width.bytes)
      (decode (encode t.width.bytes (reduce t value).toNat)) = reduce t value := by
    apply BitVec.eq_of_toNat_eq
    rw [decode_encode, pow_bytes, Nat.mod_eq_of_lt hlt, BitVec.ofNat_toNat, BitVec.setWidth_eq]
  rw [load, ← bytesAt, bytesAt_store h, hbits, toInt_reduce]

theorem getElem?_store (h : offset + t.width.bytes ≤ buffer.length) (k : Nat) :
    (store t offset value buffer)[k]? =
      if offset ≤ k ∧ k < offset + t.width.bytes then
        (encode t.width.bytes (reduce t value).toNat)[k - offset]?
      else buffer[k]? := by
  have hfront : (buffer.take offset).length = offset := by
    rw [List.length_take]
    omega
  rw [store, List.append_assoc, List.getElem?_append, hfront, List.getElem?_append, length_encode]
  by_cases hbefore : k < offset
  · rw [if_pos hbefore, if_neg (by omega), List.getElem?_take_of_lt hbefore]
  · rw [if_neg hbefore]
    by_cases hinside : k < offset + t.width.bytes
    · rw [if_pos (by omega), if_pos (by omega)]
    · rw [if_neg (by omega), if_neg (by omega), List.getElem?_drop]
      congr 1
      omega

/-- Stores to ranges that have no byte in common may be exchanged. -/
theorem store_comm {t' : IntegerType} {offset' : Nat} {value' : Int}
    (h : offset + t.width.bytes ≤ buffer.length) (h' : offset' + t'.width.bytes ≤ buffer.length)
    (happart : offset + t.width.bytes ≤ offset' ∨ offset' + t'.width.bytes ≤ offset) :
    store t' offset' value' (store t offset value buffer) =
      store t offset value (store t' offset' value' buffer) := by
  apply List.ext_getElem?
  intro k
  have hlength : (store t offset value buffer).length = buffer.length := length_store h
  have hlength' : (store t' offset' value' buffer).length = buffer.length := length_store h'
  rw [getElem?_store (by omega), getElem?_store h, getElem?_store (by omega), getElem?_store h']
  by_cases hk : offset ≤ k ∧ k < offset + t.width.bytes
  · have hk' : ¬ (offset' ≤ k ∧ k < offset' + t'.width.bytes) := by omega
    rw [if_pos hk, if_neg hk', if_pos hk]
  · rw [if_neg hk, if_neg hk]

end

/-! ### One access -/

namespace Access

instance (a : Access) (size : Nat) : Decidable (a.InRange size) :=
  inferInstanceAs (Decidable (_ ∧ _))

/-- The ranges of the accesses have no byte in common. -/
def Apart (a b : Access) : Prop :=
  a.offset + a.type.width.bytes ≤ b.offset ∨ b.offset + b.type.width.bytes ≤ a.offset

/-- The byte that a store puts at a place: of its value in the type, the low byte in front. -/
def byteAt? (a : Access) (k : Nat) : Option UInt8 :=
  if a.offset ≤ k ∧ k < a.offset + a.type.width.bytes then
    a.value.map fun v =>
      UInt8.ofNat ((v % 2 ^ (8 * a.type.width.bytes)).toNat / 256 ^ (k - a.offset))
  else none

variable {a : Access} {buffer : List UInt8}

theorem length_perform (h : a.InRange buffer.length) :
    (a.perform buffer).2.length = buffer.length := by
  rw [perform]
  cases a.value with
  | none => rfl
  | some v => exact length_store h.2

/-- The step lemma: a byte is the one that the access puts there, or as it was. -/
theorem getElem?_perform (h : a.InRange buffer.length) {k : Nat} {b : UInt8}
    (hb : buffer[k]? = some b) : (a.perform buffer).2[k]? = some ((a.byteAt? k).getD b) := by
  rw [perform, byteAt?]
  cases a.value with
  | none => rw [Option.map_none, ite_self, Option.getD_none, hb]
  | some v =>
    show (store a.type a.offset v buffer)[k]? = _
    rw [getElem?_store h.2]
    by_cases hk : a.offset ≤ k ∧ k < a.offset + a.type.width.bytes
    · have hj : k - a.offset < a.type.width.bytes := by omega
      rw [if_pos hk, if_pos hk, getElem?_encode hj, reduce, BitVec.toNat_ofInt, Int.natCast_pow]
      rfl
    · rw [if_neg hk, if_neg hk, hb, Option.getD_none]

/-- Accesses to ranges without a common byte leave the same buffer in either order. -/
theorem perform_comm {b : Access} (ha : a.InRange buffer.length) (hb : b.InRange buffer.length)
    (h : a.Apart b) :
    (b.perform (a.perform buffer).2).2 = (a.perform (b.perform buffer).2).2 := by
  rw [perform, perform, perform, perform]
  cases a.value with
  | none => rfl
  | some v =>
    cases b.value with
    | none => rfl
    | some w => exact store_comm ha.2 hb.2 h

end Access

/-! ### A run of accesses -/

/-- The buffer that the last of some accesses leaves. -/
def bufferAfter (buffer : List UInt8) (accesses : List Access) : List UInt8 :=
  ((performAll buffer accesses).map Prod.snd).getLastD buffer

section

variable {buffer : List UInt8} {accesses : List Access}

theorem bufferAfter_cons (buffer : List UInt8) (a : Access) (accesses : List Access) :
    bufferAfter buffer (a :: accesses) = bufferAfter (a.perform buffer).2 accesses := by
  rw [bufferAfter, performAll, List.map_cons, List.getLastD_cons, bufferAfter]

theorem bufferAfter_append (buffer : List UInt8) (front behind : List Access) :
    bufferAfter buffer (front ++ behind) = bufferAfter (bufferAfter buffer front) behind := by
  induction front generalizing buffer with
  | nil => rfl
  | cons a front ih => rw [List.cons_append, bufferAfter_cons, bufferAfter_cons, ih]

theorem length_bufferAfter (h : ∀ a ∈ accesses, a.InRange buffer.length) :
    (bufferAfter buffer accesses).length = buffer.length := by
  induction accesses generalizing buffer with
  | nil => rfl
  | cons a accesses ih =>
    obtain ⟨ha, hrest⟩ := List.forall_mem_cons.1 h
    have hlength := Access.length_perform ha
    rw [bufferAfter_cons, ih (by rwa [hlength]), hlength]

/-- The run lemma: a byte is the last one that an access puts there, or as it was. -/
theorem getElem?_bufferAfter (h : ∀ a ∈ accesses, a.InRange buffer.length) {k : Nat} {b : UInt8}
    (hb : buffer[k]? = some b) :
    (bufferAfter buffer accesses)[k]? = some ((accesses.filterMap (·.byteAt? k)).getLastD b) := by
  induction accesses generalizing buffer b with
  | nil => exact hb
  | cons a accesses ih =>
    obtain ⟨ha, hrest⟩ := List.forall_mem_cons.1 h
    have hbyte := Access.getElem?_perform ha hb
    rw [bufferAfter_cons, ih (by rwa [Access.length_perform ha]) hbyte]
    rw [List.filterMap_cons]
    cases a.byteAt? k with
    | none => rfl
    | some c => exact congrArg some (List.getLastD_cons ..).symm

theorem length_performAll (buffer : List UInt8) (accesses : List Access) :
    (performAll buffer accesses).length = accesses.length := by
  induction accesses generalizing buffer with
  | nil => rfl
  | cons a accesses ih => rw [performAll, List.length_cons, ih, List.length_cons]

theorem performAll_append (buffer : List UInt8) (front behind : List Access) :
    performAll buffer (front ++ behind) =
      performAll buffer front ++ performAll (bufferAfter buffer front) behind := by
  induction front generalizing buffer with
  | nil => rfl
  | cons a front ih =>
    rw [List.cons_append, performAll, performAll, ih, bufferAfter_cons]
    rfl

/-- What an access yields is known from the accesses before it. -/
theorem getElem?_performAll (buffer : List UInt8) (front behind : List Access) (a : Access) :
    (performAll buffer (front ++ a :: behind))[front.length]? =
      some (a.perform (bufferAfter buffer front)) := by
  rw [performAll_append, List.getElem?_append_right (by rw [length_performAll]),
    length_performAll, Nat.sub_self, performAll, List.getElem?_cons_zero]

end

/-- After accesses to a buffer of zeros, a byte is the last one that a store has put there, or still
zero, and the size is what it was. A load leaves the buffer as it is and reads the bytes of its
range, so right after a store in its place and of its type it reads the value reduced into the type.
Stores to ranges without a common byte leave the same buffer in either order. -/
theorem bytes_of_latest_stores :
    (∀ (size : Nat) (accesses : List Access), (∀ a ∈ accesses, a.InRange size) →
      (bufferAfter (zeroed size) accesses).length = size ∧
      (∀ k < size, (bufferAfter (zeroed size) accesses)[k]? =
        some ((accesses.filterMap (·.byteAt? k)).getLastD 0)) ∧
      (∀ front t offset behind, accesses = front ++ ⟨t, offset, none⟩ :: behind →
        let before := bufferAfter (zeroed size) front
        (performAll (zeroed size) accesses)[front.length]? =
          some (some (t.reading (bytesAt before offset t.width.bytes)), before)) ∧
      ∀ front t offset value behind,
        accesses = front ++ ⟨t, offset, some value⟩ :: ⟨t, offset, none⟩ :: behind →
        ∃ buffer, (performAll (zeroed size) accesses)[front.length + 1]? =
          some (some (t.wrap value), buffer)) ∧
    ∀ (buffer : List UInt8) (a b : Access), a.InRange buffer.length → b.InRange buffer.length →
      a.Apart b → bufferAfter buffer [a, b] = bufferAfter buffer [b, a] := by
  refine ⟨?_, fun buffer a b ha hb hapart => Access.perform_comm ha hb hapart⟩
  intro size accesses h
  have hsize : (zeroed size).length = size := List.length_replicate
  have hlength : ∀ front behind, accesses = front ++ behind →
      (bufferAfter (zeroed size) front).length = size := by
    rintro front behind rfl
    rw [length_bufferAfter, hsize]
    rw [hsize]
    exact fun a ha => h a (List.mem_append_left behind ha)
  refine ⟨hlength accesses [] (List.append_nil _).symm, ?_, ?_, ?_⟩
  · intro k hk
    refine getElem?_bufferAfter (by rwa [hsize]) ?_
    rw [zeroed, List.getElem?_replicate, if_pos hk]
  · rintro front t offset behind rfl
    have hrange := (h ⟨t, offset, none⟩ (by simp)).2
    rw [← hlength front _ rfl] at hrange
    rw [getElem?_performAll]
    exact congrArg (fun r => some (some r, _)) (load_eq_reading hrange)
  · rintro front t offset value behind rfl
    have hrange := (h ⟨t, offset, none⟩ (by simp)).2
    rw [← hlength front _ rfl] at hrange
    have hload := getElem?_performAll (zeroed size) (front ++ [⟨t, offset, some value⟩]) behind
      ⟨t, offset, none⟩
    rw [List.append_assoc, List.length_append, bufferAfter_append] at hload
    exact ⟨_, hload.trans (congrArg (fun r => some (some r, _)) (load_store hrange))⟩

/-- Stores that overlap in part: of a negative word the second byte and the last are stored over, with
values that do not fit, and the other two are left. -/
theorem bytes_of_latest_stores_overlapping :
    let word : IntegerType := ⟨.four, .signed⟩
    let octet : IntegerType := ⟨.one, .signed⟩
    let accesses : List Access := [⟨word, 4, some (-2)⟩, ⟨⟨.one, .unsigned⟩, 5, some 300⟩,
      ⟨octet, 7, some 200⟩, ⟨octet, 7, none⟩, ⟨⟨.two, .unsigned⟩, 4, none⟩]
    (∀ a ∈ accesses, a.InRange 8) ∧
      [3, 4, 5, 6, 7].map (fun k => (bufferAfter (zeroed 8) accesses)[k]?) =
        [some 0, some 0xfe, some 0x2c, some 0xff, some 0xc8] ∧
      (∃ buffer, (performAll (zeroed 8) accesses)[3]? = some (some (-56), buffer)) ∧
      (∃ buffer, (performAll (zeroed 8) accesses)[4]? = some (some 0x2cfe, buffer)) ∧
      bufferAfter (zeroed 8) [⟨octet, 7, some 200⟩, ⟨word, 0, some (-1)⟩] =
        bufferAfter (zeroed 8) [⟨word, 0, some (-1)⟩, ⟨octet, 7, some 200⟩] := by
  intro word octet accesses
  have hrange : ∀ a ∈ accesses, a.InRange 8 := by decide
  obtain ⟨hrun, hapart⟩ := bytes_of_latest_stores
  obtain ⟨-, hbytes, hloads, hagain⟩ := hrun 8 accesses hrange
  refine ⟨hrange, ?_, ?_, ?_, ?_⟩
  · rw [List.map_cons, List.map_cons, List.map_cons, List.map_cons, List.map_cons, List.map_nil,
      hbytes 3 (by decide), hbytes 4 (by decide), hbytes 5 (by decide), hbytes 6 (by decide),
      hbytes 7 (by decide)]
    decide
  · have hwrap : octet.wrap 200 = -56 := by decide
    rw [← hwrap]
    exact hagain (accesses.take 2) octet 7 200 (accesses.drop 4) rfl
  · have hreading : IntegerType.reading ⟨.two, .unsigned⟩
        (bytesAt (bufferAfter (zeroed 8) (accesses.take 4)) 4 2) = 0x2cfe := by decide
    rw [← hreading]
    exact ⟨_, hloads (accesses.take 4) ⟨.two, .unsigned⟩ 4 [] rfl⟩
  · exact hapart _ _ _ (by decide) (by decide) (.inr (by decide))

end Memory

end PrimitiveAbi
