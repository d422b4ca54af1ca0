import PrimitiveAbi.Proofs.Abort

/-!
# Quotients and remainders

A division that has a result splits the dividend: the quotient times the divisor and the remainder
are the dividend again, and the remainder is smaller than the divisor
(`Operator.signedDivision`, `Operator.unsignedDivision`). Signed quotients are truncated toward zero,
so the remainder takes the sign of the dividend; the one quotient that is no signed word is that of
the least word by -1.
-/

namespace PrimitiveAbi

namespace Operator

/-- What a signed division leaves of a word. -/
structure SignedDivision (a b q r : BitVec 32) : Prop where
  /-- The product and the sum that give the dividend back may wrap. -/
  whole : ∃ p, mul.eval .signed q b = .ok p ∧ add.eval .signed p r = .ok a
  smaller : r.toInt.natAbs < b.toInt.natAbs
  sign : r.toInt = 0 ∨ r.toInt.sign = a.toInt.sign
  truncated : ¬ (a.toInt = -2 ^ 31 ∧ b.toInt = -1) → q.toInt = a.toInt.tdiv b.toInt
  overflow : a.toInt = -2 ^ 31 → b.toInt = -1 → q.toInt = -2 ^ 31 ∧ r.toInt = 0

/-- What an unsigned division leaves of a word; nothing wraps. -/
structure UnsignedDivision (a b q r : BitVec 32) : Prop where
  whole : q.toNat * b.toNat + r.toNat = a.toNat
  smaller : r.toNat < b.toNat

/-! ### Signed words -/

section

variable {w : Nat} (a b : BitVec w)

theorem sdiv_eq_ofInt : a.sdiv b = .ofInt w (a.toInt.tdiv b.toInt) := by
  apply BitVec.eq_of_toInt_eq
  rw [BitVec.toInt_sdiv, BitVec.toInt_ofInt]

theorem srem_eq_ofInt : a.srem b = .ofInt w (a.toInt.tmod b.toInt) := by
  rw [← BitVec.toInt_srem, BitVec.ofInt_toInt]

/-- The identity of division, wherever it wraps. -/
theorem sdiv_mul_add_srem : a.sdiv b * b + a.srem b = a := by
  calc a.sdiv b * b + a.srem b
    _ = .ofInt w (a.toInt.tdiv b.toInt) * .ofInt w b.toInt + .ofInt w (a.toInt.tmod b.toInt) := by
      rw [sdiv_eq_ofInt, srem_eq_ofInt, BitVec.ofInt_toInt]
    _ = .ofInt w (a.toInt.tdiv b.toInt * b.toInt + a.toInt.tmod b.toInt) := by
      rw [BitVec.ofInt_add, BitVec.ofInt_mul]
    _ = a := by rw [Int.tdiv_mul_add_tmod, BitVec.ofInt_toInt]

end

theorem signedDivision {a b : BitVec 32} (hb : b ≠ 0) :
    SignedDivision a b (a.sdiv b) (a.srem b) where
  whole := ⟨a.sdiv b * b, rfl, by rw [eval, sdiv_mul_add_srem]⟩
  smaller := by
    have hpos : b.toInt.natAbs ≠ 0 := by
      intro hzero
      exact hb (BitVec.eq_of_toInt_eq (Int.natAbs_eq_zero.1 hzero))
    rw [BitVec.toInt_srem, Int.natAbs_tmod]
    exact Nat.mod_lt _ (Nat.pos_of_ne_zero hpos)
  sign := by
    rw [BitVec.toInt_srem, Int.sign_tmod]
    by_cases hdvd : b.toInt ∣ a.toInt
    · exact .inl (Int.tmod_eq_zero_of_dvd hdvd)
    · exact .inr (if_neg hdvd)
  truncated := by
    intro hfits
    apply BitVec.toInt_sdiv_of_ne_or_ne
    by_cases ha : a = BitVec.intMin 32
    · refine .inr ?_
      rintro rfl
      exact hfits ⟨by rw [ha]; decide, by decide⟩
    · exact .inl ha
  overflow := by
    intro ha hb
    obtain rfl : a = BitVec.intMin 32 := BitVec.eq_of_toInt_eq (ha.trans (by decide))
    obtain rfl : b = -1#32 := BitVec.eq_of_toInt_eq (hb.trans (by decide))
    decide

/-! ### Unsigned words -/

theorem unsignedDivision {a b : BitVec 32} (hb : b ≠ 0) :
    UnsignedDivision a b (a.udiv b) (a.umod b) where
  whole := by
    show (a / b).toNat * b.toNat + (a % b).toNat = a.toNat
    rw [BitVec.toNat_udiv, BitVec.toNat_umod, Nat.div_add_mod']
  smaller := by
    have hpos : b.toNat ≠ 0 := fun hzero => hb (BitVec.eq_of_toNat_eq hzero)
    show (a % b).toNat < b.toNat
    rw [BitVec.toNat_umod]
    exact Nat.mod_lt _ (Nat.pos_of_ne_zero hpos)

/-- By every word but zero each dividend has a quotient and a remainder, which give it back; division
and remainder by zero fail, and nothing else does. -/
theorem division_splits_dividend :
    (∀ a b : BitVec 32, b ≠ 0 → ∃ q r, div.eval .signed a b = .ok q ∧
      rem.eval .signed a b = .ok r ∧ SignedDivision a b q r) ∧
    (∀ a b : BitVec 32, b ≠ 0 → ∃ q r, div.eval .unsigned a b = .ok q ∧
      rem.eval .unsigned a b = .ok r ∧ UnsignedDivision a b q r) ∧
    ∀ (s : Signedness) (op : Operator) (a b : BitVec 32),
      (∃ e, op.eval s a b = .error e) ↔ (op = .div ∨ op = .rem) ∧ b = 0 := by
  refine ⟨?_, ?_, fun s op a b => exists_eval_eq_error_iff⟩
  · intro a b hb
    exact ⟨a.sdiv b, a.srem b, if_neg hb, if_neg hb, signedDivision hb⟩
  · intro a b hb
    exact ⟨a.udiv b, a.umod b, if_neg hb, if_neg hb, unsignedDivision hb⟩

/-- Below zero the quotient is truncated upwards, the least word by -1 is itself again, and the same
words are large numbers if they are unsigned. -/
theorem division_splits_dividend_below_zero :
    (∃ q r, div.eval .signed (-7) 2 = .ok q ∧ rem.eval .signed (-7) 2 = .ok r ∧
      q.toInt = -3 ∧ r.toInt.natAbs < 2) ∧
    (∃ q r, div.eval .signed (BitVec.intMin 32) (-1) = .ok q ∧
      rem.eval .signed (BitVec.intMin 32) (-1) = .ok r ∧ q.toInt = -2 ^ 31 ∧ r.toInt = 0) ∧
    ∃ q r, div.eval .unsigned (-7) 2 = .ok q ∧ rem.eval .unsigned (-7) 2 = .ok r ∧
      q.toNat * 2 + r.toNat = 4294967289 := by
  obtain ⟨hsigned, hunsigned, -⟩ := division_splits_dividend
  refine ⟨?_, ?_, ?_⟩
  · obtain ⟨q, r, hq, hr, h⟩ := hsigned (-7) 2 (by decide)
    exact ⟨q, r, hq, hr, h.truncated (by decide), h.smaller⟩
  · obtain ⟨q, r, hq, hr, h⟩ := hsigned (BitVec.intMin 32) (-1) (by decide)
    exact ⟨q, r, hq, hr, h.overflow (by decide) (by decide)⟩
  · obtain ⟨q, r, hq, hr, h⟩ := hunsigned (-7) 2 (by decide)
    exact ⟨q, r, hq, hr, h.whole⟩

end Operator

end PrimitiveAbi
