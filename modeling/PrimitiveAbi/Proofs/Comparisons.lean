import Mathlib.Logic.ExistsUnique
import Mathlib.Tactic.SplitIfs
import PrimitiveAbi.Proofs.Signedness

/-!
# Orders on words

The comparisons of words are those of the integers that the words stand for, so exactly one of them
holds (`Operator.eval_eq_one_iff`), and the order that they tell is strict and total. Equality is that
of the words, whichever way they are read. The unsigned order is the signed one of the words with
their sign bits flipped: flipping takes each unsigned integer to the signed one that lies `2 ^ 31`
below it (`toInt_xor_twoPow`).
-/

namespace PrimitiveAbi

/-- Either reading takes different words to different integers. -/
theorem Signedness.toInt_inj {w : Nat} (s : Signedness) {a b : BitVec w} :
    s.toInt a = s.toInt b ↔ a = b := by
  constructor
  · intro h
    rw [← s.ofInt_toInt a, h, s.ofInt_toInt]
  · exact congrArg s.toInt

theorem truth_eq_one_iff {t : Bool} : truth t = 1 ↔ t = true := by
  cases t <;> decide

/-! ### Flipping the sign bit -/

/-- To flip the sign bit is to add it, since nothing lies above it that it could be carried to. -/
theorem xor_twoPow_eq_add (a : BitVec 32) : a ^^^ .twoPow 32 31 = a + .twoPow 32 31 := by
  apply BitVec.eq_of_toNat_eq
  rw [BitVec.toNat_xor, BitVec.toNat_add, BitVec.toNat_twoPow_of_lt (by decide)]
  -- the low bits stay, and the high one, which is all that is left, changes
  have hlow : (a.toNat ^^^ 2 ^ 31) % 2 ^ 31 = a.toNat % 2 ^ 31 := by
    rw [Nat.xor_mod_two_pow, Nat.mod_self, Nat.xor_zero]
  have hhigh : (a.toNat ^^^ 2 ^ 31) / 2 ^ 31 = a.toNat / 2 ^ 31 ^^^ 1 := Nat.xor_div_two_pow
  have hbit : a.toNat / 2 ^ 31 = 0 ∨ a.toNat / 2 ^ 31 = 1 := by omega
  rcases hbit with hbit | hbit <;> rw [hbit] at hhigh
  · have hset : (a.toNat ^^^ 2 ^ 31) / 2 ^ 31 = 1 := hhigh
    omega
  · have hcleared : (a.toNat ^^^ 2 ^ 31) / 2 ^ 31 = 0 := hhigh
    omega

theorem toInt_xor_twoPow (a : BitVec 32) : (a ^^^ .twoPow 32 31).toInt = a.toNat - 2 ^ 31 := by
  rw [xor_twoPow_eq_add, BitVec.toInt_eq_toNat_cond, BitVec.toNat_add,
    BitVec.toNat_twoPow_of_lt (by decide)]
  split <;> omega

namespace Operator

/-! ### What a comparison tells -/

theorem below_iff {s : Signedness} {a b : BitVec 32} :
    below s a b = true ↔ s.toInt a < s.toInt b := by
  cases s with
  | signed => exact BitVec.slt_iff_toInt_lt
  | unsigned =>
    rw [below, BitVec.ult_iff_lt, BitVec.lt_def, Signedness.toInt_unsigned,
      Signedness.toInt_unsigned, Int.ofNat_lt]

/-- The comparison that two integers stand in. -/
def comparison (x y : Int) : Operator :=
  if x < y then lt else if y < x then gt else eql

theorem comparison_mem (x y : Int) : comparison x y ∈ [lt, gt, eql] := by
  unfold comparison
  split_ifs <;> decide

section

variable {s : Signedness} {a b : BitVec 32}

theorem eval_lt_eq_one_iff : lt.eval s a b = .ok 1 ↔ s.toInt a < s.toInt b := by
  rw [eval, Except.ok.injEq, truth_eq_one_iff, below_iff]

theorem eval_gt_eq_one_iff : gt.eval s a b = .ok 1 ↔ s.toInt b < s.toInt a := by
  rw [eval, Except.ok.injEq, truth_eq_one_iff, below_iff]

theorem eval_eql_eq_one_iff : eql.eval s a b = .ok 1 ↔ a = b := by
  rw [eval, Except.ok.injEq, truth_eq_one_iff, decide_eq_true_eq]

/-- The comparison that holds of two words is the one that their integers stand in. -/
theorem eval_eq_one_iff {op : Operator} (h : op ∈ [lt, gt, eql]) :
    op.eval s a b = .ok 1 ↔ op = comparison (s.toInt a) (s.toInt b) := by
  simp only [List.mem_cons, List.not_mem_nil, or_false] at h
  rcases h with rfl | rfl | rfl
  · rw [eval_lt_eq_one_iff]
    grind [comparison]
  · rw [eval_gt_eq_one_iff]
    grind [comparison]
  · rw [eval_eql_eq_one_iff, ← s.toInt_inj]
    grind [comparison]

theorem eval_eq_zero_or_one {op : Operator} (h : op ∈ [lt, gt, eql]) :
    op.eval s a b = .ok 0 ∨ op.eval s a b = .ok 1 := by
  have hcompares : op.isComparison = true := by
    revert h
    cases op <;> decide
  obtain ⟨t, ht⟩ := exists_eval_eq_truth (s := s) hcompares a b
  cases t with
  | false => exact .inl ht
  | true => exact .inr ht

theorem eval_sub_eq_zero_iff : sub.eval s a b = .ok 0 ↔ a = b := by
  rw [eval, Except.ok.injEq, BitVec.sub_eq_iff_eq_add, BitVec.ofNat_eq_ofNat, BitVec.zero_add]

/-- Words that are not equal are in order one way or the other. -/
theorem logicalNot_eql_iff : logicalNot (truth (a = b)) = 1 ↔
    lt.eval s a b = .ok 1 ∨ gt.eval s a b = .ok 1 := by
  have hnot : ∀ t, logicalNot (truth t) = 1 ↔ t = false := by decide
  rw [hnot, decide_eq_false_iff_not, ← s.toInt_inj, eval_lt_eq_one_iff, eval_gt_eq_one_iff]
  omega

end

/-- The unsigned order is the signed one of the words with flipped sign bits. -/
theorem below_xor_twoPow (a b : BitVec 32) :
    below .signed (a ^^^ .twoPow 32 31) (b ^^^ .twoPow 32 31) = below .unsigned a b := by
  rw [Bool.eq_iff_iff, below_iff, below_iff, Signedness.toInt_signed, Signedness.toInt_signed,
    toInt_xor_twoPow, toInt_xor_twoPow, Signedness.toInt_unsigned, Signedness.toInt_unsigned]
  omega

/-- Comparisons yield 1 or 0, and one of them yields 1: they are the strict and total order of the
integers that the words stand for, that order turned round, and equality, which is also told by the
difference. The unsigned order is the signed one of the words with their sign bits flipped. -/
theorem comparisons_order_words (s : Signedness) :
    (∀ a b, ∀ op ∈ [lt, gt, eql], op.eval s a b = .ok 0 ∨ op.eval s a b = .ok 1) ∧
    (∀ a b, ∃! op, op ∈ [lt, gt, eql] ∧ op.eval s a b = .ok 1) ∧
    (∀ a b, lt.eval s a b = .ok 1 ↔ s.toInt a < s.toInt b) ∧
    (∀ a b, lt.eval s a b = gt.eval s b a) ∧
    (∀ a b c, lt.eval s a b = .ok 1 → lt.eval s b c = .ok 1 → lt.eval s a c = .ok 1) ∧
    (∀ a b, eql.eval s a b = .ok 1 ↔ a = b) ∧
    (∀ a b, eql.eval s a b = .ok 1 ↔ sub.eval s a b = .ok 0) ∧
    (∀ a b, ∃ e, eql.eval s a b = .ok e ∧
      (logicalNot e = 1 ↔ lt.eval s a b = .ok 1 ∨ gt.eval s a b = .ok 1)) ∧
    ∀ a b, lt.eval .unsigned a b =
      lt.eval .signed (a ^^^ .twoPow 32 31) (b ^^^ .twoPow 32 31) := by
  refine ⟨fun a b op hop => eval_eq_zero_or_one hop, ?_, fun a b => eval_lt_eq_one_iff,
    fun a b => rfl, ?_, fun a b => eval_eql_eq_one_iff, ?_,
    fun a b => ⟨_, rfl, logicalNot_eql_iff⟩, ?_⟩
  · intro a b
    have hmem := comparison_mem (s.toInt a) (s.toInt b)
    exact ⟨_, ⟨hmem, (eval_eq_one_iff hmem).2 rfl⟩, fun op hop => (eval_eq_one_iff hop.1).1 hop.2⟩
  · intro a b c hab hbc
    rw [eval_lt_eq_one_iff] at hab hbc ⊢
    exact Int.lt_trans hab hbc
  · intro a b
    rw [eval_eql_eq_one_iff, eval_sub_eq_zero_iff]
  · intro a b
    rw [eval, eval, below_xor_twoPow]

/-- Signed, the least word is below -1 and that below 1; unsigned, 1 is below the former and that
below the latter. -/
theorem comparisons_order_words_below_zero :
    lt.eval .signed (BitVec.intMin 32) 1 = .ok 1 ∧ lt.eval .unsigned 1 (-1) = .ok 1 := by
  obtain ⟨-, -, -, -, hsigned, -⟩ := comparisons_order_words .signed
  obtain ⟨-, -, -, -, hunsigned, -⟩ := comparisons_order_words .unsigned
  exact ⟨hsigned (BitVec.intMin 32) (-1) 1 rfl rfl, hunsigned 1 (BitVec.intMin 32) (-1) rfl rfl⟩

end Operator

end PrimitiveAbi
