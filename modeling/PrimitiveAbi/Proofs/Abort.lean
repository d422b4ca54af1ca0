import PrimitiveAbi.Proofs.Trace

/-!
# When a program is aborted

The one thing that ends a program before its calls do is a divisor that is zero as a word of 32
bits (`Machine.step?_eq_none_iff`). The first call with such a divisor is not answered, and what the
calls before it answered stands as if the program had ended with them.
-/

namespace PrimitiveAbi

theorem ofInt_eq_zero_iff (w : Nat) (z : Int) : BitVec.ofInt w z = 0 ↔ z % 2 ^ w = 0 := by
  have hword := toNat_ofInt_eq_emod w z
  constructor
  · intro h
    rw [← hword, h]
    simp
  · intro h
    apply BitVec.eq_of_toNat_eq
    simp only [BitVec.ofNat_eq_ofNat, BitVec.toNat_ofNat, Nat.zero_mod]
    omega

/-- The primitives that divide. -/
theorem Catalog.divides_iff : ∀ p ∈ all,
    (p.kind = .binary .div ∨ p.kind = .binary .rem) ↔ p.symbol ∈ ["div", "remainder", "_47"] := by
  decide

namespace Operator

/-- An operator fails exactly if it divides by the zero word. -/
theorem exists_eval_eq_error_iff {s : Signedness} {op : Operator} {a b : BitVec 32} :
    (∃ e, op.eval s a b = .error e) ↔ (op = .div ∨ op = .rem) ∧ b = 0 := by
  cases op
  case div | rem => by_cases hb : b = 0#32 <;> simp [eval, hb]
  all_goals simp [eval]

end Operator

theorem Primitive.effect?_eq_none_iff {p : Primitive} {arguments : List Argument} {m : Machine} :
    p.effect? arguments m = none ↔ (p.kind = .binary .div ∨ p.kind = .binary .rem) ∧
      BitVec.ofInt 32 (m.integer (argument arguments 1)) = 0 := by
  rw [effect?]
  cases hkind : p.kind with
  | binary op =>
    simp only [Kind.binary.injEq, ← Operator.exists_eval_eq_error_iff (s := p.view)
      (a := .ofInt 32 (m.integer (argument arguments 0)))]
    split <;> simp [*]
  | _ => simp

namespace Machine

/-- The call divides, and by an integer that is zero as a word of 32 bits. -/
def DividesByZero (m : Machine) (c : Call) : Prop :=
  c.ResolvesTo ["div", "remainder", "_47"] ∧ m.integer (argument c.arguments 1) % 2 ^ 32 = 0

instance (m : Machine) (c : Call) : Decidable (m.DividesByZero c) :=
  inferInstanceAs (Decidable (_ ∧ _))

/-- A call has no answer exactly if it divides by zero. -/
theorem step?_eq_none_iff {m : Machine} {c : Call} : m.step? c = none ↔ m.DividesByZero c := by
  rw [step?, DividesByZero, Call.ResolvesTo]
  cases hp : c.binding.resolve? with
  | none => simp
  | some p =>
    simp only [Option.map_eq_none_iff, Primitive.effect?_eq_none_iff, Option.mem_some_iff,
      exists_eq_left', Catalog.divides_iff p (Binding.mem_of_resolve? hp), ofInt_eq_zero_iff]

end Machine

namespace Program

/-- The call with this number divides by zero, going by the results of the calls before it. -/
def DividesByZero (p : Program) (i : Nat) : Prop :=
  ∃ c ∈ p.calls[i]?, (p.machine i).DividesByZero c

instance (p : Program) (i : Nat) : Decidable (p.DividesByZero i) :=
  inferInstanceAs (Decidable (∃ c ∈ p.calls[i]?, (p.machine i).DividesByZero c))

/-- No call that is answered divides by zero. -/
theorem not_dividesByZero_of_lt {p : Program} {i : Nat} (h : i < p.run.1.length) :
    ¬ p.DividesByZero i := by
  rintro ⟨c, hc, hzero⟩
  have hstep := p.step?_machine hc (List.getElem?_eq_getElem h)
  rw [Machine.step?_eq_none_iff.2 hzero] at hstep
  exact nomatch hstep

/-- A run answers all its calls and ends well, or it ends at a call that divides by zero. -/
theorem ending (p : Program) : (p.run.2 = .finished ∧ p.run.1.length = p.calls.length) ∨
    (p.run.2 = .aborted ∧ p.DividesByZero p.run.1.length) := by
  rcases Machine.run_ending { words := p.memory } p.calls with h | ⟨haborted, c, hc, hnone⟩
  · exact .inl h
  · refine .inr ⟨haborted, c, hc, ?_⟩
    rw [p.machine_length]
    exact Machine.step?_eq_none_iff.1 hnone

end Program

/-- A program is aborted exactly by the first call that divides by zero. Without one it ends well
and all its calls are answered; with one the process dies of the signal and the calls before it are
answered. The first calls of a program alone are answered as they are in the whole run. -/
theorem aborted_by_first_zero_divisor (p : Program) :
    ((∀ i, ¬ p.DividesByZero i) →
      p.run.2.status = some 0 ∧ p.run.2.signal = none ∧ p.run.1.length = p.calls.length) ∧
    (∀ i, p.DividesByZero i → (∀ j < i, ¬ p.DividesByZero j) →
      p.run.2.status = none ∧ p.run.2.signal = some 6 ∧ p.run.1.length = i) ∧
    ∀ n, (Program.run { p with calls := p.calls.take n }).1 = p.run.1.take n := by
  refine ⟨?_, ?_, fun n => Machine.run_take _ _ n⟩
  · intro hnone
    rcases p.ending with ⟨hfinished, hlength⟩ | ⟨-, hzero⟩
    · rw [hfinished]
      exact ⟨rfl, rfl, hlength⟩
    · exact absurd hzero (hnone _)
  · intro i hzero hfirst
    have hle : p.run.1.length ≤ i := Nat.not_lt.1 fun h => Program.not_dividesByZero_of_lt h hzero
    rcases p.ending with ⟨-, hlength⟩ | ⟨haborted, hend⟩
    · obtain ⟨c, hc, -⟩ := hzero
      have hlt := (List.getElem?_eq_some_iff.1 hc).1
      omega
    · have hge : i ≤ p.run.1.length := Nat.not_lt.1 fun h => hfirst _ h hend
      rw [haborted]
      exact ⟨rfl, rfl, Nat.le_antisymm hle hge⟩

/-- The divisor is zero only as a word; a zero that an unresolved call passes does not count. -/
theorem aborted_by_first_zero_divisor_wrapped :
    ∃ p : Program, p.calls.length = 4 ∧ p.DividesByZero 2 ∧ p.run.2.status = none ∧
      p.run.2.signal = some 6 ∧ p.run.1.length = 2 ∧
      (Program.run { p with calls := p.calls.take 2 }).2.status = some 0 := by
  let p : Program := { calls := [
    ⟨.byName .spelled "/", [.number 1, .number 0]⟩,
    ⟨.bySymbol "display", [.bytes [104, 105]]⟩,
    ⟨.byName .symbolic "/", [.number 7, .number 4294967296]⟩,
    ⟨.bySymbol "newline", []⟩] }
  have hzero : p.DividesByZero 2 := by decide
  have hfirst : ∀ j < 2, ¬ p.DividesByZero j := by decide
  obtain ⟨hstatus, hsignal, hlength⟩ := (aborted_by_first_zero_divisor p).2.1 2 hzero hfirst
  refine ⟨p, rfl, hzero, hstatus, hsignal, hlength, ?_⟩
  refine ((aborted_by_first_zero_divisor { p with calls := p.calls.take 2 }).1 ?_).1
  intro i
  match i with
  | 0 | 1 => decide
  | i + 2 => simp [Program.DividesByZero, p]

end PrimitiveAbi
