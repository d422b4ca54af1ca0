import Mathlib.Algebra.Group.Int.Defs
import PrimitiveAbi.Program

/-!
# A run, call by call

The answers of a run show all that its calls did. So the machine before a call is known from the
answers before it (`Program.machine`), each answer is what that machine says to the call
(`Machine.step?_of_run`), and a run that is aborted ends where that machine has no answer
(`Machine.run_ending`). Calls that come later have no say in any of this (`Machine.run_take`).
-/

namespace PrimitiveAbi

/-- The call is bound to a primitive with one of these symbols. -/
def Call.ResolvesTo (c : Call) (symbols : List String) : Prop :=
  ∃ p ∈ c.binding.resolve?, p.symbol ∈ symbols

instance (c : Call) (symbols : List String) : Decidable (c.ResolvesTo symbols) :=
  inferInstanceAs (Decidable (∃ p ∈ c.binding.resolve?, p.symbol ∈ symbols))

theorem Binding.mem_of_resolve? {b : Binding} {p : Primitive} (h : b.resolve? = some p) :
    p ∈ Catalog.all := by
  cases b with
  | bySymbol symbol =>
    rw [resolve?, Catalog.findSymbol?] at h
    exact List.mem_of_find?_eq_some h
  | byName surface name =>
    rw [resolve?, Catalog.findName?] at h
    exact List.mem_of_find?_eq_some h

/-- The word that an integer is reduced to is the integer modulo the size of the type. -/
theorem toNat_ofInt_eq_emod (w : Nat) (z : Int) : ((BitVec.ofInt w z).toNat : Int) = z % 2 ^ w := by
  have hpow : ((2 ^ w : Nat) : Int) = 2 ^ w := Int.natCast_pow 2 w
  have hpos : (0 : Int) < 2 ^ w := Int.pow_pos (by decide)
  rw [BitVec.toNat_ofInt, hpow, Int.toNat_of_nonneg (Int.emod_nonneg z (Int.ne_of_gt hpos))]

/-! ### What an answer shows -/

namespace CallAnswer

/-- The result of the call, if it has one. -/
def result? : CallAnswer → Option Int
  | .unresolved => none
  | .done _ e => e.result

/-- What the call wrote to standard output. -/
def output : CallAnswer → List UInt8
  | .unresolved => []
  | .done _ e => e.output

/-- The words of memory after the call, where the answer shows them. -/
def words? : CallAnswer → Option (List (BitVec 64))
  | .unresolved => none
  | .done _ e => some e.words

end CallAnswer

namespace Machine

/-- The machine after a call with this answer. -/
def advance (m : Machine) (a : CallAnswer) : Machine where
  words := a.words?.getD m.words
  results := m.results ++ [a.result?]

/-- The machine after calls with these answers. -/
def after (m : Machine) (answers : List CallAnswer) : Machine :=
  answers.foldl advance m

@[simp] theorem after_nil (m : Machine) : m.after [] = m := rfl

@[simp] theorem after_cons (m : Machine) (a : CallAnswer) (answers : List CallAnswer) :
    m.after (a :: answers) = (m.advance a).after answers := rfl

/-! ### Steps and runs -/

theorem advance_of_step? {m m' : Machine} {c : Call} {a : CallAnswer}
    (h : m.step? c = some (a, m')) : m' = m.advance a := by
  rw [step?] at h
  split at h
  · obtain ⟨rfl, rfl⟩ := Prod.mk.inj (Option.some.inj h)
    rfl
  · obtain ⟨e, -, he⟩ := Option.map_eq_some_iff.1 h
    obtain ⟨rfl, rfl⟩ := Prod.mk.inj he
    rfl

theorem run_cons_of_none {m : Machine} {c : Call} (cs : List Call) (h : m.step? c = none) :
    m.run (c :: cs) = ([], .aborted) := by
  rw [run, h]

theorem run_cons_of_some {m m' : Machine} {c : Call} {a : CallAnswer} (cs : List Call)
    (h : m.step? c = some (a, m')) :
    m.run (c :: cs) = (a :: ((m.advance a).run cs).1, ((m.advance a).run cs).2) := by
  rw [run, h, advance_of_step? h]

/-- Every answer of a run is the step of the machine that the answers before it leave. -/
theorem step?_of_run {m : Machine} {cs : List Call} {i : Nat} {c : Call} {a : CallAnswer}
    (hc : cs[i]? = some c) (ha : (m.run cs).1[i]? = some a) :
    (m.after ((m.run cs).1.take i)).step? c = some (a, m.after ((m.run cs).1.take (i + 1))) := by
  induction cs generalizing m i with
  | nil => simp at hc
  | cons d cs ih =>
    cases hstep : m.step? d with
    | none => simp [run_cons_of_none cs hstep] at ha
    | some next =>
      obtain ⟨b, m'⟩ := next
      rw [run_cons_of_some cs hstep] at ha ⊢
      cases i with
      | zero =>
        obtain rfl : d = c := by simpa using hc
        obtain rfl : b = a := by simpa using ha
        rw [List.take_zero, after_nil, hstep, advance_of_step? hstep]
        rfl
      | succ i =>
        simp only [List.getElem?_cons_succ] at hc ha
        simpa only [List.take_succ_cons, after_cons] using ih hc ha

/-- A run answers all its calls, or it is aborted by the first call without an answer. -/
theorem run_ending (m : Machine) (cs : List Call) :
    ((m.run cs).2 = .finished ∧ (m.run cs).1.length = cs.length) ∨
    ((m.run cs).2 = .aborted ∧ ∃ c, cs[(m.run cs).1.length]? = some c ∧
      (m.after (m.run cs).1).step? c = none) := by
  induction cs generalizing m with
  | nil => exact .inl ⟨rfl, rfl⟩
  | cons d cs ih =>
    cases hstep : m.step? d with
    | none =>
      rw [run_cons_of_none cs hstep]
      exact .inr ⟨rfl, d, rfl, hstep⟩
    | some next =>
      rw [run_cons_of_some cs hstep]
      rcases ih (m.advance next.1) with ⟨hfinished, hlength⟩ | ⟨haborted, c, hc, hnone⟩
      · exact .inl ⟨hfinished, by rw [List.length_cons, hlength, List.length_cons]⟩
      · exact .inr ⟨haborted, c, hc, hnone⟩

/-- The first calls alone are answered as they are in the whole run. -/
theorem run_take (m : Machine) (cs : List Call) (n : Nat) :
    (m.run (cs.take n)).1 = (m.run cs).1.take n := by
  induction cs generalizing m n with
  | nil => simp [run]
  | cons d cs ih =>
    cases n with
    | zero => rfl
    | succ n =>
      rw [List.take_succ_cons]
      cases hstep : m.step? d with
      | none => rw [run_cons_of_none _ hstep, run_cons_of_none _ hstep, List.take_nil]
      | some next =>
        rw [run_cons_of_some _ hstep, run_cons_of_some _ hstep, List.take_succ_cons, ih]

end Machine

/-! ### The machine of a program -/

namespace Program

/-- The machine after the first calls of the run: what it shows of memory and of results. -/
def machine (p : Program) (n : Nat) : Machine :=
  Machine.after { words := p.memory } (p.run.1.take n)

theorem machine_zero (p : Program) : p.machine 0 = { words := p.memory } := by
  rw [machine, List.take_zero, Machine.after_nil]

/-- The machine after all calls that were answered. -/
theorem machine_length (p : Program) :
    p.machine p.run.1.length = Machine.after { words := p.memory } p.run.1 := by
  rw [machine, List.take_length]

theorem step?_machine {p : Program} {i : Nat} {c : Call} {a : CallAnswer}
    (hc : p.calls[i]? = some c) (ha : p.run.1[i]? = some a) :
    (p.machine i).step? c = some (a, p.machine (i + 1)) :=
  Machine.step?_of_run hc ha

/-- There is no answer without a call. -/
theorem length_answers_le (p : Program) : p.run.1.length ≤ p.calls.length := by
  rcases Machine.run_ending { words := p.memory } p.calls with ⟨-, h⟩ | ⟨-, c, hc, -⟩
  · exact Nat.le_of_eq h
  · exact Nat.le_of_lt (List.getElem?_eq_some_iff.1 hc).1

end Program

end PrimitiveAbi
