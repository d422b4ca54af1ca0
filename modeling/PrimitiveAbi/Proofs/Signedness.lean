import Mathlib.Data.List.Forall2
import PrimitiveAbi.Proofs.Abort

/-!
# Signed and unsigned arithmetic

The two surfaces do arithmetic on the same words of 32 bits and read them in two ways. Addition,
subtraction, multiplication and equality do not depend on the reading, division does not where both
operands are non-negative, and an order does not where they have one sign
(`Operator.eval_unsigned_eq`). So a program of signed calls and the same program of unsigned ones
go through machines whose results are the same words (`Machine.SameWords`), step by step.
-/

namespace PrimitiveAbi

/-! ### Operators -/

namespace Operator

/-- The symbol of the signed primitive. -/
def signedSymbol : Operator → String
  | .add => "add"
  | .sub => "sub"
  | .mul => "mul"
  | .div => "div"
  | .rem => "remainder"
  | .lt => "lt"
  | .gt => "gt"
  | .eql => "eql"

/-- The symbol of the unsigned primitive; the remainder has none. -/
def unsignedSymbol? : Operator → Option String
  | .add => some "_43"
  | .sub => some "_"
  | .mul => some "_42"
  | .div => some "_47"
  | .rem => none
  | .lt => some "_60"
  | .gt => some "_62"
  | .eql => some "_61"

theorem quotient_unsigned_eq {a b : BitVec 32} (ha : 0 ≤ a.toInt) (hb : 0 ≤ b.toInt) :
    quotient .unsigned a b = quotient .signed a b := by
  have hmsb : ∀ x : BitVec 32, 0 ≤ x.toInt → x.msb = false := by
    intro x hx
    rw [BitVec.msb_eq_toInt]
    exact decide_eq_false (Int.not_lt.2 hx)
  rw [quotient, quotient, BitVec.sdiv, hmsb a ha, hmsb b hb]

theorem below_unsigned_eq {a b : BitVec 32} (h : 0 ≤ a.toInt ↔ 0 ≤ b.toInt) :
    below .unsigned a b = below .signed a b := by
  rw [below, below, BitVec.slt_eq_ult_of_msb_eq]
  rw [BitVec.msb_eq_toInt, BitVec.msb_eq_toInt, decide_eq_decide, ← Int.not_le, ← Int.not_le, h]

/-- The order of words of different sign is turned around. -/
theorem below_unsigned_eq_not {a b : BitVec 32} (h : ¬ (0 ≤ a.toInt ↔ 0 ≤ b.toInt)) :
    below .unsigned a b = !below .signed a b := by
  rw [below, below, BitVec.slt_eq_not_ult_of_msb_neq, Bool.not_not]
  rw [BitVec.msb_eq_toInt, BitVec.msb_eq_toInt, ne_eq, decide_eq_decide, ← Int.not_le,
    ← Int.not_le, not_iff_not]
  exact h

/-- Where signed and unsigned operators agree. -/
theorem eval_unsigned_eq {op : Operator} {a b : BitVec 32} (hrem : op ≠ .rem)
    (hdiv : op = .div → 0 ≤ a.toInt ∧ 0 ≤ b.toInt)
    (horder : op = .lt ∨ op = .gt → (0 ≤ a.toInt ↔ 0 ≤ b.toInt)) :
    op.eval .unsigned a b = op.eval .signed a b := by
  cases op with
  | add | sub | mul | eql => rfl
  | div => rw [eval, eval, quotient_unsigned_eq (hdiv rfl).1 (hdiv rfl).2]
  | rem => exact absurd rfl hrem
  | lt => rw [eval, eval, below_unsigned_eq (horder (.inl rfl))]
  | gt => rw [eval, eval, below_unsigned_eq (horder (.inr rfl)).symm]

/-- Comparisons yield truth values. -/
theorem exists_eval_eq_truth {s : Signedness} {op : Operator} (h : op.isComparison = true)
    (a b : BitVec 32) : ∃ t, op.eval s a b = .ok (truth t) := by
  cases op with
  | lt | gt | eql => exact ⟨_, rfl⟩
  | _ => exact nomatch h

end Operator

theorem toInt_truth (t : Bool) : (truth t).toInt = ((truth t).toNat : Int) := by
  cases t <;> decide

namespace Catalog

theorem of_signedSymbol (op : Operator) : ∀ p ∈ all, p.symbol = op.signedSymbol →
    p.kind = .binary op ∧ p.view = .signed := by
  cases op <;> decide

theorem of_unsignedSymbol? (op : Operator) : ∀ p ∈ all, op.unsignedSymbol? = some p.symbol →
    p.kind = .binary op ∧ p.view = .unsigned := by
  cases op <;> decide

end Catalog

/-! ### Calls -/

/-- One operator on the same arguments: a signed call, and the unsigned one. -/
structure Call.Reinterpreted (op : Operator) (c c' : Call) : Prop where
  signed : c.ResolvesTo [op.signedSymbol]
  unsigned : ∃ symbol, op.unsignedSymbol? = some symbol ∧ c'.ResolvesTo [symbol]
  arguments : c'.arguments = c.arguments

theorem Call.Reinterpreted.ne_rem {op : Operator} {c c' : Call} (h : c.Reinterpreted op c') :
    op ≠ .rem := by
  rintro rfl
  obtain ⟨_, hsymbol, -⟩ := h.unsigned
  exact nomatch hsymbol

/-- A call does what its primitive does, and no other. -/
theorem Call.ResolvesTo.mem_iff {c : Call} {symbol : String} (h : c.ResolvesTo [symbol])
    (symbols : List String) : c.ResolvesTo symbols ↔ symbol ∈ symbols := by
  obtain ⟨p, hp, hsymbol⟩ := h
  obtain rfl := List.mem_singleton.1 hsymbol
  rw [ResolvesTo, Option.mem_def.1 hp]
  simp

namespace Machine

/-- The word that a call passes for a parameter. -/
def operand (m : Machine) (c : Call) (position : Nat) : BitVec 32 :=
  .ofInt 32 (m.integer (argument c.arguments position))

/-- The call does not divide a negative word or by one, nor does it order words of two signs. -/
structure ReadsAlike (m : Machine) (c : Call) : Prop where
  division : c.ResolvesTo ["div"] → 0 ≤ (m.operand c 0).toInt ∧ 0 ≤ (m.operand c 1).toInt
  order : c.ResolvesTo ["lt", "gt"] →
    (0 ≤ (m.operand c 0).toInt ↔ 0 ≤ (m.operand c 1).toInt)

instance (m : Machine) (c : Call) : Decidable (m.ReadsAlike c) :=
  decidable_of_iff
    ((c.ResolvesTo ["div"] → 0 ≤ (m.operand c 0).toInt ∧ 0 ≤ (m.operand c 1).toInt) ∧
      (c.ResolvesTo ["lt", "gt"] →
        (0 ≤ (m.operand c 0).toInt ↔ 0 ≤ (m.operand c 1).toInt)))
    ⟨fun h => ⟨h.1, h.2⟩, fun h => ⟨h.division, h.order⟩⟩

/-- The results are the same words, whichever way they are read. -/
def SameWords (m m' : Machine) : Prop :=
  List.Forall₂ (fun x y => BitVec.ofInt 32 (x.getD 0) = BitVec.ofInt 32 (y.getD 0))
    m.results m'.results

theorem SameWords.resultOf {m m' : Machine} (h : m.SameWords m') (k : Nat) :
    BitVec.ofInt 32 (m.resultOf k) = BitVec.ofInt 32 (m'.resultOf k) := by
  obtain ⟨words, results⟩ := m
  obtain ⟨words', results'⟩ := m'
  rw [SameWords] at h
  dsimp only [Machine.resultOf] at h ⊢
  induction h generalizing k with
  | nil => rfl
  | cons hx _ ih =>
    cases k with
    | zero => exact hx
    | succ k => exact ih k

theorem SameWords.operand {m m' : Machine} (h : m.SameWords m') {op : Operator} {c c' : Call}
    (hc : c.Reinterpreted op c') (k : Nat) : m'.operand c' k = m.operand c k := by
  rw [Machine.operand, Machine.operand, hc.arguments]
  cases argument c.arguments k with
  | result call => exact (h.resultOf call).symm
  | _ => rfl

theorem SameWords.advance {m m' : Machine} (h : m.SameWords m') {a a' : CallAnswer}
    (ha : BitVec.ofInt 32 (a.result?.getD 0) = BitVec.ofInt 32 (a'.result?.getD 0)) :
    (m.advance a).SameWords (m'.advance a') :=
  List.rel_append h (.cons ha .nil)

/-! ### One step -/

/-- The answer of an arithmetic primitive. -/
def calculated (m : Machine) (p : Primitive) (result : Int) : CallAnswer :=
  .done p { result := some result, words := m.words }

theorem step?_of_kind {c : Call} {p : Primitive} {op : Operator}
    (hp : c.binding.resolve? = some p) (hkind : p.kind = .binary op) (m : Machine) :
    m.step? c = (op.eval p.view (m.operand c 0) (m.operand c 1)).toOption.map fun v =>
      (m.calculated p (p.view.toInt v), m.advance (m.calculated p (p.view.toInt v))) := by
  rw [step?, hp]
  simp only [Primitive.effect?, hkind]
  rw [operand, operand]
  cases op.eval p.view _ _ <;> rfl

/-- What the two calls do, from the values of the operator. -/
theorem step?_of_reinterpreted {op : Operator} {c c' : Call} (hc : c.Reinterpreted op c')
    (m m' : Machine) : ∃ p p' : Primitive,
      (m.step? c = (op.eval .signed (m.operand c 0) (m.operand c 1)).toOption.map fun v =>
        (m.calculated p v.toInt, m.advance (m.calculated p v.toInt))) ∧
      (m'.step? c' = (op.eval .unsigned (m'.operand c' 0) (m'.operand c' 1)).toOption.map fun v =>
        (m'.calculated p' v.toNat, m'.advance (m'.calculated p' v.toNat))) := by
  obtain ⟨p, hp, hsymbol⟩ := hc.signed
  obtain ⟨_, hop, p', hp', hsymbol'⟩ := hc.unsigned
  obtain rfl := List.mem_singleton.1 hsymbol'
  obtain ⟨hkind, hview⟩ := Catalog.of_signedSymbol op p (Binding.mem_of_resolve? hp)
    (List.mem_singleton.1 hsymbol)
  obtain ⟨hkind', hview'⟩ := Catalog.of_unsignedSymbol? op p' (Binding.mem_of_resolve? hp') hop
  refine ⟨p, p', ?_, ?_⟩
  · rw [step?_of_kind hp hkind, hview]
    rfl
  · rw [step?_of_kind hp' hkind', hview']
    rfl

/-- A signed call aborts the program exactly if the unsigned one does. -/
theorem step?_eq_none_iff_of_reinterpreted {op : Operator} {c c' : Call}
    (hc : c.Reinterpreted op c') {m m' : Machine} (hm : m.SameWords m') :
    m'.step? c' = none ↔ m.step? c = none := by
  have herror : ∀ s a b, (op.eval s a b).toOption = none ↔ (op = .div ∨ op = .rem) ∧ b = 0 := by
    intro s a b
    rw [← Operator.exists_eval_eq_error_iff (s := s) (a := a)]
    cases op.eval s a b <;> simp [Except.toOption]
  obtain ⟨p, p', hstep, hstep'⟩ := step?_of_reinterpreted hc m m'
  rw [hstep, hstep', Option.map_eq_none_iff, Option.map_eq_none_iff, herror, herror,
    hm.operand hc]

/-- The results of a signed call and of the unsigned one: the same word, and the same integer if the
call compares. -/
def SameResult (c : Call) (a a' : CallAnswer) : Prop :=
  ∃ r r', a.result? = some r ∧ a'.result? = some r' ∧ r % 2 ^ 32 = r' % 2 ^ 32 ∧
    (c.ResolvesTo ["eql", "lt", "gt"] → r = r')

/-- The step lemma: where a signed call reads alike, the unsigned one answers with the same word. -/
theorem step?_reinterpreted {op : Operator} {c c' : Call} (hc : c.Reinterpreted op c')
    {m m' : Machine} (hm : m.SameWords m') (hread : m.ReadsAlike c) {a : CallAnswer}
    (ha : m.step? c = some (a, m.advance a)) :
    ∃ a', m'.step? c' = some (a', m'.advance a') ∧ SameResult c a a' ∧
      (m.advance a).SameWords (m'.advance a') := by
  obtain ⟨p, p', hstep, hstep'⟩ := step?_of_reinterpreted hc m m'
  have heval : op.eval .unsigned (m.operand c 0) (m.operand c 1) =
      op.eval .signed (m.operand c 0) (m.operand c 1) := by
    refine Operator.eval_unsigned_eq hc.ne_rem ?_ ?_
    · rintro rfl
      exact hread.division hc.signed
    · intro horder
      refine hread.order ((hc.signed.mem_iff _).2 ?_)
      rcases horder with rfl | rfl <;> decide
  rw [hm.operand hc, hm.operand hc, heval] at hstep'
  rw [hstep] at ha
  obtain ⟨v, hv, hva⟩ := Option.map_eq_some_iff.1 ha
  obtain rfl : m.calculated p v.toInt = a := (Prod.mk.inj hva).1
  have hword : BitVec.ofInt 32 v.toInt = BitVec.ofInt 32 (v.toNat : Int) :=
    (Signedness.ofInt_toInt .signed v).trans (Signedness.ofInt_toInt .unsigned v).symm
  refine ⟨m'.calculated p' v.toNat, by rw [hstep', hv]; rfl, ⟨v.toInt, v.toNat, rfl, rfl, ?_, ?_⟩,
    hm.advance hword⟩
  · rw [← toNat_ofInt_eq_emod, ← toNat_ofInt_eq_emod, hword]
  · intro hcompares
    have hop : op.isComparison = true := by
      rw [hc.signed.mem_iff] at hcompares
      revert hcompares
      cases op <;> decide
    obtain ⟨t, ht⟩ :=
      Operator.exists_eval_eq_truth (s := .signed) hop (m.operand c 0) (m.operand c 1)
    rw [ht] at hv
    obtain rfl := Option.some.inj hv
    exact toInt_truth t

/-- Words of different sign are in opposite orders. -/
theorem step?_opposite {op : Operator} {c c' : Call} (hc : c.Reinterpreted op c')
    (horder : c.ResolvesTo ["lt", "gt"]) {m m' : Machine}
    (hoperands : ∀ k, m'.operand c' k = m.operand c k)
    (hsigns : ¬ (0 ≤ (m.operand c 0).toInt ↔ 0 ≤ (m.operand c 1).toInt)) :
    ∃ a a', m.step? c = some (a, m.advance a) ∧ m'.step? c' = some (a', m'.advance a') ∧
      ((a.result? = some 0 ∧ a'.result? = some 1) ∨ (a.result? = some 1 ∧ a'.result? = some 0)) := by
  obtain ⟨p, p', hstep, hstep'⟩ := step?_of_reinterpreted hc m m'
  obtain ⟨t, ht, ht'⟩ : ∃ t, op.eval .signed (m.operand c 0) (m.operand c 1) = .ok (truth t) ∧
      op.eval .unsigned (m.operand c 0) (m.operand c 1) = .ok (truth !t) := by
    rw [hc.signed.mem_iff] at horder
    cases op
    case lt => exact ⟨_, rfl, by rw [Operator.eval, Operator.below_unsigned_eq_not hsigns]⟩
    case gt =>
      refine ⟨_, rfl, ?_⟩
      rw [Operator.eval, Operator.below_unsigned_eq_not fun h => hsigns h.symm]
    all_goals exact absurd horder (by decide)
  rw [ht] at hstep
  rw [hoperands, hoperands, ht'] at hstep'
  refine ⟨_, _, hstep, hstep', ?_⟩
  cases t
  · exact .inl ⟨rfl, rfl⟩
  · exact .inr ⟨rfl, rfl⟩

/-! ### Runs -/

/-- The run lemma: two runs over the same words keep to the same words. -/
theorem run_reinterpreted {cs cs' : List Call}
    (h : List.Forall₂ (fun c c' => ∃ op, c.Reinterpreted op c') cs cs') {m m' : Machine}
    (hm : m.SameWords m') (hread : ∀ (i : Nat) c, cs[i]? = some c → i < (m.run cs).1.length →
      (m.after ((m.run cs).1.take i)).ReadsAlike c) :
    (m'.run cs').2 = (m.run cs).2 ∧ (m'.run cs').1.length = (m.run cs).1.length ∧
      ∀ (i : Nat) c a a', cs[i]? = some c → (m.run cs).1[i]? = some a → (m'.run cs').1[i]? = some a' →
        SameResult c a a' := by
  induction h generalizing m m' with
  | nil => exact ⟨rfl, rfl, fun i c a a' hc => by simp at hc⟩
  | @cons c c' cs cs' hc _ ih =>
    obtain ⟨op, hc⟩ := hc
    cases hstep : m.step? c with
    | none =>
      have hstep' := (step?_eq_none_iff_of_reinterpreted hc hm).2 hstep
      rw [run_cons_of_none cs hstep, run_cons_of_none cs' hstep']
      exact ⟨rfl, rfl, fun i c a a' _ ha => by simp at ha⟩
    | some next =>
      obtain ⟨a, m₁⟩ := next
      obtain rfl := advance_of_step? hstep
      rw [run_cons_of_some cs hstep] at hread ⊢
      obtain ⟨a', hstep', hresult, hwords⟩ :=
        step?_reinterpreted hc hm (hread 0 c rfl (Nat.succ_pos _)) hstep
      obtain ⟨hending, hlength, hresults⟩ := ih hwords fun i d hd hi =>
        hread (i + 1) d hd (Nat.succ_lt_succ hi)
      rw [run_cons_of_some cs' hstep']
      refine ⟨hending, congrArg (· + 1) hlength, ?_⟩
      intro i d b b' hd hb hb'
      cases i with
      | zero =>
        obtain rfl := Option.some.inj hd
        obtain rfl := Option.some.inj hb
        obtain rfl := Option.some.inj hb'
        exact hresult
      | succ i => exact hresults i d b b' hd hb hb'

end Machine

/-- The same operators on the same arguments, called unsigned. -/
def Program.Reinterpreted (p p' : Program) : Prop :=
  List.Forall₂ (fun c c' => ∃ op, c.Reinterpreted op c') p.calls p'.calls

/-- A program of signed arithmetic calls and the one that calls the unsigned primitives instead end
alike, after as many answers, and all their results are the same words, those of comparisons the
same integers, if no call that is answered divides a negative word or by one, or orders words of two
signs. On words of two signs the orders are opposite. -/
theorem surfaces_share_words :
    (∀ p p' : Program, p.Reinterpreted p' →
      (∀ (i : Nat) c, p.calls[i]? = some c → i < p.run.1.length → (p.machine i).ReadsAlike c) →
      p'.run.2 = p.run.2 ∧ p'.run.1.length = p.run.1.length ∧
        ∀ (i : Nat) c a a', p.calls[i]? = some c → p.run.1[i]? = some a → p'.run.1[i]? = some a' →
          Machine.SameResult c a a') ∧
    ∀ op c c', Call.Reinterpreted op c c' → c.ResolvesTo ["lt", "gt"] → ∀ m m' : Machine,
      (∀ k, m'.operand c' k = m.operand c k) →
      ¬ (0 ≤ (m.operand c 0).toInt ↔ 0 ≤ (m.operand c 1).toInt) →
      ∃ a a', m.step? c = some (a, m.advance a) ∧ m'.step? c' = some (a', m'.advance a') ∧
        ((a.result? = some 0 ∧ a'.result? = some 1) ∨
          (a.result? = some 1 ∧ a'.result? = some 0)) :=
  ⟨fun _ _ h hread => Machine.run_reinterpreted h .nil hread,
    fun _ _ _ hc horder _ _ hoperands hsigns => Machine.step?_opposite hc horder hoperands hsigns⟩

/-- A difference below zero is used on: both runs multiply and compare it alike, and both are aborted
by a divisor that is zero as a word. Against a positive word it is below as signed and above as
unsigned. -/
theorem surfaces_share_words_below_zero :
    (∃ p p' : Program, p.Reinterpreted p' ∧ p'.run.2 = p.run.2 ∧ p'.run.1.length = 4 ∧
      ∃ c a a', p.calls[3]? = some c ∧ p.run.1[3]? = some a ∧ p'.run.1[3]? = some a' ∧
        Machine.SameResult c a a') ∧
    let m : Machine := { words := [], results := [some (-3)] }
    let m' : Machine := { words := [], results := [some 4294967293] }
    ∃ a a', m.step? ⟨.bySymbol "lt", [.result 0, .number 1]⟩ = some (a, m.advance a) ∧
      m'.step? ⟨.byName .symbolic "<", [.result 0, .number 1]⟩ = some (a', m'.advance a') ∧
      ((a.result? = some 0 ∧ a'.result? = some 1) ∨
        (a.result? = some 1 ∧ a'.result? = some 0)) := by
  constructor
  · let p : Program := { calls := [
      ⟨.bySymbol "sub", [.number 2, .number 5]⟩,
      ⟨.byName .spelled "mul", [.result 0, .result 0]⟩,
      ⟨.bySymbol "div", [.result 1, .number 4]⟩,
      ⟨.bySymbol "gt", [.result 0, .number (-4)]⟩,
      ⟨.bySymbol "div", [.result 0, .number 4294967296]⟩] }
    let p' : Program := { calls := [
      ⟨.bySymbol "_", [.number 2, .number 5]⟩,
      ⟨.bySymbol "_42", [.result 0, .result 0]⟩,
      ⟨.byName .symbolic "/", [.result 1, .number 4]⟩,
      ⟨.bySymbol "_62", [.result 0, .number (-4)]⟩,
      ⟨.bySymbol "_47", [.result 0, .number 4294967296]⟩] }
    have hp : p.Reinterpreted p' :=
      .cons ⟨.sub, by decide, ⟨_, rfl, by decide⟩, rfl⟩ <|
      .cons ⟨.mul, by decide, ⟨_, rfl, by decide⟩, rfl⟩ <|
      .cons ⟨.div, by decide, ⟨_, rfl, by decide⟩, rfl⟩ <|
      .cons ⟨.gt, by decide, ⟨_, rfl, by decide⟩, rfl⟩ <|
      .cons ⟨.div, by decide, ⟨_, rfl, by decide⟩, rfl⟩ .nil
    have hread : ∀ (i : Nat) c, p.calls[i]? = some c → i < p.run.1.length →
        (p.machine i).ReadsAlike c := by
      have hall : ∀ i < 4, ∀ c ∈ p.calls[i]?, (p.machine i).ReadsAlike c := by decide
      exact fun i c hc hi => hall i hi c hc
    obtain ⟨hending, hlength, hresults⟩ := surfaces_share_words.1 p p' hp hread
    exact ⟨p, p', hp, hending, hlength, _, _, _, rfl, rfl, rfl, hresults 3 _ _ _ rfl rfl rfl⟩
  · intro m m'
    let c : Call := ⟨.bySymbol "lt", [.result 0, .number 1]⟩
    let c' : Call := ⟨.byName .symbolic "<", [.result 0, .number 1]⟩
    have hc : Call.Reinterpreted .lt c c' := ⟨by decide, ⟨_, rfl, by decide⟩, rfl⟩
    refine surfaces_share_words.2 .lt c c' hc (by decide) m m' ?_ (by decide)
    intro k
    match k with
    | 0 | 1 => decide
    | _ + 2 => rfl

end PrimitiveAbi
