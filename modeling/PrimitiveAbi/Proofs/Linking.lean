import PrimitiveAbi.Program
import PrimitiveAbi.Proofs.Check

/-!
# The check of requirements decides linking

What a program requires are the symbols and the names that its calls are bound by. Checking that
requests what the calls resolve to, symbols before names, and running the program resolves the calls
one after the other (`Machine.map_primitive?_run`); so the report tells which calls of a run have no
primitive.
-/

namespace PrimitiveAbi

/-! ### What a program requires -/

namespace Binding

/-- The symbol that is required. -/
def symbol? : Binding → Option String
  | .bySymbol symbol => some symbol
  | .byName _ _ => none

/-- The source name that is required. -/
def name? : Binding → Option NameRequest
  | .bySymbol _ => none
  | .byName surface name => some ⟨surface.name, name⟩

/-- The request of a binding. -/
def request : Binding → Lookup
  | .bySymbol symbol => Lookup.ofSymbol symbol
  | .byName surface name => Lookup.ofName surface name

theorem found_request (b : Binding) : b.request.found = b.resolve? := by
  cases b <;> rfl

end Binding

/-- The requirements of a program, each as often as it is called. -/
def Program.requires (p : Program) : Requires where
  version := Contract.requiresVersion
  abiMajor := Contract.abiMajor
  symbols := p.calls.filterMap (·.binding.symbol?)
  names := p.calls.filterMap (·.binding.name?)

theorem Surface.parse_name (s : Surface) : Surface.parse s.name = .ok s := by
  cases s <;> decide

theorem NameRequest.request_name (surface : Surface) (name : String) :
    NameRequest.request ⟨surface.name, name⟩ = Lookup.ofName surface name :=
  NameRequest.request_eq surface.parse_name

namespace Program

theorem checkable_requires (p : Program) : p.requires.Checkable where
  version := rfl
  abiMajor := rfl
  readable n hn := by
    obtain ⟨⟨b, arguments⟩, -, hb⟩ := List.mem_filterMap.1 hn
    cases b with
    | bySymbol => simp [Binding.name?] at hb
    | byName surface name =>
      obtain rfl := Option.some.inj hb
      exact ⟨surface, surface.parse_name⟩

/-- What is required are the requests of the calls, in another order. -/
theorem lookups_perm (p : Program) :
    p.requires.lookups.Perm (p.calls.map fun c => c.binding.request) := by
  obtain ⟨memory, calls⟩ := p
  induction calls with
  | nil => exact .nil
  | cons c calls ih =>
    obtain ⟨b, arguments⟩ := c
    cases b with
    | bySymbol symbol => exact ih.cons (Lookup.ofSymbol symbol)
    | byName surface name =>
      -- the name stands behind the symbols of all later calls
      show (_ ++ NameRequest.request ⟨surface.name, name⟩ :: _).Perm _
      rw [NameRequest.request_name]
      exact List.perm_middle.trans (ih.cons (Lookup.ofName surface name))

end Program

/-! ### What a run resolves -/

/-- The primitive that an answer is of. -/
def CallAnswer.primitive? : CallAnswer → Option Primitive
  | .unresolved => none
  | .done p _ => some p

theorem CallAnswer.count_unresolved (answers : List CallAnswer) :
    answers.count .unresolved = (answers.map primitive?).countP Option.isNone := by
  rw [List.count, List.countP_map]
  refine List.countP_congr ?_
  intro a _
  cases a <;> simp [primitive?]

namespace Machine

/-- A call that does not abort the program answers what it resolves to. -/
theorem primitive?_of_step? {m m' : Machine} {c : Call} {a : CallAnswer}
    (h : m.step? c = some (a, m')) : a.primitive? = c.binding.resolve? := by
  rw [step?] at h
  cases hp : c.binding.resolve? with
  | none =>
    simp only [hp, Option.some.injEq, Prod.mk.injEq] at h
    rw [← h.1]
    rfl
  | some p =>
    simp only [hp, Option.map_eq_some_iff, Prod.mk.injEq] at h
    obtain ⟨e, -, rfl, -⟩ := h
    rfl

/-- The answers of a run are of what the calls resolve to, up to the call that aborts it. -/
theorem map_primitive?_run (m : Machine) (cs : List Call) :
    (m.run cs).1.map CallAnswer.primitive? <+: cs.map (fun c => c.binding.resolve?) ∧
      ((m.run cs).2 = .finished →
        (m.run cs).1.map CallAnswer.primitive? = cs.map fun c => c.binding.resolve?) := by
  -- what a call resolves to depends on no machine, so the machine is any one
  induction cs generalizing m with
  | nil => exact ⟨List.prefix_rfl, fun _ => rfl⟩
  | cons c cs ih =>
    rw [run]
    cases hstep : m.step? c with
    | none => exact ⟨List.nil_prefix, fun h => by simp at h⟩
    | some next =>
      obtain ⟨a, m'⟩ := next
      obtain ⟨hanswered, hfinished⟩ := ih m'
      simp only [List.map_cons, primitive?_of_step? hstep]
      refine ⟨(List.prefix_cons_inj _).2 hanswered, ?_⟩
      intro h
      rw [hfinished h]

end Machine

/-! ### Linking -/

namespace Program

theorem ok_requires (p : Program) : (Report.ofLookups p.requires.lookups).ok = true ↔
    ∀ c ∈ p.calls, c.binding.resolve?.isSome = true := by
  rw [Report.ok_iff]
  simp only [p.lookups_perm.mem_iff, List.forall_mem_map, Binding.found_request]

theorem length_missing_requires (p : Program) :
    (Report.ofLookups p.requires.lookups).missing.length =
      p.calls.countP (·.binding.resolve?.isNone) := by
  rw [Report.length_missing, p.lookups_perm.countP_eq, List.countP_map]
  simp only [Function.comp_def, Binding.found_request]

theorem symbols_requires (p : Program) :
    ((Report.ofLookups p.requires.lookups).resolved.map Resolution.symbol).Perm
      ((p.calls.filterMap (·.binding.resolve?)).map Primitive.symbol) := by
  rw [Report.map_symbol_resolved]
  have h := (p.lookups_perm.filterMap Lookup.found).map Primitive.symbol
  simpa only [List.filterMap_map, Function.comp_def, Binding.found_request] using h

end Program

/-- The requirements of a program are checked. The report is ok exactly if every call resolves; it
misses as many requests as there are calls that do not, and it finds the symbols of those that do.
So no run of a program with such a report has an unresolved call, and a run that is not aborted has
one for each request that is missing. -/
theorem check_decides_linking (p : Program) :
    ∃ report, p.requires.check = .ok report ∧
      (report.ok = true ↔ ∀ c ∈ p.calls, c.binding.resolve?.isSome = true) ∧
      report.missing.length = p.calls.countP (·.binding.resolve?.isNone) ∧
      (report.resolved.map Resolution.symbol).Perm
        ((p.calls.filterMap (·.binding.resolve?)).map Primitive.symbol) ∧
      (report.ok = true → ∀ memory, CallAnswer.unresolved ∉ (Program.run ⟨memory, p.calls⟩).1) ∧
      ∀ memory, (Program.run ⟨memory, p.calls⟩).2 = .finished →
        (Program.run ⟨memory, p.calls⟩).1.count .unresolved = report.missing.length := by
  have hok := p.ok_requires
  have hmissing := p.length_missing_requires
  refine ⟨_, Requires.check_eq_ok_iff.2 ⟨p.checkable_requires, rfl⟩, hok, hmissing,
    p.symbols_requires, ?_, ?_⟩
  · intro h memory hmem
    obtain ⟨hanswered, -⟩ := Machine.map_primitive?_run { words := memory } p.calls
    have hnone := hanswered.subset (List.mem_map_of_mem hmem)
    obtain ⟨c, hc, hresolve⟩ := List.mem_map.1 hnone
    have hsome := hok.1 h c hc
    rw [hresolve] at hsome
    exact absurd hsome (by decide)
  · intro memory hfinished
    obtain ⟨-, hanswers⟩ := Machine.map_primitive?_run { words := memory } p.calls
    rw [CallAnswer.count_unresolved, Program.run, hanswers hfinished, hmissing, List.countP_map]
    rfl

/-- One of two calls has no primitive, and the program runs to its end nonetheless. -/
theorem check_decides_linking_frob :
    ∃ report : Report,
      Requires.check ⟨Contract.requiresVersion, Contract.abiMajor, ["newline"],
        [⟨"spelled", "frob"⟩]⟩ = .ok report ∧ report.ok = false ∧
      (Program.run ⟨[], [⟨.byName .spelled "frob", []⟩, ⟨.bySymbol "newline", []⟩]⟩).1.count
        .unresolved = report.missing.length := by
  obtain ⟨report, hcheck, hok, -, -, -, hcount⟩ := check_decides_linking
    ⟨[], [⟨.byName .spelled "frob", []⟩, ⟨.bySymbol "newline", []⟩]⟩
  refine ⟨report, hcheck, Bool.eq_false_iff.2 ?_, hcount [] (by decide)⟩
  intro h
  exact absurd (hok.1 h) (by decide)

end PrimitiveAbi
