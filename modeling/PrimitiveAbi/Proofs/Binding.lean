import Mathlib.Data.List.Forall2
import PrimitiveAbi.Mangling
import PrimitiveAbi.Program
import PrimitiveAbi.Proofs.Check

/-!
# A name binds like its symbol

A name on a surface and the symbol that it mangles to mean the same primitive of the catalog. So a
program runs alike if some of its calls are bound the other way (`Program.Rebound`), and the check
of requirements finds the same symbols if names that resolve are required by symbol instead.
-/

namespace PrimitiveAbi

/-! ### The catalog -/

namespace Catalog

theorem of_findSymbol? {symbol : String} {p : Primitive} (h : findSymbol? symbol = some p) :
    p ∈ all ∧ p.symbol = symbol :=
  ⟨List.mem_of_find?_eq_some h, by simpa using List.find?_some h⟩

theorem of_findName? {surface : Surface} {name : String} {p : Primitive}
    (h : findName? surface name = some p) : p ∈ all ∧ (surface, name) ∈ p.names := by
  refine ⟨List.mem_of_find?_eq_some h, ?_⟩
  have hname : p.name? surface = some name := by simpa using List.find?_some h
  obtain ⟨⟨s, n⟩, hfind, rfl⟩ := Option.map_eq_some_iff.1 hname
  obtain rfl : s = surface := by simpa using List.find?_some hfind
  exact List.mem_of_find?_eq_some hfind

theorem names_ne_nil : ∀ p ∈ all, p.names ≠ [] := by decide

theorem findSymbol?_symbol : ∀ p ∈ all, findSymbol? p.symbol = some p := by decide

/-- Every name of a primitive is found again on its surface. -/
theorem findName?_name : ∀ p ∈ all, ∀ n ∈ p.names, findName? n.1 n.2 = some p := by decide

/-- Every name of a primitive mangles to its symbol. -/
theorem mangle_name : ∀ p ∈ all, ∀ n ∈ p.names, Mangling.mangle n.2 = p.symbol := by decide

theorem findSymbol?_mangle {surface : Surface} {name : String} {p : Primitive}
    (h : findName? surface name = some p) : findSymbol? (Mangling.mangle name) = some p := by
  obtain ⟨hp, hn⟩ := of_findName? h
  rw [mangle_name p hp _ hn]
  exact findSymbol?_symbol p hp

theorem findName?_of_demangle? {symbol : String} {names : List (Surface × String)}
    (h : Mangling.demangle? symbol = some names) {surface : Surface} {name : String}
    (hn : (surface, name) ∈ names) : findName? surface name = findSymbol? symbol := by
  obtain ⟨p, hp, rfl⟩ := Option.map_eq_some_iff.1 h
  rw [hp]
  exact findName?_name p (of_findSymbol? hp).1 _ hn

end Catalog

/-! ### Programs -/

/-- A binding, and the same one or its counterpart: the symbol of a name that resolves, or a name of
the primitive with a symbol. -/
inductive Binding.Counterpart : Binding → Binding → Prop
  | same {b : Binding} : Counterpart b b
  | toSymbol {surface : Surface} {name : String} :
      (Catalog.findName? surface name).isSome = true →
      Counterpart (.byName surface name) (.bySymbol (Mangling.mangle name))
  | toName {symbol : String} {names : List (Surface × String)} {surface : Surface}
      {name : String} : Mangling.demangle? symbol = some names → (surface, name) ∈ names →
      Counterpart (.bySymbol symbol) (.byName surface name)

theorem Binding.Counterpart.resolve?_eq {b b' : Binding} (h : b.Counterpart b') :
    b'.resolve? = b.resolve? := by
  cases h with
  | same => rfl
  | @toSymbol surface name h =>
    obtain ⟨p, hp⟩ := Option.isSome_iff_exists.1 h
    show Catalog.findSymbol? (Mangling.mangle name) = Catalog.findName? surface name
    rw [Catalog.findSymbol?_mangle hp, hp]
  | toName h hn => exact Catalog.findName?_of_demangle? h hn

/-- The call passes the same arguments and is bound alike. -/
structure Call.Counterpart (c c' : Call) : Prop where
  binding : c.binding.Counterpart c'.binding
  arguments : c'.arguments = c.arguments

/-- The program starts in the same memory and makes the same calls, whichever way they are bound. -/
structure Program.Rebound (p p' : Program) : Prop where
  memory : p'.memory = p.memory
  calls : List.Forall₂ Call.Counterpart p.calls p'.calls

theorem Call.Counterpart.step?_eq {c c' : Call} (h : c.Counterpart c') (m : Machine) :
    m.step? c' = m.step? c := by
  rw [Machine.step?, Machine.step?, h.binding.resolve?_eq, h.arguments]

theorem Machine.run_eq {cs cs' : List Call} (h : List.Forall₂ Call.Counterpart cs cs')
    (m : Machine) : m.run cs' = m.run cs := by
  induction h generalizing m with
  | nil => rfl
  | cons hc _ ih =>
    rw [Machine.run, Machine.run, hc.step?_eq]
    cases m.step? _ with
    | none => rfl
    | some next => simp only [ih]

theorem Program.Rebound.run_eq {p p' : Program} (h : p.Rebound p') : p'.run = p.run := by
  rw [Program.run, Program.run, h.memory]
  exact Machine.run_eq h.calls _

/-! ### Requirements -/

/-- Whether the catalog has the name. -/
def NameRequest.resolves (n : NameRequest) : Bool := n.request.found.isSome

/-- The symbol of a name that resolves means the same primitive. -/
theorem NameRequest.found_mangle {n : NameRequest} (h : n.resolves = true) :
    (Lookup.ofSymbol (Mangling.mangle n.name)).found = n.request.found := by
  obtain ⟨p, hp⟩ := Option.isSome_iff_exists.1 h
  rw [hp]
  rw [NameRequest.request] at hp
  split at hp
  · simp at hp
  · exact Catalog.findSymbol?_mangle hp

namespace Requires

/-- The same requirements, but names that resolve are required by their symbols. -/
def bindBySymbol (r : Requires) : Requires where
  version := r.version
  abiMajor := r.abiMajor
  symbols := r.symbols ++ (r.names.filter (·.resolves)).map fun n => Mangling.mangle n.name
  names := r.names.filter (!·.resolves)

theorem Checkable.bindBySymbol {r : Requires} (h : r.Checkable) : r.bindBySymbol.Checkable where
  version := h.version
  abiMajor := h.abiMajor
  readable n hn := h.readable n (List.mem_of_mem_filter hn)

end Requires

/-- What is found of names is found of the symbols of those that resolve. -/
theorem filterMap_found_names (ns : List NameRequest) :
    ((((ns.filter (·.resolves)).map fun n => Mangling.mangle n.name).map Lookup.ofSymbol) ++
      (ns.filter (!·.resolves)).map NameRequest.request).filterMap Lookup.found =
        (ns.map NameRequest.request).filterMap Lookup.found := by
  induction ns with
  | nil => rfl
  | cons n ns ih =>
    by_cases hn : n.resolves = true
    · have hfound := NameRequest.found_mangle hn
      simp only [List.filter_cons, hn, if_true, Bool.not_true, Bool.false_eq_true, if_false,
        List.map_cons, List.cons_append, List.filterMap_cons, hfound, ih]
    · have hfound : n.request.found = none := Option.not_isSome_iff_eq_none.1 hn
      rw [Bool.not_eq_true] at hn
      rw [List.filterMap_append] at ih ⊢
      simp only [List.filter_cons, hn, Bool.false_eq_true, if_false, Bool.not_false, if_true,
        List.map_cons, List.filterMap_cons, hfound, ih]

namespace Requires

theorem filterMap_found_bindBySymbol (r : Requires) :
    r.bindBySymbol.lookups.filterMap Lookup.found = r.lookups.filterMap Lookup.found := by
  rw [lookups, lookups, bindBySymbol, List.map_append, List.append_assoc, List.filterMap_append,
    filterMap_found_names, ← List.filterMap_append]

/-- Where symbols of names that resolve come to others, none of them is missing. -/
theorem missing_bindBySymbol_symbols (r : Requires) :
    (Report.ofLookups (r.bindBySymbol.symbols.map Lookup.ofSymbol)).missing =
      (Report.ofLookups (r.symbols.map Lookup.ofSymbol)).missing := by
  rw [bindBySymbol, List.map_append, Report.missing_append]
  refine List.append_right_eq_self.2 ?_
  rw [← List.isEmpty_iff, ← Report.ok_eq, Report.ok_iff]
  intro l hl
  simp only [List.mem_map, List.mem_filter] at hl
  obtain ⟨_, ⟨n, ⟨-, hn⟩, rfl⟩, rfl⟩ := hl
  rw [NameRequest.found_mangle hn]
  exact hn

theorem missing_bindBySymbol_names (r : Requires) :
    (Report.ofLookups (r.bindBySymbol.names.map NameRequest.request)).missing =
      (Report.ofLookups (r.names.map NameRequest.request)).missing := by
  have hpred : ∀ n : NameRequest, (n.request.found.isNone && !n.resolves) =
      n.request.found.isNone := by
    intro n
    cases h : n.request.found <;> simp [NameRequest.resolves, h]
  simp only [Report.ofLookups, bindBySymbol, List.filter_map, List.filter_filter,
    Function.comp_def, hpred]

theorem missing_bindBySymbol (r : Requires) :
    (Report.ofLookups r.bindBySymbol.lookups).missing = (Report.ofLookups r.lookups).missing := by
  rw [lookups, lookups, Report.missing_append, Report.missing_append,
    r.missing_bindBySymbol_symbols, r.missing_bindBySymbol_names]

/-- Symbols that come in between others leave the missing ones in their order. -/
theorem missing_symbols_of_sublist {r : Requires} {symbols : List String}
    (hsub : r.symbols.Sublist symbols) (hp : symbols.Perm r.bindBySymbol.symbols) :
    (Report.ofLookups (symbols.map Lookup.ofSymbol)).missing =
      (Report.ofLookups (r.symbols.map Lookup.ofSymbol)).missing := by
  have hmissing := (Report.ofLookups_perm (hp.map Lookup.ofSymbol)).2.1
  rw [r.missing_bindBySymbol_symbols] at hmissing
  refine (List.Sublist.eq_of_length ?_ hmissing.length_eq.symm).symm
  exact ((hsub.map _).filter _).map _

end Requires

/-- Binding by name and binding by symbol cannot be told apart. Programs whose calls are bound
either way give the same answers and end the same way. Requirements with names that resolve moved to
the symbols, in whatever order these then stand, are checked like those with the names: the same
symbols are found, the same requests are missing, and in the same order if the symbols that were
there before stay in theirs. -/
theorem binding_unobservable :
    (∀ p p' : Program, p.Rebound p' → p'.run = p.run) ∧
    ∀ r : Requires, r.Checkable → ∀ symbols : List String,
      symbols.Perm r.bindBySymbol.symbols →
      ∃ report report' : Report, r.check = .ok report ∧
        { r.bindBySymbol with symbols }.check = .ok report' ∧
        (report'.resolved.map Resolution.symbol).Perm (report.resolved.map Resolution.symbol) ∧
        report'.missing.Perm report.missing ∧ report'.ok = report.ok ∧
        (r.symbols.Sublist symbols → report'.missing = report.missing) := by
  refine ⟨fun _ _ h => h.run_eq, ?_⟩
  intro r hr symbols hp
  have hr' := hr.bindBySymbol
  have hlookups : Requires.lookups { r.bindBySymbol with symbols } =
      symbols.map Lookup.ofSymbol ++ r.bindBySymbol.names.map NameRequest.request := rfl
  have hperm : (Requires.lookups { r.bindBySymbol with symbols }).Perm r.bindBySymbol.lookups :=
    (hp.map Lookup.ofSymbol).append_right _
  have hmissing := r.missing_bindBySymbol
  obtain ⟨-, hmissing', hok⟩ := Report.ofLookups_perm hperm
  refine ⟨_, _, Requires.check_eq_ok_iff.2 ⟨hr, rfl⟩, Requires.check_eq_ok_iff.2
    ⟨⟨hr'.version, hr'.abiMajor, hr'.readable⟩, rfl⟩, ?_, hmissing ▸ hmissing', ?_, ?_⟩
  · rw [Report.map_symbol_resolved, Report.map_symbol_resolved, ← r.filterMap_found_bindBySymbol]
    exact (hperm.filterMap _).map _
  · rw [hok, Report.ok_eq, Report.ok_eq, hmissing]
  · -- symbols and names are missed apart from each other
    intro hsub
    rw [hlookups, Requires.lookups, Report.missing_append, Report.missing_append,
      Requires.missing_symbols_of_sublist hsub hp, r.missing_bindBySymbol_names]

theorem binding_unobservable_plus :
    (Program.run ⟨[7], [⟨.bySymbol "_43", [.number 1, .number 2]⟩,
        ⟨.byName .symbolic "not", [.result 0]⟩]⟩ =
      Program.run ⟨[7], [⟨.byName .symbolic "+", [.number 1, .number 2]⟩,
        ⟨.bySymbol "not", [.result 0]⟩]⟩) ∧
    ∃ report report' : Report,
      Requires.check ⟨Contract.requiresVersion, Contract.abiMajor, ["frob"], [⟨"symbolic", "+"⟩]⟩ =
        .ok report ∧
      Requires.check ⟨Contract.requiresVersion, Contract.abiMajor, ["_43", "frob"], []⟩ =
        .ok report' ∧ report'.missing = report.missing := by
  constructor
  · refine binding_unobservable.1 _ _ ⟨rfl, .cons ⟨?_, rfl⟩ (.cons ⟨?_, rfl⟩ .nil)⟩
    · exact .toSymbol (by decide)
    · exact .toName rfl (by decide)
  · obtain ⟨report, report', h, h', -, -, -, hmissing⟩ := binding_unobservable.2
      ⟨Contract.requiresVersion, Contract.abiMajor, ["frob"], [⟨"symbolic", "+"⟩]⟩
      ⟨rfl, rfl, List.forall_mem_singleton.2 ⟨.symbolic, by decide⟩⟩ ["_43", "frob"] (by decide)
    exact ⟨report, report', h, h', hmissing (by decide)⟩

end PrimitiveAbi
