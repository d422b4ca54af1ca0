import PrimitiveAbi.Proofs.Binding
import PrimitiveAbi.Proofs.Linking

/-!
# What becomes of each request

A check that gives a report settles every request: it goes to the resolved ones, with the symbol
that the catalog exports it under, or to the missing ones, and both lists keep the order of the
requests (`Settled`). A check that gives none fails for the first reason there is: the version, the
ABI, or the first name with a surface that cannot be read (`Requires.exists_check_eq_error`).
-/

namespace PrimitiveAbi

/-! ### Requests -/

/-- The primitive is what the binding asks for: it has the symbol, or the name on the surface. -/
def Primitive.Serves (p : Primitive) : Binding → Prop
  | .bySymbol symbol => p.symbol = symbol
  | .byName surface name => (surface, name) ∈ p.names

namespace Binding

/-- How a report names the request of a binding. -/
def text : Binding → String
  | .bySymbol symbol => symbol
  | .byName surface name => surface.name ++ ":" ++ name

/-- The catalog exports what the binding asks for under a symbol. -/
def ExportedAs (b : Binding) (symbol : String) : Prop :=
  ∃ p ∈ Catalog.all, p.Serves b ∧ p.symbol = symbol

theorem requested_request (b : Binding) : b.request.requested = b.text := by
  cases b <;> rfl

theorem exportedAs_of_resolve? {b : Binding} {p : Primitive} (h : b.resolve? = some p) :
    b.ExportedAs p.symbol := by
  cases b with
  | bySymbol symbol =>
    obtain ⟨hp, hsymbol⟩ := Catalog.of_findSymbol? h
    exact ⟨p, hp, hsymbol, rfl⟩
  | byName surface name =>
    obtain ⟨hp, hname⟩ := Catalog.of_findName? h
    exact ⟨p, hp, hname, rfl⟩

theorem not_exportedAs_of_resolve? {b : Binding} (h : b.resolve? = none) (symbol : String) :
    ¬ b.ExportedAs symbol := by
  rintro ⟨p, hp, hserves, -⟩
  have hfound : b.resolve? = some p := by
    cases b with
    | bySymbol =>
      obtain rfl := hserves
      exact Catalog.findSymbol?_symbol p hp
    | byName surface name => exact Catalog.findName?_name p hp _ hserves
  rw [hfound] at h
  exact nomatch h

end Binding

/-- Each request goes to one of two lists, which keep the order of the requests: to the resolved
ones, with the symbol that it is exported under, or to the missing ones if it is not exported. -/
inductive Settled : List Binding → List Resolution → List String → Prop
  | nil : Settled [] [] []
  | resolved {b : Binding} {bs : List Binding} {symbol : String} {resolved : List Resolution}
      {missing : List String} : b.ExportedAs symbol → Settled bs resolved missing →
      Settled (b :: bs) (⟨b.text, symbol⟩ :: resolved) missing
  | missing {b : Binding} {bs : List Binding} {resolved : List Resolution}
      {missing : List String} : (∀ symbol, ¬ b.ExportedAs symbol) → Settled bs resolved missing →
      Settled (b :: bs) resolved (b.text :: missing)

namespace Report

theorem ofLookups_cons_of_some {l : Lookup} {p : Primitive} (h : l.found = some p)
    (ls : List Lookup) : ofLookups (l :: ls) =
      { ofLookups ls with resolved := ⟨l.requested, p.symbol⟩ :: (ofLookups ls).resolved } := by
  simp [ofLookups, h]

theorem ofLookups_cons_of_none {l : Lookup} (h : l.found = none) (ls : List Lookup) :
    ofLookups (l :: ls) =
      { ofLookups ls with ok := false, missing := l.requested :: (ofLookups ls).missing } := by
  simp [ofLookups, h]

/-- A report settles the requests that it is on. -/
theorem settled_ofLookups (bs : List Binding) :
    Settled bs (ofLookups (bs.map Binding.request)).resolved
      (ofLookups (bs.map Binding.request)).missing := by
  induction bs with
  | nil => exact .nil
  | cons b bs ih =>
    rw [List.map_cons]
    cases hb : b.resolve? with
    | some p =>
      rw [ofLookups_cons_of_some (b.found_request.trans hb), b.requested_request]
      exact .resolved (Binding.exportedAs_of_resolve? hb) ih
    | none =>
      rw [ofLookups_cons_of_none (b.found_request.trans hb), b.requested_request]
      exact .missing (Binding.not_exportedAs_of_resolve? hb) ih

/-- Symbols of the catalog are resolved to themselves. -/
theorem ofLookups_symbols {symbols : List String}
    (h : ∀ symbol ∈ symbols, ∃ p ∈ Catalog.all, p.symbol = symbol) :
    ofLookups (symbols.map Lookup.ofSymbol) =
      ⟨Contract.reportVersion, true, symbols.map fun symbol => ⟨symbol, symbol⟩, []⟩ := by
  induction symbols with
  | nil => rfl
  | cons symbol symbols ih =>
    obtain ⟨⟨p, hp, rfl⟩, hsymbols⟩ := List.forall_mem_cons.1 h
    rw [List.map_cons, ofLookups_cons_of_some (Catalog.findSymbol?_symbol p hp), ih hsymbols]
    rfl

end Report

/-- What is resolved is resolved to a symbol of the catalog. -/
theorem Settled.symbol_mem {bs : List Binding} {resolved : List Resolution}
    {missing : List String} (h : Settled bs resolved missing) :
    ∀ symbol ∈ resolved.map Resolution.symbol, ∃ p ∈ Catalog.all, p.symbol = symbol := by
  induction h with
  | nil => exact fun _ h => absurd h List.not_mem_nil
  | resolved hb _ ih =>
    obtain ⟨p, hp, -, hsymbol⟩ := hb
    exact List.forall_mem_cons.2 ⟨⟨p, hp, hsymbol⟩, ih⟩
  | missing _ _ ih => exact ih

/-! ### Documents -/

namespace NameRequest

/-- The request asks for a name on the surface that its text says. -/
def Asks (n : NameRequest) (b : Binding) : Prop :=
  ∃ surface, Surface.parse n.surface = .ok surface ∧ b = .byName surface n.name

theorem exists_asks {n : NameRequest} (h : n.Readable) : ∃ b, n.Asks b ∧ n.request = b.request := by
  obtain ⟨surface, hsurface⟩ := h
  exact ⟨.byName surface n.name, ⟨surface, hsurface, rfl⟩, request_eq hsurface⟩

theorem exists_asks_list {ns : List NameRequest} (h : ∀ n ∈ ns, n.Readable) :
    ∃ bs, List.Forall₂ Asks ns bs ∧ ns.map request = bs.map Binding.request := by
  induction ns with
  | nil => exact ⟨[], .nil, rfl⟩
  | cons n ns ih =>
    obtain ⟨hn, hns⟩ := List.forall_mem_cons.1 h
    obtain ⟨b, hb, hrequest⟩ := exists_asks hn
    obtain ⟨bs, hbs, hrequests⟩ := ih hns
    exact ⟨b :: bs, .cons hb hbs, by rw [List.map_cons, List.map_cons, hrequest, hrequests]⟩

end NameRequest

/-- A surface that cannot be read is reported as it is written. -/
theorem Surface.parse_eq_error {s : String} (h : ¬ ∃ surface, parse s = .ok surface) :
    parse s = .error ⟨s⟩ := by
  rw [parse] at h ⊢
  split
  · next hspelled => exact absurd ⟨_, if_pos hspelled⟩ h
  · split
    · next hspelled hsymbolic => exact absurd ⟨_, (if_neg hspelled).trans (if_pos hsymbolic)⟩ h
    · rfl

theorem NameRequest.lookup_eq_error {n : NameRequest} (h : ¬ n.Readable) :
    n.lookup = .error (.surface n.name ⟨n.surface⟩) := by
  rw [lookup, Surface.parse_eq_error h]

/-- Looking up names fails for the first one with a surface that cannot be read. -/
theorem mapM_lookup_of_not_readable {ns : List NameRequest} (h : ¬ ∀ n ∈ ns, n.Readable) :
    ∃ before n after, ns = before ++ n :: after ∧ (∀ b ∈ before, b.Readable) ∧ ¬ n.Readable ∧
      ns.mapM NameRequest.lookup = .error (.surface n.name ⟨n.surface⟩) := by
  induction ns with
  | nil => exact absurd (fun _ hn => absurd hn List.not_mem_nil) h
  | cons n ns ih =>
    by_cases hn : n.Readable
    · have hns : ¬ ∀ n ∈ ns, n.Readable := fun hns => h (List.forall_mem_cons.2 ⟨hn, hns⟩)
      obtain ⟨before, m, after, rfl, hbefore, hm, hlookup⟩ := ih hns
      refine ⟨n :: before, m, after, rfl, List.forall_mem_cons.2 ⟨hn, hbefore⟩, hm, ?_⟩
      rw [List.mapM_cons, NameRequest.lookup_eq_ok_iff.2 ⟨hn, rfl⟩, hlookup]
      rfl
    · refine ⟨[], n, ns, rfl, fun _ hb => absurd hb List.not_mem_nil, hn, ?_⟩
      rw [List.mapM_cons, NameRequest.lookup_eq_error hn]
      rfl

/-- A check fails for the first name with a surface that cannot be read. -/
theorem Requires.exists_check_eq_error {r : Requires} (hversion : r.version = Contract.requiresVersion)
    (habi : r.abiMajor = Contract.abiMajor) (hnames : ¬ ∀ n ∈ r.names, n.Readable) :
    ∃ before n after, r.names = before ++ n :: after ∧ (∀ b ∈ before, b.Readable) ∧
      ¬ n.Readable ∧ r.check = .error (.surface n.name ⟨n.surface⟩) := by
  obtain ⟨before, n, after, hsplit, hbefore, hn, hlookup⟩ := mapM_lookup_of_not_readable hnames
  refine ⟨before, n, after, hsplit, hbefore, hn, ?_⟩
  rw [check, if_neg (not_not.2 hversion), if_neg (not_not.2 habi), hlookup]

/-- Requirements of another version are refused for their version, others of another ABI for that,
and others with a surface that cannot be read for the first name that has one. All others get a
report. It settles the requests, the symbols first and the names as the primitives of their
surfaces, and it is ok if none is missing. Requiring the symbols that were found is ok and finds
each of them. -/
theorem check_settles_requests (r : Requires) :
    (r.version ≠ Contract.requiresVersion → r.check = .error (.version r.version)) ∧
    (r.version = Contract.requiresVersion → r.abiMajor ≠ Contract.abiMajor →
      r.check = .error (.abiMajor r.abiMajor)) ∧
    (r.version = Contract.requiresVersion → r.abiMajor = Contract.abiMajor →
      (¬ ∀ n ∈ r.names, n.Readable) →
      ∃ before n after, r.names = before ++ n :: after ∧ (∀ b ∈ before, b.Readable) ∧
        ¬ n.Readable ∧ r.check = .error (.surface n.name ⟨n.surface⟩)) ∧
    (r.version = Contract.requiresVersion → r.abiMajor = Contract.abiMajor →
      (∀ n ∈ r.names, n.Readable) →
      ∃ report names, r.check = .ok report ∧ report.version = Contract.reportVersion ∧
        List.Forall₂ NameRequest.Asks r.names names ∧
        Settled (r.symbols.map Binding.bySymbol ++ names) report.resolved report.missing ∧
        (report.ok = true ↔ report.missing = []) ∧
        Requires.check { r with symbols := report.resolved.map Resolution.symbol, names := [] } =
          .ok ⟨Contract.reportVersion, true,
            report.resolved.map fun x => ⟨x.symbol, x.symbol⟩, []⟩) := by
  refine ⟨?_, ?_, ?_, ?_⟩
  · intro hversion
    rw [Requires.check, if_pos hversion]
  · intro hversion habi
    rw [Requires.check, if_neg (not_not.2 hversion), if_pos habi]
  · exact Requires.exists_check_eq_error
  · intro hversion habi hnames
    obtain ⟨names, hasks, hrequests⟩ := NameRequest.exists_asks_list hnames
    have hlookups : r.lookups = (r.symbols.map Binding.bySymbol ++ names).map Binding.request := by
      rw [Requires.lookups, hrequests, List.map_append, List.map_map]
      rfl
    have hsettled := Report.settled_ofLookups (r.symbols.map Binding.bySymbol ++ names)
    rw [← hlookups] at hsettled
    refine ⟨_, names, Requires.check_eq_ok_iff.2 ⟨⟨hversion, habi, hnames⟩, rfl⟩, rfl, hasks,
      hsettled, ?_, ?_⟩
    · rw [Report.ok_eq, List.isEmpty_iff]
    · -- the document of the symbols found is checked anew
      refine Requires.check_eq_ok_iff.2 ⟨⟨hversion, habi, fun _ h => absurd h List.not_mem_nil⟩, ?_⟩
      have hfound : Requires.lookups
          { r with symbols := (Report.ofLookups r.lookups).resolved.map (·.symbol), names := [] } =
            ((Report.ofLookups r.lookups).resolved.map (·.symbol)).map Lookup.ofSymbol :=
        List.append_nil _
      rw [hfound, Report.ofLookups_symbols hsettled.symbol_mem, List.map_map]
      rfl

/-- Four documents: of another version and ABI, of another ABI only, with two surfaces that cannot
be read and a symbol that is missing, and with requests that are found and others that are not. -/
theorem check_settles_requests_four :
    Requires.check ⟨"", 2, [], [⟨"operators", "+"⟩]⟩ = .error (.version "") ∧
    Requires.check ⟨Contract.requiresVersion, 2, [], [⟨"operators", "+"⟩]⟩ = .error (.abiMajor 2) ∧
    Requires.check ⟨Contract.requiresVersion, Contract.abiMajor, ["frob"],
      [⟨"operators", "+"⟩, ⟨"", "-"⟩]⟩ = .error (.surface "+" ⟨"operators"⟩) ∧
    ∃ names resolved missing, List.Forall₂ NameRequest.Asks
        [⟨"symbolic", "remainder"⟩, ⟨" SPELLED", "peek"⟩] names ∧
      Settled (.bySymbol "frob" :: .bySymbol "_43" :: names) resolved missing ∧ missing ≠ [] ∧
      Requires.check ⟨Contract.requiresVersion, Contract.abiMajor, ["_43", "peek"], []⟩ =
        .ok ⟨Contract.reportVersion, true, [⟨"_43", "_43"⟩, ⟨"peek", "peek"⟩], []⟩ := by
  refine ⟨(check_settles_requests _).1 (by decide), (check_settles_requests _).2.1 rfl (by decide),
    ?_, ?_⟩
  · have hoperators : ¬ NameRequest.Readable ⟨"operators", "+"⟩ := by
      rintro ⟨surface, h⟩
      revert h
      cases surface <;> decide
    obtain ⟨before, n, after, hsplit, hbefore, -, hcheck⟩ :=
      (check_settles_requests ⟨Contract.requiresVersion, Contract.abiMajor, ["frob"],
        [⟨"operators", "+"⟩, ⟨"", "-"⟩]⟩).2.2.1 rfl rfl
        fun h => hoperators (h _ List.mem_cons_self)
    cases before with
    | nil =>
      obtain ⟨rfl, -⟩ := List.cons.inj hsplit
      exact hcheck
    | cons b before =>
      obtain ⟨rfl, -⟩ := List.cons.inj hsplit
      exact absurd (hbefore _ List.mem_cons_self) hoperators
  · obtain ⟨report, names, hcheck, -, hasks, hsettled, hok, hagain⟩ :=
      (check_settles_requests ⟨Contract.requiresVersion, Contract.abiMajor, ["frob", "_43"],
        [⟨"symbolic", "remainder"⟩, ⟨" SPELLED", "peek"⟩]⟩).2.2.2 rfl rfl
        (List.forall_mem_cons.2 ⟨⟨.symbolic, by decide⟩,
          List.forall_mem_singleton.2 ⟨.spelled, by decide⟩⟩)
    obtain rfl : (⟨Contract.reportVersion, false, [⟨"_43", "_43"⟩, ⟨"spelled:peek", "peek"⟩],
        ["frob", "symbolic:remainder"]⟩ : Report) = report := by
      rw [← Except.ok.injEq, ← hcheck]
      decide
    exact ⟨names, _, _, hasks, hsettled, List.cons_ne_nil _ _, hagain⟩

end PrimitiveAbi
