import Mathlib.Data.List.Perm.Basic
import PrimitiveAbi.Requires

/-!
# What the check of requirements reports

Requirements are checked exactly if they have the version and the ABI of the catalog and all their
surfaces can be read (`Requires.check_eq_ok_iff`). The report is then a function of the requests,
which are looked up one by one; their order decides the order of the report and nothing else
(`Report.ofLookups_perm`).
-/

namespace PrimitiveAbi

/-! ### Requests -/

namespace NameRequest

/-- The surface of the request can be read. -/
def Readable (r : NameRequest) : Prop := ∃ surface, Surface.parse r.surface = .ok surface

/-- The request that is looked up; no primitive is found on a surface that cannot be read. -/
def request (r : NameRequest) : Lookup :=
  match Surface.parse r.surface with
  | .error _ => ⟨r.name, none⟩
  | .ok surface => Lookup.ofName surface r.name

theorem request_eq {r : NameRequest} {surface : Surface}
    (h : Surface.parse r.surface = .ok surface) : r.request = Lookup.ofName surface r.name := by
  rw [request, h]

theorem lookup_eq_ok_iff {r : NameRequest} {l : Lookup} :
    r.lookup = .ok l ↔ r.Readable ∧ r.request = l := by
  rw [lookup, request, Readable]
  cases Surface.parse r.surface <;> simp

end NameRequest

theorem mapM_lookup_eq_ok_iff {rs : List NameRequest} {ls : List Lookup} :
    rs.mapM NameRequest.lookup = .ok ls ↔
      (∀ r ∈ rs, r.Readable) ∧ rs.map NameRequest.request = ls := by
  induction rs generalizing ls with
  | nil => simp [pure, Except.pure]
  | cons r rs ih =>
    rw [List.mapM_cons]
    constructor
    · intro h
      cases hr : r.lookup with
      | error e => simp [hr, bind, Except.bind] at h
      | ok l =>
        cases hrs : rs.mapM NameRequest.lookup with
        | error e => simp [hr, hrs, bind, Except.bind] at h
        | ok others =>
          obtain rfl : l :: others = ls := by
            simpa [hr, hrs, bind, Except.bind, pure, Except.pure] using h
          obtain ⟨hread, hreq⟩ := NameRequest.lookup_eq_ok_iff.1 hr
          obtain ⟨hreads, hreqs⟩ := ih.1 hrs
          exact ⟨List.forall_mem_cons.2 ⟨hread, hreads⟩, by rw [List.map_cons, hreq, hreqs]⟩
    · rintro ⟨hreads, rfl⟩
      obtain ⟨hread, hreads⟩ := List.forall_mem_cons.1 hreads
      rw [NameRequest.lookup_eq_ok_iff.2 ⟨hread, rfl⟩, ih.2 ⟨hreads, rfl⟩]
      rfl

/-! ### Requirements that are checked -/

namespace Requires

/-- The requirements are of the catalog's version and ABI, and their surfaces can be read. -/
structure Checkable (r : Requires) : Prop where
  version : r.version = Contract.requiresVersion
  abiMajor : r.abiMajor = Contract.abiMajor
  readable : ∀ n ∈ r.names, n.Readable

/-- All requests, the symbols first. -/
def lookups (r : Requires) : List Lookup :=
  r.symbols.map Lookup.ofSymbol ++ r.names.map NameRequest.request

theorem check_eq_ok_iff {r : Requires} {report : Report} :
    r.check = .ok report ↔ r.Checkable ∧ report = Report.ofLookups r.lookups := by
  constructor
  · intro h
    rw [check] at h
    split at h
    · simp at h
    rename_i hversion
    split at h
    · simp at h
    rename_i habi
    split at h
    · simp at h
    rename_i names hnames
    obtain ⟨hread, rfl⟩ := mapM_lookup_eq_ok_iff.1 hnames
    exact ⟨⟨not_not.1 hversion, not_not.1 habi, hread⟩, (Except.ok.inj h).symm⟩
  · rintro ⟨hr, rfl⟩
    rw [check, if_neg (not_not.2 hr.version), if_neg (not_not.2 hr.abiMajor),
      mapM_lookup_eq_ok_iff.2 ⟨hr.readable, rfl⟩]
    rfl

end Requires

/-! ### Reports -/

namespace Report

theorem map_symbol_resolved (ls : List Lookup) :
    (ofLookups ls).resolved.map Resolution.symbol =
      (ls.filterMap Lookup.found).map Primitive.symbol := by
  simp only [ofLookups, List.map_filterMap, Option.map_map]
  rfl

theorem missing_append (ls ls' : List Lookup) :
    (ofLookups (ls ++ ls')).missing = (ofLookups ls).missing ++ (ofLookups ls').missing := by
  simp [ofLookups]

theorem length_missing (ls : List Lookup) :
    (ofLookups ls).missing.length = ls.countP (·.found.isNone) := by
  simp [ofLookups, List.countP_eq_length_filter]

theorem ok_iff {ls : List Lookup} : (ofLookups ls).ok = true ↔ ∀ l ∈ ls, l.found.isSome = true := by
  simp [ofLookups]

theorem ok_eq (ls : List Lookup) : (ofLookups ls).ok = (ofLookups ls).missing.isEmpty := by
  rw [Bool.eq_iff_iff, ok_iff, List.isEmpty_iff]
  simp [ofLookups, Option.isSome_iff_ne_none]

/-- The order of the requests decides the order of the report and nothing else. -/
theorem ofLookups_perm {ls ls' : List Lookup} (h : ls.Perm ls') :
    (ofLookups ls).resolved.Perm (ofLookups ls').resolved ∧
      (ofLookups ls).missing.Perm (ofLookups ls').missing ∧
      (ofLookups ls).ok = (ofLookups ls').ok := by
  refine ⟨h.filterMap _, (h.filter _).map _, ?_⟩
  rw [Bool.eq_iff_iff, ok_iff, ok_iff]
  simp only [h.mem_iff]

end Report

end PrimitiveAbi
