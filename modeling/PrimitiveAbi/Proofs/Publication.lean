import PrimitiveAbi.Proofs.Binding
import PrimitiveAbi.Proofs.Header.Reading

/-!
# The check, the manifest and the header agree

What the check of requirements resolves is what the tools publish: a symbol if the manifest of all
surfaces lists it and the header declares it, and a name if the manifest of its surface lists it
under the symbol. All three come down to the catalog, to a primitive with the symbol and among its
names the name.
-/

namespace PrimitiveAbi

/-! ### Manifests -/

namespace Manifest

/-- The manifest lists a primitive with the symbol. -/
def Lists (m : Manifest) (symbol : String) : Prop := ∃ d ∈ m.primitives, d.symbol = symbol

/-- The manifest lists a primitive with the symbol, and a name of it. -/
def ListsName (m : Manifest) (surface : Surface) (name symbol : String) : Prop :=
  ∃ d ∈ m.primitives, d.symbol = symbol ∧ ⟨surface.name, name⟩ ∈ d.names

end Manifest

theorem Surface.name_inj {s s' : Surface} : s.name = s'.name ↔ s = s' := by
  cases s <;> cases s' <;> decide

/-- A primitive is declared with those of its names that the filter covers. -/
theorem Primitive.mem_names_declare {p : Primitive} {filter : SurfaceFilter} {surface : Surface}
    {name : String} : ⟨surface.name, name⟩ ∈ (p.declare filter).names ↔
      (surface, name) ∈ p.names ∧ filter.includes surface = true := by
  rw [declare, List.mem_map]
  constructor
  · rintro ⟨⟨surface', name'⟩, hmem, heq⟩
    obtain ⟨hsurface, rfl⟩ := PublicName.mk.inj heq
    obtain rfl := Surface.name_inj.1 hsurface
    exact List.mem_filter.1 hmem
  · intro h
    exact ⟨(surface, name), List.mem_filter.2 h, rfl⟩

namespace Manifest

theorem mem_build {filter : SurfaceFilter} {d : Declaration} :
    d ∈ (build filter).primitives ↔
      ∃ p ∈ Catalog.all, p.declare filter = d ∧ d.names ≠ [] := by
  rw [build, List.mem_filter, List.mem_map]
  simp only [Bool.not_eq_true', List.isEmpty_eq_false_iff]
  constructor
  · rintro ⟨⟨p, hp, rfl⟩, hne⟩
    exact ⟨p, hp, rfl, hne⟩
  · rintro ⟨p, hp, rfl, hne⟩
    exact ⟨⟨p, hp, rfl⟩, hne⟩

/-- A primitive has a name on some surface, so the manifest of all surfaces lists it. -/
theorem lists_build_all {symbol : String} :
    (build .all).Lists symbol ↔ ∃ p ∈ Catalog.all, p.symbol = symbol := by
  constructor
  · rintro ⟨d, hd, rfl⟩
    obtain ⟨p, hp, rfl, -⟩ := mem_build.1 hd
    exact ⟨p, hp, rfl⟩
  · rintro ⟨p, hp, rfl⟩
    obtain ⟨⟨surface, name⟩, hn⟩ := List.exists_mem_of_ne_nil _ (Catalog.names_ne_nil p hp)
    have hmem := Primitive.mem_names_declare.2 ⟨hn, (rfl : SurfaceFilter.includes .all surface = _)⟩
    exact ⟨p.declare .all, mem_build.2 ⟨p, hp, rfl, List.ne_nil_of_mem hmem⟩, rfl⟩

/-- A manifest whose filter covers a surface lists all names on it. -/
theorem listsName_build {filter : SurfaceFilter} {surface : Surface} {name symbol : String}
    (h : filter.includes surface = true) : (build filter).ListsName surface name symbol ↔
      ∃ p ∈ Catalog.all, p.symbol = symbol ∧ (surface, name) ∈ p.names := by
  constructor
  · rintro ⟨d, hd, rfl, hn⟩
    obtain ⟨p, hp, rfl, -⟩ := mem_build.1 hd
    exact ⟨p, hp, rfl, (Primitive.mem_names_declare.1 hn).1⟩
  · rintro ⟨p, hp, rfl, hn⟩
    have hmem := Primitive.mem_names_declare.2 ⟨hn, h⟩
    exact ⟨p.declare filter, mem_build.2 ⟨p, hp, rfl, List.ne_nil_of_mem hmem⟩, rfl, hmem⟩

end Manifest

theorem SurfaceFilter.includes_only (s : Surface) : (only s).includes s = true := by
  cases s <;> rfl

/-! ### Headers -/

namespace Header

open Comment Text

/-- The declarations of a header: the lines that end with a semicolon, without the comments. -/
def declarations (header : String) : List (List Char) :=
  ((uncomment (pieces header.toList)).splitOn '\n').filter (·.getLast? = some ';')

/-- The header declares a function of this name, apart from the entry of the program. -/
def Declares (header symbol : String) : Prop :=
  ∃ l ∈ declarations header,
    l ≠ (importLine Contract.entry).toList ∧ (readPrototype l).symbol = symbol

/-- The declarations of a header are those of the imports and of the primitives. -/
theorem declarations_render {m : Manifest} (h : m.Printable) : declarations (render m) =
    (m.imports.map importLine).map String.toList ++
      m.primitives.map fun d => (prototype d ++ ";").toList := by
  have hpreamble : (preamble.map String.toList).filter (·.getLast? = some ';') = [] := by decide
  have himports : ((m.imports.map importLine).map String.toList).filter
      (·.getLast? = some ';') = (m.imports.map importLine).map String.toList := by
    rw [List.filter_eq_self, List.map_map, List.forall_mem_map]
    intro i _
    rw [Function.comp, importLine, String.toList_append, List.getLast?_append]
    rfl
  have hlines : (codeLines m).map String.toList ++ [[]] = preamble.map String.toList ++
      (m.imports.map importLine).map String.toList ++ restLines m.primitives := by
    simp only [codeLines, restLines, List.map_append, List.append_assoc]
    rfl
  rw [declarations, uncomment_pieces_render h, splitOn_text (newLine_not_mem_codeLines h), hlines,
    List.filter_append, List.filter_append, hpreamble, himports, filter_restLines, List.nil_append]

/-- Apart from the entry, the header of all surfaces declares the symbols of the catalog. -/
theorem declares_render_build_all {symbol : String} :
    Declares (render (Manifest.build .all)) symbol ↔ (Manifest.build .all).Lists symbol := by
  have hprintable := Manifest.printable_build .all
  have hread : ∀ d ∈ (Manifest.build .all).primitives,
      (readPrototype (prototype d ++ ";").toList).symbol = d.symbol := by
    intro d hd
    rw [readPrototype_prototype (hprintable.primitives d hd)]
    rfl
  rw [Declares, declarations_render hprintable]
  constructor
  · rintro ⟨l, hl, hentry, rfl⟩
    rcases List.mem_append.1 hl with hl | hl
    · exact absurd (List.mem_singleton.1 hl) hentry
    · obtain ⟨d, hd, rfl⟩ := List.mem_map.1 hl
      exact ⟨d, hd, (hread d hd).symm⟩
  · rintro ⟨d, hd, rfl⟩
    refine ⟨_, List.mem_append_right _ (List.mem_map_of_mem hd), ?_, hread d hd⟩
    intro heq
    have hsymbol : d.symbol = Contract.entry := by
      rw [← hread d hd, heq]
      exact readPrototype_importLine (by decide)
    obtain ⟨p, hp, rfl, -⟩ := Manifest.mem_build.1 hd
    have hne : ∀ p ∈ Catalog.all, p.symbol ≠ Contract.entry := by decide
    exact hne p hp hsymbol

end Header

/-! ### Reports -/

/-- The report binds a request to a symbol. -/
def Report.Resolves (report : Report) (requested symbol : String) : Prop :=
  ⟨requested, symbol⟩ ∈ report.resolved

/-- How a report names the request of a name on a surface. -/
def requestedName (surface : Surface) (name : String) : String := surface.name ++ ":" ++ name

theorem colon_not_mem_name (s : Surface) : ':' ∉ s.name.toList := by
  cases s <;> decide

theorem requestedName_inj {s s' : Surface} {n n' : String}
    (h : requestedName s n = requestedName s' n') : s = s' ∧ n = n' := by
  have hstop : ∀ s : Surface, ∀ c ∈ s.name.toList, decide (c ≠ ':') = true := by
    intro s c hc
    simpa using fun heq : c = ':' => colon_not_mem_name s (heq ▸ hc)
  have hsplit : ∀ (s : Surface) (n : String),
      (requestedName s n).toList = s.name.toList ++ ':' :: n.toList := by
    intro s n
    simp [requestedName]
  have htext := congrArg String.toList h
  rw [hsplit, hsplit] at htext
  obtain ⟨hsurface, hname⟩ := Text.append_inj_of_stop (hstop s) (hstop s') (by simp) (by simp) htext
  exact ⟨Surface.name_inj.1 (String.toList_inj.1 hsurface),
    String.toList_inj.1 (List.cons.inj hname).2⟩

/-- No name of a request is a symbol of the catalog. -/
theorem Catalog.symbol_ne_requestedName {p : Primitive} (hp : p ∈ all) (s : Surface) (n : String) :
    p.symbol ≠ requestedName s n := by
  have hsymbols : ∀ p ∈ all, ':' ∉ p.symbol.toList := by decide
  intro heq
  refine hsymbols p hp ?_
  rw [heq]
  simp [requestedName]

namespace Report

theorem resolves_ofLookups {ls : List Lookup} {requested symbol : String} :
    (ofLookups ls).Resolves requested symbol ↔
      ∃ l ∈ ls, l.requested = requested ∧ ∃ p, l.found = some p ∧ p.symbol = symbol := by
  simp only [Resolves, ofLookups, List.mem_filterMap, Option.map_eq_some_iff, Resolution.mk.injEq]
  constructor
  · rintro ⟨l, hl, p, hp, rfl, rfl⟩
    exact ⟨l, hl, rfl, p, hp, rfl⟩
  · rintro ⟨l, hl, rfl, p, hp, rfl⟩
    exact ⟨l, hl, p, hp, rfl, rfl⟩

end Report

namespace Requires

/-- A request is of a symbol or of a name on the surface that its text says. -/
theorem mem_lookups {r : Requires} (h : r.Checkable) {l : Lookup} : l ∈ r.lookups ↔
    (∃ symbol ∈ r.symbols, Lookup.ofSymbol symbol = l) ∨
      ∃ n ∈ r.names, ∃ surface, Surface.parse n.surface = .ok surface ∧
        Lookup.ofName surface n.name = l := by
  rw [lookups, List.mem_append, List.mem_map, List.mem_map]
  refine or_congr Iff.rfl ⟨?_, ?_⟩
  · rintro ⟨n, hn, rfl⟩
    obtain ⟨surface, hsurface⟩ := h.readable n hn
    exact ⟨n, hn, surface, hsurface, (NameRequest.request_eq hsurface).symm⟩
  · rintro ⟨n, hn, surface, hsurface, rfl⟩
    exact ⟨n, hn, NameRequest.request_eq hsurface⟩

/-- A symbol is resolved to itself if the catalog has it. -/
theorem resolves_symbol_iff {r : Requires} (h : r.Checkable) {symbol : String}
    (hsymbol : symbol ∈ r.symbols) : (Report.ofLookups r.lookups).Resolves symbol symbol ↔
      ∃ p ∈ Catalog.all, p.symbol = symbol := by
  rw [Report.resolves_ofLookups]
  constructor
  · rintro ⟨l, hl, -, p, hp, rfl⟩
    rcases (mem_lookups h).1 hl with ⟨s, -, rfl⟩ | ⟨n, -, surface, -, rfl⟩
    · exact ⟨p, (Catalog.of_findSymbol? hp).1, rfl⟩
    · exact ⟨p, (Catalog.of_findName? hp).1, rfl⟩
  · rintro ⟨p, hp, rfl⟩
    exact ⟨_, (mem_lookups h).2 (.inl ⟨p.symbol, hsymbol, rfl⟩), rfl, p,
      Catalog.findSymbol?_symbol p hp, rfl⟩

/-- A name is resolved to the symbol of the primitive that has it. -/
theorem resolves_name_iff {r : Requires} (h : r.Checkable) {n : NameRequest} (hn : n ∈ r.names)
    {surface : Surface} (hsurface : Surface.parse n.surface = .ok surface) {symbol : String} :
    (Report.ofLookups r.lookups).Resolves (requestedName surface n.name) symbol ↔
      ∃ p ∈ Catalog.all, p.symbol = symbol ∧ (surface, n.name) ∈ p.names := by
  rw [Report.resolves_ofLookups]
  constructor
  · rintro ⟨l, hl, hrequested, p, hp, rfl⟩
    rcases (mem_lookups h).1 hl with ⟨s, -, rfl⟩ | ⟨n', -, surface', -, rfl⟩
    · -- a symbol of the catalog is not requested under such a text
      obtain ⟨hmem, hs⟩ := Catalog.of_findSymbol? hp
      exact absurd (hs.trans hrequested) (Catalog.symbol_ne_requestedName hmem _ _)
    · obtain ⟨rfl, hname⟩ := requestedName_inj hrequested
      obtain ⟨hmem, hnames⟩ := Catalog.of_findName? hp
      exact ⟨p, hmem, rfl, hname ▸ hnames⟩
  · rintro ⟨p, hp, rfl, hname⟩
    exact ⟨_, (mem_lookups h).2 (.inr ⟨n, hn, surface, hsurface, rfl⟩), rfl, p,
      Catalog.findName?_name p hp _ hname, rfl⟩

theorem ok_lookups_iff {r : Requires} (h : r.Checkable) :
    (Report.ofLookups r.lookups).ok = true ↔
      (∀ symbol ∈ r.symbols, ∃ p ∈ Catalog.all, p.symbol = symbol) ∧
      ∀ n ∈ r.names, ∀ surface, Surface.parse n.surface = .ok surface →
        ∃ symbol, ∃ p ∈ Catalog.all, p.symbol = symbol ∧ (surface, n.name) ∈ p.names := by
  rw [Report.ok_iff]
  constructor
  · intro hok
    constructor
    · intro symbol hsymbol
      have hsome := hok _ ((mem_lookups h).2 (.inl ⟨symbol, hsymbol, rfl⟩))
      obtain ⟨p, hp⟩ := Option.isSome_iff_exists.1 hsome
      exact ⟨p, Catalog.of_findSymbol? hp⟩
    · intro n hn surface hsurface
      have hsome := hok _ ((mem_lookups h).2 (.inr ⟨n, hn, surface, hsurface, rfl⟩))
      obtain ⟨p, hp⟩ := Option.isSome_iff_exists.1 hsome
      obtain ⟨hmem, hname⟩ := Catalog.of_findName? hp
      exact ⟨p.symbol, p, hmem, rfl, hname⟩
  · rintro ⟨hsymbols, hnames⟩ l hl
    rw [Option.isSome_iff_exists]
    rcases (mem_lookups h).1 hl with ⟨symbol, hsymbol, rfl⟩ | ⟨n, hn, surface, hsurface, rfl⟩
    · obtain ⟨p, hp, rfl⟩ := hsymbols symbol hsymbol
      exact ⟨p, Catalog.findSymbol?_symbol p hp⟩
    · obtain ⟨-, p, hp, -, hname⟩ := hnames n hn surface hsurface
      exact ⟨p, Catalog.findName?_name p hp _ hname⟩

end Requires

/-- Requirements of the right version and ABI whose surfaces can be read are checked. Of the
requests, those symbols are resolved that the manifest of all surfaces lists and its header
declares, and those names, to those symbols, that the manifest of their surface and the manifest of
all surfaces list. The report is ok exactly if everything requested is published so. -/
theorem check_reports_published (r : Requires) (hversion : r.version = Contract.requiresVersion)
    (habi : r.abiMajor = Contract.abiMajor)
    (hsurfaces : ∀ n ∈ r.names, ∃ surface, Surface.parse n.surface = .ok surface) :
    ∃ report, r.check = .ok report ∧
      (∀ symbol ∈ r.symbols,
        (report.Resolves symbol symbol ↔ (Manifest.build .all).Lists symbol) ∧
        (report.Resolves symbol symbol ↔
          Header.Declares (Header.render (Manifest.build .all)) symbol)) ∧
      (∀ n ∈ r.names, ∀ surface, Surface.parse n.surface = .ok surface → ∀ symbol,
        (report.Resolves (requestedName surface n.name) symbol ↔
          (Manifest.build (.only surface)).ListsName surface n.name symbol) ∧
        (report.Resolves (requestedName surface n.name) symbol ↔
          (Manifest.build .all).ListsName surface n.name symbol)) ∧
      (report.ok = true ↔
        (∀ symbol ∈ r.symbols, (Manifest.build .all).Lists symbol) ∧
        ∀ n ∈ r.names, ∀ surface, Surface.parse n.surface = .ok surface →
          ∃ symbol, (Manifest.build .all).ListsName surface n.name symbol) := by
  have h : r.Checkable := ⟨hversion, habi, hsurfaces⟩
  refine ⟨_, Requires.check_eq_ok_iff.2 ⟨h, rfl⟩, ?_, ?_, ?_⟩
  · intro symbol hsymbol
    have hresolves := Requires.resolves_symbol_iff h hsymbol
    exact ⟨hresolves.trans Manifest.lists_build_all.symm,
      hresolves.trans (Header.declares_render_build_all.trans Manifest.lists_build_all).symm⟩
  · intro n hn surface hsurface symbol
    have hresolves : (Report.ofLookups r.lookups).Resolves (requestedName surface n.name) symbol ↔
        _ := Requires.resolves_name_iff h hn hsurface
    exact ⟨hresolves.trans (Manifest.listsName_build (SurfaceFilter.includes_only surface)).symm,
      hresolves.trans (Manifest.listsName_build rfl).symm⟩
  · have hall : ∀ surface name symbol, (Manifest.build .all).ListsName surface name symbol ↔
        ∃ p ∈ Catalog.all, p.symbol = symbol ∧ (surface, name) ∈ p.names := by
      intro surface name symbol
      exact Manifest.listsName_build rfl
    rw [Requires.ok_lookups_iff h]
    simp only [Manifest.lists_build_all, hall]

/-- A name of two surfaces is published under one symbol, and the entry of the program is not. -/
theorem check_reports_published_not :
    Surface.parse " Symbolic" = .ok .symbolic ∧
      ∃ report, Requires.check ⟨Contract.requiresVersion, Contract.abiMajor, ["entry"],
          [⟨" Symbolic", "not"⟩]⟩ = .ok report ∧
        report.Resolves "symbolic:not" "not" ∧ report.ok = false ∧
        ¬ Header.Declares (Header.render (Manifest.build .all)) "entry" := by
  have hsurface : Surface.parse " Symbolic" = .ok .symbolic := by decide
  obtain ⟨report, hcheck, hsymbols, hnames, hok⟩ := check_reports_published
    ⟨Contract.requiresVersion, Contract.abiMajor, ["entry"], [⟨" Symbolic", "not"⟩]⟩ rfl rfl
    (by simpa using ⟨_, hsurface⟩)
  have hentry : ¬ (Manifest.build .all).Lists "entry" := by
    rw [Manifest.lists_build_all]
    decide
  obtain ⟨hlists, hdeclares⟩ := hsymbols "entry" List.mem_cons_self
  refine ⟨hsurface, report, hcheck, ?_, ?_, fun h => hentry (hlists.1 (hdeclares.2 h))⟩
  · refine (hnames _ List.mem_cons_self _ hsurface "not").2.2 ?_
    rw [Manifest.listsName_build rfl]
    decide
  · exact Bool.eq_false_iff.2 fun h => hentry ((hok.1 h).1 "entry" List.mem_cons_self)

end PrimitiveAbi
