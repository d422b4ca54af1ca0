import PrimitiveAbi.Manifest
import PrimitiveAbi.Proofs.Document.Reading
import PrimitiveAbi.Proofs.Json.Unique
import PrimitiveAbi.Proofs.Json.Writing
import PrimitiveAbi.Requires

/-!
# Requires and manifests are read exactly

The forms of the two strict documents, field by field: the name of the field, how its value is
written, and when it may be left out. A text is read as requirements or as a manifest exactly if it
is a document of a tree of that form, in whatever order the members of its objects stand.
-/

namespace PrimitiveAbi

open Document Json

/-! ### The forms -/

namespace NameRequest

def Form (r : NameRequest) : Tree → Prop :=
  RecordForm [⟨"surface", TextForm r.surface, False⟩, ⟨"name", TextForm r.name, False⟩]

end NameRequest

namespace Requires

/-- Symbols and names may be left out where there are none. -/
def Form (r : Requires) : Tree → Prop :=
  RecordForm
    [⟨"schema_version", TextForm r.version, False⟩,
     ⟨"abi_major", NaturalForm r.abiMajor.toNat, False⟩,
     ⟨"symbols", ListForm TextForm r.symbols, r.symbols = []⟩,
     ⟨"names", ListForm NameRequest.Form r.names, r.names = []⟩]

end Requires

namespace PublicName

def Form (n : PublicName) : Tree → Prop :=
  RecordForm [⟨"surface", TextForm n.surface, False⟩, ⟨"name", TextForm n.name, False⟩]

end PublicName

namespace DeclaredParam

def Form (p : DeclaredParam) : Tree → Prop :=
  RecordForm [⟨"name", TextForm p.name, False⟩, ⟨"c_type", TextForm p.ctype, False⟩]

end DeclaredParam

namespace Declaration

/-- The signedness may be left out where there is none. -/
def Form (d : Declaration) : Tree → Prop :=
  RecordForm
    [⟨"symbol", TextForm d.symbol, False⟩,
     ⟨"names", ListForm PublicName.Form d.names, False⟩,
     ⟨"kind", TextForm d.kind, False⟩,
     ⟨"signedness", NoteForm d.signedness, d.signedness = none⟩,
     ⟨"unchecked", FlagForm d.unchecked, False⟩,
     ⟨"params", ListForm DeclaredParam.Form d.params, False⟩,
     ⟨"ret", TextForm d.result, False⟩]

end Declaration

namespace Manifest

def Form (m : Manifest) : Tree → Prop :=
  RecordForm
    [⟨"schema_version", TextForm m.version, False⟩,
     ⟨"abi_major", NaturalForm m.abiMajor.toNat, False⟩,
     ⟨"runtime", TextForm m.runtime, False⟩,
     ⟨"surface", FilterForm m.surface, False⟩,
     ⟨"imports", ListForm TextForm m.imports, False⟩,
     ⟨"primitives", ListForm Declaration.Form m.primitives, False⟩]

end Manifest

/-! ### They are the forms of the shapes -/

/-- A list is written element by element. -/
theorem form_list_map {α : Type} {shape : Shape} {form : α → Tree → Prop} (f : α → shape.Val)
    (h : ∀ v, shape.Form (f v) = form v) (vs : List α) :
    (Shape.list shape).Form (vs.map f) = ListForm form vs := by
  funext t
  show ListForm shape.Form (vs.map f) t = _
  simp only [ListForm, List.forall₂_map_left_iff, h]

theorem NameRequest.form_toVal (r : NameRequest) (title : String) (closed : Bool) :
    (Shape.record title closed NameRequest.fields).Form r.toVal = r.Form := by
  show RecordForm
    [⟨"surface", TextForm r.surface, true = false ∧ _⟩,
     ⟨"name", TextForm r.name, true = false ∧ _⟩] = _
  simp only [Bool.true_eq_false, false_and, NameRequest.Form]

theorem Requires.form_toVal (r : Requires) : Requires.shape.Form r.toVal = r.Form := by
  show RecordForm
    [⟨"schema_version", TextForm r.version, true = false ∧ _⟩,
     ⟨"abi_major", NaturalForm r.abiMajor.toNat, true = false ∧ _⟩,
     ⟨"symbols", ListForm TextForm r.symbols, false = false ∧ r.symbols = []⟩,
     ⟨"names", (Shape.list (.record "NameReq" true NameRequest.fields)).Form
        (r.names.map NameRequest.toVal), false = false ∧ r.names.map NameRequest.toVal = []⟩] = _
  rw [form_list_map _ fun v => NameRequest.form_toVal v _ _]
  simp only [Bool.true_eq_false, false_and, true_and, List.map_eq_nil_iff, Requires.Form]

theorem PublicName.form_toVal (n : PublicName) (title : String) (closed : Bool) :
    (Shape.record title closed PublicName.fields).Form n.toVal = n.Form := by
  show RecordForm
    [⟨"surface", TextForm n.surface, true = false ∧ _⟩,
     ⟨"name", TextForm n.name, true = false ∧ _⟩] = _
  simp only [Bool.true_eq_false, false_and, PublicName.Form]

theorem DeclaredParam.form_toVal (p : DeclaredParam) (title : String) (closed : Bool) :
    (Shape.record title closed DeclaredParam.fields).Form p.toVal = p.Form := by
  show RecordForm
    [⟨"name", TextForm p.name, true = false ∧ _⟩,
     ⟨"c_type", TextForm p.ctype, true = false ∧ _⟩] = _
  simp only [Bool.true_eq_false, false_and, DeclaredParam.Form]

theorem Declaration.form_toVal (d : Declaration) (title : String) (closed : Bool) :
    (Shape.record title closed Declaration.fields).Form d.toVal = d.Form := by
  show RecordForm
    [⟨"symbol", TextForm d.symbol, true = false ∧ _⟩,
     ⟨"names", (Shape.list (.record "NameEntry" true PublicName.fields)).Form
        (d.names.map PublicName.toVal), true = false ∧ _⟩,
     ⟨"kind", TextForm d.kind, true = false ∧ _⟩,
     ⟨"signedness", NoteForm d.signedness, false = false ∧ d.signedness = none⟩,
     ⟨"unchecked", FlagForm d.unchecked, true = false ∧ _⟩,
     ⟨"params", (Shape.list (.record "ParamEntry" true DeclaredParam.fields)).Form
        (d.params.map DeclaredParam.toVal), true = false ∧ _⟩,
     ⟨"ret", TextForm d.result, true = false ∧ _⟩] = _
  rw [form_list_map _ fun v => PublicName.form_toVal v _ _,
    form_list_map _ fun v => DeclaredParam.form_toVal v _ _]
  simp only [Bool.true_eq_false, false_and, true_and, Declaration.Form]

theorem Manifest.form_toVal (m : Manifest) : Manifest.shape.Form m.toVal = m.Form := by
  show RecordForm
    [⟨"schema_version", TextForm m.version, true = false ∧ _⟩,
     ⟨"abi_major", NaturalForm m.abiMajor.toNat, true = false ∧ _⟩,
     ⟨"runtime", TextForm m.runtime, true = false ∧ _⟩,
     ⟨"surface", FilterForm m.surface, true = false ∧ _⟩,
     ⟨"imports", ListForm TextForm m.imports, true = false ∧ _⟩,
     ⟨"primitives", (Shape.list (.record "PrimitiveEntry" true Declaration.fields)).Form
        (m.primitives.map Declaration.toVal), true = false ∧ _⟩] = _
  rw [form_list_map _ fun v => Declaration.form_toVal v _ _]
  simp only [Bool.true_eq_false, false_and, Manifest.Form]

/-! ### Reading -/

theorem map_eq_ok_iff {ε α β : Type} {f : α → β} {g : β → α} (hfg : ∀ b, f (g b) = b)
    (hgf : ∀ a, g (f a) = a) {x : Except ε α} {b : β} : x.map f = .ok b ↔ x = .ok (g b) := by
  constructor
  · intro h
    cases x with
    | error e => simp [Except.map] at h
    | ok a =>
      simp only [Except.map, Except.ok.injEq] at h
      rw [← h, hgf]
  · rintro rfl
    simp only [Except.map, hfg]

theorem Requires.parse_eq_ok_iff_shape {text : String} {r : Requires} :
    Requires.parse text = .ok r ↔ Requires.shape.parse text = .ok r.toVal :=
  map_eq_ok_iff Requires.ofVal_toVal Requires.toVal_ofVal

theorem Manifest.parse_eq_ok_iff_shape {text : String} {m : Manifest} :
    Manifest.parse text = .ok m ↔ Manifest.shape.parse text = .ok m.toVal :=
  map_eq_ok_iff Manifest.ofVal_toVal Manifest.toVal_ofVal

theorem Requires.parse_eq_ok_iff {text : String} {r : Requires} :
    Requires.parse text = .ok r ↔ ∃ t, IsDocument t text ∧ r.Form t := by
  rw [Requires.parse_eq_ok_iff_shape, Shape.parse_eq_ok_iff rfl (by decide), Requires.form_toVal]

theorem Manifest.parse_eq_ok_iff {text : String} {m : Manifest} :
    Manifest.parse text = .ok m ↔ ∃ t, IsDocument t text ∧ m.Form t := by
  rw [Manifest.parse_eq_ok_iff_shape, Shape.parse_eq_ok_iff rfl (by decide), Manifest.form_toVal]

theorem Requires.stable_form (r : Requires) : Stable r.Form :=
  r.form_toVal ▸ Requires.shape.stable_form r.toVal

theorem Manifest.stable_form (m : Manifest) : Stable m.Form :=
  m.form_toVal ▸ Manifest.shape.stable_form m.toVal

/-- What is read from the documents of forms that do not see the order of members does not depend on
that order. -/
theorem parse_reordered {α : Type} {parse : String → Except Fault α} {form : α → Tree → Prop}
    (hparse : ∀ {text v}, parse text = .ok v ↔ ∃ t, IsDocument t text ∧ form v t)
    (hform : ∀ v, Stable (form v)) {t t' : Tree} {text text' : String} (hr : Reordered t t')
    (ht : IsDocument t text) (ht' : IsDocument t' text') (v : α) :
    parse text = .ok v ↔ parse text' = .ok v := by
  rw [hparse, hparse]
  constructor
  · rintro ⟨u, hu, hv⟩
    obtain rfl := hu.unique ht
    exact ⟨t', ht', hform v hr hv⟩
  · rintro ⟨u, hu, hv⟩
    obtain rfl := hu.unique ht'
    exact ⟨t, ht, hform v hr.symm hv⟩

/-- A text is read as requirements, or as a manifest, exactly if it is a document of their form. The
order of the members of objects makes no difference. -/
theorem strict_parse_exact :
    (∀ (text : String) (r : Requires),
      Requires.parse text = .ok r ↔ ∃ t, IsDocument t text ∧ r.Form t) ∧
    (∀ (text : String) (m : Manifest),
      Manifest.parse text = .ok m ↔ ∃ t, IsDocument t text ∧ m.Form t) ∧
    ∀ (t t' : Tree) (text text' : String), Reordered t t' → IsDocument t text →
      IsDocument t' text' →
      (∀ r, Requires.parse text = .ok r ↔ Requires.parse text' = .ok r) ∧
      ∀ m, Manifest.parse text = .ok m ↔ Manifest.parse text' = .ok m := by
  refine ⟨fun _ _ => Requires.parse_eq_ok_iff, fun _ _ => Manifest.parse_eq_ok_iff, ?_⟩
  intro t t' text text' hr ht ht'
  constructor
  · exact parse_reordered Requires.parse_eq_ok_iff Requires.stable_form hr ht ht'
  · exact parse_reordered Manifest.parse_eq_ok_iff Manifest.stable_form hr ht ht'

/-- Requirements without symbols and names, the members in the other order. -/
theorem strict_parse_exact_swapped :
    Requires.parse "\x7b\"abi_major\":1,\"schema_version\":\"v\"\x7d" = .ok ⟨"v", 1, [], []⟩ := by
  let version : String × Value := ("schema_version", .text "v")
  let abiMajor : String × Value := ("abi_major", .natural 1)
  have ht := isDocument_compact (.object [version, abiMajor])
  have ht' := isDocument_compact (.object [abiMajor, version])
  have hform : Requires.Form ⟨"v", 1, [], []⟩ (Value.object [version, abiMajor]).tree := by
    refine .inl ⟨_, rfl, .cons_written (.cons_written ?_ (by simp) ?_) (by simp) rfl⟩
    · exact .cons_omitted (.cons_omitted objectForm_nil (by simp) rfl) (by simp) rfl
    · exact ⟨['1'], rfl, by simp, rfl⟩
  have hswap : Reordered (Value.object [version, abiMajor]).tree
      (Value.object [abiMajor, version]).tree :=
    .object (.cons .same (.cons .same .nil)) (.swap _ _ _)
  have hread := (strict_parse_exact.1 _ _).2 ⟨_, ht, hform⟩
  exact ((strict_parse_exact.2.2 _ _ _ _ hswap ht ht').1 _).1 hread

end PrimitiveAbi
