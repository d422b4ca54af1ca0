import Mathlib.Data.List.Forall2
import PrimitiveAbi.Document.Shape
import PrimitiveAbi.Proofs.Json.Grammar

/-!
# The forms of documents

Which JSON trees a value of a shape may be written as. A record is an object of its fields in any
order, each at most once and no other, or the array of its fields in their order; `FieldForm` says
for one field which trees its value may be and whether the field may be left out. `Shape.Form` is
the relation for a shape, and it does not see the order of members (`Shape.stable_form`).
-/

namespace PrimitiveAbi.Document

open Json

/-! ### Values without parts -/

def TextForm (s : String) (t : Tree) : Prop := t = .text s

def FlagForm (b : Bool) (t : Tree) : Prop := t = .boolean b

/-- An integer is written with its digits alone, without sign, fraction and exponent. -/
def NaturalForm (n : Nat) (t : Tree) : Prop :=
  ∃ ds, t = .number ds ∧ (∀ d ∈ ds, d.isDigit = true) ∧ Nat.ofDigitChars 10 ds 0 = n

/-- A filter is written by its name, or as an object with that one key and null. -/
def FilterForm (f : SurfaceFilter) (t : Tree) : Prop :=
  t = .text f.name ∨ t = .object [(f.name, .null)]

/-- A text or nothing is written as a text or null. -/
def NoteForm : Option String → Tree → Prop
  | none, t => t = .null
  | some s, t => t = .text s

/-! ### Lists and records -/

def ListForm {α : Type} (form : α → Tree → Prop) (vs : List α) (t : Tree) : Prop :=
  ∃ ts, t = .array ts ∧ List.Forall₂ form vs ts

/-- How a field of a record is written. -/
structure FieldForm where
  name : String
  /-- The trees that its value may be. -/
  written : Tree → Prop
  /-- Whether the field may be left out. -/
  omitted : Prop

/-- The members of a record that is written as an object. -/
structure ObjectForm (fields : List FieldForm) (ms : List (String × Tree)) : Prop where
  distinct : (ms.map Prod.fst).Nodup
  known : ∀ m ∈ ms, m.1 ∈ fields.map FieldForm.name
  present : ∀ f ∈ fields,
    (∃ t, (f.name, t) ∈ ms ∧ f.written t) ∨ (f.name ∉ ms.map Prod.fst ∧ f.omitted)

theorem objectForm_nil : ObjectForm [] [] where
  distinct := List.nodup_nil
  known m hm := by simp at hm
  present f hf := by simp at hf

theorem ObjectForm.cons_written {f : FieldForm} {fields : List FieldForm}
    {ms : List (String × Tree)} (h : ObjectForm fields ms) (hf : f.name ∉ fields.map FieldForm.name)
    {t : Tree} (ht : f.written t) : ObjectForm (f :: fields) ((f.name, t) :: ms) where
  distinct := by
    refine List.nodup_cons.2 ⟨?_, h.distinct⟩
    intro hmem
    obtain ⟨m, hm, heq⟩ : ∃ m ∈ ms, m.1 = f.name := List.mem_map.1 hmem
    exact hf (heq ▸ h.known m hm)
  known m hm := by
    rcases List.mem_cons.1 hm with rfl | hm
    · exact List.mem_cons_self
    · exact List.mem_cons_of_mem _ (h.known m hm)
  present g hg := by
    rcases List.mem_cons.1 hg with rfl | hg
    · exact .inl ⟨t, List.mem_cons_self, ht⟩
    rcases h.present g hg with ⟨u, hu, hw⟩ | ⟨hab, hom⟩
    · exact .inl ⟨u, List.mem_cons_of_mem _ hu, hw⟩
    · refine .inr ⟨?_, hom⟩
      intro hmem
      rcases List.mem_cons.1 hmem with heq | hmem
      · have heq : g.name = f.name := heq
        exact hf (heq ▸ List.mem_map_of_mem hg)
      · exact hab hmem

theorem ObjectForm.cons_omitted {f : FieldForm} {fields : List FieldForm}
    {ms : List (String × Tree)} (h : ObjectForm fields ms) (hf : f.name ∉ fields.map FieldForm.name)
    (hom : f.omitted) : ObjectForm (f :: fields) ms where
  distinct := h.distinct
  known m hm := List.mem_cons_of_mem _ (h.known m hm)
  present g hg := by
    rcases List.mem_cons.1 hg with rfl | hg
    · refine .inr ⟨?_, hom⟩
      intro hmem
      obtain ⟨m, hm, heq⟩ := List.mem_map.1 hmem
      exact hf (heq ▸ h.known m hm)
    · exact h.present g hg

/-- The elements of a record that is written as an array: only fields at the end may be absent. -/
inductive ArrayForm : List FieldForm → List Tree → Prop
  | absent {fields : List FieldForm} : (∀ f ∈ fields, f.omitted) → ArrayForm fields []
  | element {f : FieldForm} {fields : List FieldForm} {t : Tree} {ts : List Tree} :
      f.written t → ArrayForm fields ts → ArrayForm (f :: fields) (t :: ts)

theorem arrayForm_nil_iff {fields : List FieldForm} :
    ArrayForm fields [] ↔ ∀ f ∈ fields, f.omitted := by
  constructor
  · intro h
    cases h with
    | absent hab => exact hab
  · exact .absent

def RecordForm (fields : List FieldForm) (t : Tree) : Prop :=
  (∃ ms, t = .object ms ∧ ObjectForm fields ms) ∨ ∃ ts, t = .array ts ∧ ArrayForm fields ts

/-! ### Shapes -/

mutual

/-- The trees that a value of a shape may be written as. -/
def Shape.Form : (s : Shape) → s.Val → Tree → Prop
  | .text, (v : String) => TextForm v
  | .flag, (v : Bool) => FlagForm v
  | .nat32, (v : UInt32) => NaturalForm v.toNat
  | .filter, (v : SurfaceFilter) => FilterForm v
  | .note, (v : Option String) => NoteForm v
  | .list item, (v : List item.Val) => ListForm item.Form v
  | .record _ _ fields, v => RecordForm (fields.forms v)

/-- The forms of the fields of a record. -/
def Fields.forms : (fs : Fields) → fs.Val → List FieldForm
  | .nil, _ => []
  | .field name required shape others, (v, vs) =>
      ⟨name, shape.Form v, required = false ∧ v = shape.blank⟩ :: others.forms vs

end

theorem Fields.map_name_forms : (fs : Fields) → (v : fs.Val) →
    (fs.forms v).map FieldForm.name = fs.names
  | .nil, _ => rfl
  | .field name _ _ others, (_, vs) => congrArg (name :: ·) (others.map_name_forms vs)

mutual

/-- Whether every record in a shape refuses other members. -/
def Shape.isClosed : Shape → Bool
  | .list item => item.isClosed
  | .record _ closed fields => closed && fields.areClosed
  | _ => true

def Fields.areClosed : Fields → Bool
  | .nil => true
  | .field _ _ shape others => shape.isClosed && others.areClosed

end

mutual

/-- Whether the fields of every record in a shape have different names. -/
def Shape.isProper : Shape → Bool
  | .list item => item.isProper
  | .record _ _ fields => decide fields.names.Nodup && fields.areProper
  | _ => true

def Fields.areProper : Fields → Bool
  | .nil => true
  | .field _ _ shape others => shape.isProper && others.areProper

end

/-! ### The order of members -/

mutual

/-- The same tree, but for the order of the members of its objects. -/
inductive Reordered : Tree → Tree → Prop
  | same {t : Tree} : Reordered t t
  | array {ts ts' : List Tree} : ItemsReordered ts ts' → Reordered (.array ts) (.array ts')
  | object {ms ms' ms'' : List (String × Tree)} : MembersReordered ms ms' → ms'.Perm ms'' →
      Reordered (.object ms) (.object ms'')

inductive ItemsReordered : List Tree → List Tree → Prop
  | nil : ItemsReordered [] []
  | cons {t t' : Tree} {ts ts' : List Tree} : Reordered t t' → ItemsReordered ts ts' →
      ItemsReordered (t :: ts) (t' :: ts')

/-- The values of members are reordered, and the members stay where they are. -/
inductive MembersReordered : List (String × Tree) → List (String × Tree) → Prop
  | nil : MembersReordered [] []
  | cons {name : String} {t t' : Tree} {ms ms' : List (String × Tree)} : Reordered t t' →
      MembersReordered ms ms' → MembersReordered ((name, t) :: ms) ((name, t') :: ms')

end

theorem MembersReordered.exists_perm {ms ms' ms'' : List (String × Tree)} (hp : ms.Perm ms')
    (h : MembersReordered ms' ms'') : ∃ ns, MembersReordered ms ns ∧ ns.Perm ms'' := by
  induction hp generalizing ms'' with
  | nil => exact ⟨ms'', h, .rfl⟩
  | cons m _ ih =>
    cases h with
    | cons hr h =>
      obtain ⟨ns, hns, hp⟩ := ih h
      exact ⟨_, .cons hr hns, hp.cons _⟩
  | swap m n _ =>
    cases h with
    | cons hr h =>
      cases h with
      | cons hr' h => exact ⟨_, .cons hr' (.cons hr h), .swap _ _ _⟩
  | trans _ _ ih ih' =>
    obtain ⟨ns', hns', hp'⟩ := ih' h
    obtain ⟨ns, hns, hp⟩ := ih hns'
    exact ⟨ns, hns, hp.trans hp'⟩

mutual

theorem Reordered.symm {t t' : Tree} (h : Reordered t t') : Reordered t' t := by
  cases h with
  | same => exact .same
  | array h => exact .array h.symm
  | object h hp =>
    obtain ⟨ns, hns, hp'⟩ := h.symm.exists_perm hp.symm
    exact .object hns hp'

theorem ItemsReordered.symm {ts ts' : List Tree} (h : ItemsReordered ts ts') :
    ItemsReordered ts' ts := by
  cases h with
  | nil => exact .nil
  | cons hr h => exact .cons hr.symm h.symm

theorem MembersReordered.symm {ms ms' : List (String × Tree)} (h : MembersReordered ms ms') :
    MembersReordered ms' ms := by
  cases h with
  | nil => exact .nil
  | cons hr h => exact .cons hr.symm h.symm

end

/-- A form that does not see the order of members. -/
def Stable (form : Tree → Prop) : Prop :=
  ∀ ⦃t t' : Tree⦄, Reordered t t' → form t → form t'

theorem MembersReordered.map_fst {ms ms' : List (String × Tree)} (h : MembersReordered ms ms') :
    ms'.map Prod.fst = ms.map Prod.fst := by
  cases h with
  | nil => rfl
  | cons _ h => exact congrArg (List.cons _) h.map_fst

theorem MembersReordered.exists_of_mem {ms ms' : List (String × Tree)}
    (h : MembersReordered ms ms') {name : String} {t : Tree} (ht : (name, t) ∈ ms) :
    ∃ t', (name, t') ∈ ms' ∧ Reordered t t' := by
  cases h with
  | nil => simp at ht
  | cons hr h =>
    rcases List.mem_cons.1 ht with heq | ht
    · obtain ⟨rfl, rfl⟩ := Prod.mk.inj heq
      exact ⟨_, List.mem_cons_self, hr⟩
    · obtain ⟨t', ht', hr'⟩ := h.exists_of_mem ht
      exact ⟨t', List.mem_cons_of_mem _ ht', hr'⟩

theorem stable_text (s : String) : Stable (TextForm s) := by
  rintro t t' h rfl
  cases h; rfl

theorem stable_flag (b : Bool) : Stable (FlagForm b) := by
  rintro t t' h rfl
  cases h; rfl

theorem stable_natural (n : Nat) : Stable (NaturalForm n) := by
  rintro t t' h ⟨ds, rfl, hd⟩
  cases h
  exact ⟨ds, rfl, hd⟩

theorem stable_note (v : Option String) : Stable (NoteForm v) := by
  intro t t' h hv
  cases v <;> (cases hv; cases h; rfl)

theorem stable_filter (f : SurfaceFilter) : Stable (FilterForm f) := by
  rintro t t' h (rfl | rfl)
  · cases h
    exact .inl rfl
  · refine .inr ?_
    cases h with
    | same => rfl
    | object hm hp =>
      cases hm with
      | cons hr hm =>
        cases hr; cases hm
        rw [List.singleton_perm.1 hp]

theorem stable_list {α : Type} {form : α → Tree → Prop} (hf : ∀ v, Stable (form v))
    (vs : List α) : Stable (ListForm form vs) := by
  rintro t t' h ⟨ts, rfl, hts⟩
  cases h with
  | same => exact ⟨ts, rfl, hts⟩
  | @array _ ts' h =>
    refine ⟨ts', rfl, ?_⟩
    induction hts generalizing ts' with
    | nil => cases h; exact .nil
    | cons hv _ ih =>
      cases h with
      | cons hr h => exact .cons (hf _ hr hv) (ih h)

theorem ObjectForm.reordered {fields : List FieldForm} {ms ms' : List (String × Tree)}
    (hf : ∀ f ∈ fields, Stable f.written) (h : MembersReordered ms ms')
    (hms : ObjectForm fields ms) : ObjectForm fields ms' where
  distinct := h.map_fst ▸ hms.distinct
  known m hm := by
    have hname : m.1 ∈ ms.map Prod.fst := h.map_fst ▸ List.mem_map_of_mem hm
    obtain ⟨m', hm', heq⟩ := List.mem_map.1 hname
    exact heq ▸ hms.known m' hm'
  present f hfield := by
    rw [h.map_fst]
    rcases hms.present f hfield with ⟨t, ht, hw⟩ | hab
    · obtain ⟨t', ht', hr⟩ := h.exists_of_mem ht
      exact .inl ⟨t', ht', hf f hfield hr hw⟩
    · exact .inr hab

theorem ObjectForm.perm {fields : List FieldForm} {ms ms' : List (String × Tree)}
    (h : ms.Perm ms') (hms : ObjectForm fields ms) : ObjectForm fields ms' where
  distinct := (h.map _).nodup_iff.1 hms.distinct
  known m hm := hms.known m (h.mem_iff.2 hm)
  present f hfield := by
    simp only [← h.mem_iff, ← (h.map Prod.fst).mem_iff]
    exact hms.present f hfield

theorem ArrayForm.reordered {fields : List FieldForm} {ts ts' : List Tree}
    (hf : ∀ f ∈ fields, Stable f.written) (h : ItemsReordered ts ts')
    (hts : ArrayForm fields ts) : ArrayForm fields ts' := by
  induction hts generalizing ts' with
  | absent hab => cases h; exact .absent hab
  | element hw _ ih =>
    cases h with
    | cons hr h =>
      exact .element (hf _ List.mem_cons_self hr hw)
        (ih (fun f hfield => hf f (List.mem_cons_of_mem _ hfield)) h)

theorem stable_record {fields : List FieldForm} (hf : ∀ f ∈ fields, Stable f.written) :
    Stable (RecordForm fields) := by
  rintro t t' h (⟨ms, rfl, hms⟩ | ⟨ts, rfl, hts⟩)
  · cases h with
    | same => exact .inl ⟨ms, rfl, hms⟩
    | object h hp => exact .inl ⟨_, rfl, (hms.reordered hf h).perm hp⟩
  · cases h with
    | same => exact .inr ⟨ts, rfl, hts⟩
    | array h => exact .inr ⟨_, rfl, hts.reordered hf h⟩

mutual

/-- The order of members makes no difference to what a tree is a form of. -/
theorem Shape.stable_form : (s : Shape) → (v : s.Val) → Stable (s.Form v)
  | .text, (v : String) => stable_text v
  | .flag, (v : Bool) => stable_flag v
  | .nat32, (v : UInt32) => stable_natural v.toNat
  | .filter, (v : SurfaceFilter) => stable_filter v
  | .note, (v : Option String) => stable_note v
  | .list item, (v : List item.Val) => stable_list item.stable_form v
  | .record _ _ fields, v => stable_record (fields.stable_forms v)

theorem Fields.stable_forms : (fs : Fields) → (v : fs.Val) → ∀ f ∈ fs.forms v, Stable f.written
  | .nil, _, f, hf => by simp [Fields.forms] at hf
  | .field _ _ shape others, (v, vs), f, hf => by
    rcases List.mem_cons.1 hf with rfl | hf
    · exact shape.stable_form v
    · exact others.stable_forms vs f hf

end

end PrimitiveAbi.Document
