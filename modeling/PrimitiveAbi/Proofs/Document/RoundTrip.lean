import PrimitiveAbi.Manifest
import PrimitiveAbi.Proofs.Document.Reading
import PrimitiveAbi.Proofs.Json.Writing
import PrimitiveAbi.Requires

/-!
# What is written is read back

The tree that a value of a shape is written as is of the value's form (`Shape.form_toJson`), and the
reader of the shape takes every spelling of such a tree. So the texts of manifests, requirements and
reports are read as what they were written from, and writing what was read is a normal form.
-/

namespace PrimitiveAbi.Document

open Json

mutual

/-- Whether the notes in a shape may be left out, as writing leaves out those that are absent. -/
def Shape.leavesNotes : Shape → Bool
  | .list item => item.leavesNotes
  | .record _ _ fields => fields.leaveNotes
  | _ => true

def Fields.leaveNotes : Fields → Bool
  | .nil => true
  | .field _ required .note others => !required && others.leaveNotes
  | .field _ _ shape others => shape.leavesNotes && others.leaveNotes

end

/-- A field whose value leaves no member behind may be left out, with that value. -/
theorem Fields.omitted_of_isAbsent {name : String} {required : Bool} {shape : Shape}
    {others : Fields} (hn : (Fields.field name required shape others).leaveNotes = true)
    {v : shape.Val} (hv : shape.isAbsent v = true) : required = false ∧ v = shape.blank := by
  cases shape with
  | note =>
    rw [Fields.leaveNotes, Bool.and_eq_true, Bool.not_eq_true'] at hn
    exact ⟨hn.1, Option.isNone_iff_eq_none.1 hv⟩
  | _ => simp [Shape.isAbsent] at hv

theorem Fields.leaveNotes_cons {name : String} {required : Bool} {shape : Shape} {others : Fields}
    (hn : (Fields.field name required shape others).leaveNotes = true) :
    shape.leavesNotes = true ∧ others.leaveNotes = true := by
  cases shape <;> simp_all [Fields.leaveNotes, Shape.leavesNotes]

theorem listForm_itemTrees {α : Type} {form : α → Tree → Prop} {f : α → Value}
    (h : ∀ v, form v (f v).tree) (vs : List α) :
    ListForm form vs (.array (itemTrees (vs.map f))) := by
  refine ⟨_, rfl, ?_⟩
  induction vs with
  | nil => exact .nil
  | cons v vs ih => exact .cons (h v) ih

mutual

/-- The tree that a value is written as is of its form. -/
theorem Shape.form_toJson : (s : Shape) → s.isProper = true → s.leavesNotes = true →
    (v : s.Val) → s.Form v (s.toJson v).tree
  | .text, _, _, (v : String) => rfl
  | .flag, _, _, (v : Bool) => rfl
  | .nat32, _, _, (v : UInt32) =>
    ⟨_, rfl, (isWhole_toDigits v.toNat).1.2, Nat.ofDigitChars_ten_toDigits⟩
  | .filter, _, _, (v : SurfaceFilter) => .inl rfl
  | .note, _, _, (v : Option String) => by cases v <;> rfl
  | .list item, hp, hn, (v : List item.Val) =>
    listForm_itemTrees (item.form_toJson hp hn) v
  | .record _ _ fields, hp, hn, v => by
    rw [Shape.isProper, Bool.and_eq_true, decide_eq_true_eq] at hp
    exact .inl ⟨_, rfl, fields.objectForm_members hp.1 hp.2 hn v⟩

theorem Fields.objectForm_members : (fs : Fields) → fs.names.Nodup → fs.areProper = true →
    fs.leaveNotes = true → (v : fs.Val) → ObjectForm (fs.forms v) (memberTrees (fs.members v))
  | .nil, _, _, _, _ => objectForm_nil
  | .field name required shape others, hd, hp, hn, (v, vs) => by
    obtain ⟨hname, hd⟩ := List.nodup_cons.1 hd
    rw [Fields.areProper, Bool.and_eq_true] at hp
    obtain ⟨hshape, hothers⟩ := Fields.leaveNotes_cons hn
    have hrest := others.objectForm_members hd hp.2 hothers vs
    rw [← others.map_name_forms vs] at hname
    rw [Fields.members]
    -- the name is new among the other fields, whether or not the field leaves a member
    by_cases habsent : shape.isAbsent v = true
    · rw [if_pos habsent]
      exact hrest.cons_omitted hname (Fields.omitted_of_isAbsent hn habsent)
    · rw [if_neg habsent]
      exact hrest.cons_written hname (shape.form_toJson hp.1 hshape v)

end

/-- The text of a document is read as what it was written from. -/
theorem Shape.parse_compact {s : Shape} (hp : s.isProper = true) (hn : s.leavesNotes = true)
    (v : s.Val) : s.parse (s.compact v) = .ok v :=
  Shape.parse_of_isDocument hp (isDocument_compact _) (s.form_toJson hp hn v)

theorem Shape.parse_pretty {s : Shape} (hp : s.isProper = true) (hn : s.leavesNotes = true)
    (v : s.Val) : s.parse (s.pretty v) = .ok v :=
  Shape.parse_of_isDocument hp (isDocument_pretty _ 0) (s.form_toJson hp hn v)

end PrimitiveAbi.Document

namespace PrimitiveAbi

open Document

theorem Manifest.parse_compact (m : Manifest) : Manifest.parse m.compact = .ok m := by
  rw [Manifest.parse, Manifest.compact, Shape.parse_compact (by decide) rfl]
  exact congrArg Except.ok m.ofVal_toVal

theorem Manifest.parse_pretty (m : Manifest) : Manifest.parse m.pretty = .ok m := by
  rw [Manifest.parse, Manifest.pretty, Shape.parse_pretty (by decide) rfl]
  exact congrArg Except.ok m.ofVal_toVal

theorem Requires.parse_compact (r : Requires) : Requires.parse r.compact = .ok r := by
  rw [Requires.parse, Requires.compact, Shape.parse_compact (by decide) rfl]
  exact congrArg Except.ok r.ofVal_toVal

theorem Report.parse_compact (r : Report) : Report.parse r.compact = .ok r := by
  rw [Report.parse, Report.compact, Shape.parse_compact (by decide) rfl]
  exact congrArg Except.ok r.ofVal_toVal

/-- Writing what was read is a normal form if what is written is read back. -/
theorem normal_of_round_trip {ε α : Type} {parse : String → Except ε α} {write : α → String}
    (h : ∀ v, parse (write v) = .ok v) {text normal : String}
    (hn : (parse text).map write = .ok normal) : (parse normal).map write = .ok normal := by
  cases hv : parse text with
  | error e => simp [hv, Except.map] at hn
  | ok v =>
    obtain rfl : write v = normal := by simpa [hv, Except.map] using hn
    rw [h v]
    rfl

/-- Every manifest, requirement and report is read back from its text, a manifest also from its text
in lines. Reading a text and writing what was read gives the normal form of the text. -/
theorem documents_round_trip :
    (∀ m : Manifest, Manifest.parse m.compact = .ok m ∧ Manifest.parse m.pretty = .ok m) ∧
    (∀ r : Requires, Requires.parse r.compact = .ok r) ∧
    (∀ r : Report, Report.parse r.compact = .ok r) ∧
    ∀ text normal : String,
      ((Manifest.parse text).map Manifest.compact = .ok normal →
        (Manifest.parse normal).map Manifest.compact = .ok normal) ∧
      ((Manifest.parse text).map Manifest.pretty = .ok normal →
        (Manifest.parse normal).map Manifest.pretty = .ok normal) ∧
      ((Requires.parse text).map Requires.compact = .ok normal →
        (Requires.parse normal).map Requires.compact = .ok normal) ∧
      ((Report.parse text).map Report.compact = .ok normal →
        (Report.parse normal).map Report.compact = .ok normal) := by
  refine ⟨fun m => ⟨m.parse_compact, m.parse_pretty⟩, Requires.parse_compact,
    Report.parse_compact, ?_⟩
  intro text normal
  refine ⟨?_, ?_, ?_, ?_⟩
  · exact normal_of_round_trip Manifest.parse_compact
  · exact normal_of_round_trip Manifest.parse_pretty
  · exact normal_of_round_trip Requires.parse_compact
  · exact normal_of_round_trip Report.parse_compact

/-- A manifest and requirements that are written as arrays, with escapes, and a report with a member
that is read past. -/
theorem documents_round_trip_arrays :
    let manifest := "[\"v\",1,\"\\/\",\x7b\"all\":null\x7d,[],[]]"
    let compact := "\x7b\"schema_version\":\"v\",\"abi_major\":1,\"runtime\":\"/\"," ++
      "\"surface\":\"all\",\"imports\":[],\"primitives\":[]\x7d"
    let pretty := "\x7b\n  \"schema_version\": \"v\",\n  \"abi_major\": 1,\n" ++
      "  \"runtime\": \"/\",\n  \"surface\": \"all\",\n  \"imports\": [],\n" ++
      "  \"primitives\": []\n\x7d"
    let requires := "[ \"\\u0076\" , 1 ]"
    let required := "\x7b\"schema_version\":\"v\",\"abi_major\":1,\"symbols\":[],\"names\":[]\x7d"
    let report := "[\"v\",true,[\x7b\"symbol\":\"s\",\"more\":[],\"requested\":\"r\"\x7d],[]]"
    let reported := "\x7b\"schema_version\":\"v\",\"ok\":true," ++
      "\"resolved\":[\x7b\"requested\":\"r\",\"symbol\":\"s\"\x7d],\"missing\":[]\x7d"
    ((Manifest.parse manifest).map Manifest.compact = .ok compact ∧
      (Manifest.parse compact).map Manifest.compact = .ok compact) ∧
    ((Manifest.parse manifest).map Manifest.pretty = .ok pretty ∧
      (Manifest.parse pretty).map Manifest.pretty = .ok pretty) ∧
    ((Requires.parse requires).map Requires.compact = .ok required ∧
      (Requires.parse required).map Requires.compact = .ok required) ∧
    ((Report.parse report).map Report.compact = .ok reported ∧
      (Report.parse reported).map Report.compact = .ok reported) := by
  intro manifest compact pretty requires required report reported
  have hcompact : (Manifest.parse manifest).map Manifest.compact = .ok compact := by decide +kernel
  have hpretty : (Manifest.parse manifest).map Manifest.pretty = .ok pretty := by decide +kernel
  have hrequired : (Requires.parse requires).map Requires.compact = .ok required := by
    decide +kernel
  have hreported : (Report.parse report).map Report.compact = .ok reported := by decide +kernel
  have normal := documents_round_trip.2.2.2
  exact ⟨⟨hcompact, (normal _ _).1 hcompact⟩, ⟨hpretty, (normal _ _).2.1 hpretty⟩,
    ⟨hrequired, (normal _ _).2.2.1 hrequired⟩, ⟨hreported, (normal _ _).2.2.2 hreported⟩⟩

end PrimitiveAbi
