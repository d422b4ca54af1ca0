import Mathlib.Data.List.Nodup
import PrimitiveAbi.Proofs.Document.Parts

/-!
# Documents are read exactly

The reader of a shape is sound for its form where every record in the shape is closed
(`Shape.sound_reader`), and complete whether or not (`Shape.complete_reader`); so a text is read as a
value exactly if it is a document of one of the value's trees (`Shape.parse_eq_ok_iff`). Of an
object, what was read so far is a draft: on the way in `Fields.Drafted` ties it to the members that
were read, and on the way back `Fields.draft` is the draft that they must have left.
-/

namespace PrimitiveAbi.Document

open Json

/-- A property of the shapes of all fields. -/
def Fields.All (p : Shape → Prop) : Fields → Prop
  | .nil => True
  | .field _ _ shape others => p shape ∧ others.All p

/-- The reader of the shape is sound for its form. -/
def Shape.IsSound (s : Shape) : Prop := s.reader.Sound s.Form

/-- The reader of the shape is complete for its form. -/
def Shape.IsComplete (s : Shape) : Prop := s.reader.Complete s.Form

/-! ### Arrays of fields -/

/-- Where the array ends there is no element. -/
theorem Items.eq_nil {first : Bool} {ts : List Tree} {cs rest rest' : List Char}
    (h : Items first ts cs rest) (hc : nextItem first cs = .ok (.closed rest')) : ts = [] := by
  cases h with
  | close => rfl
  | item hs ht =>
    rw [nextItem_of_spells hs ht] at hc
    simp at hc

theorem Fields.sound_elements {title : String} {size : Nat} :
    (fs : Fields) → fs.All Shape.IsSound → {position : Nat} → {first : Bool} →
    {cs : List Char} → {v : fs.Val} → {rest : List Char} →
    (fs.elements title size position first).run cs = .ok (v, rest) →
    ∃ ts, Items first ts cs rest ∧ ArrayForm (fs.forms v) ts
  | .nil, _, position, first, cs, v, rest, h =>
    ⟨[], .close (Reader.arrayEnd_eq_ok_iff.1 h), .absent (by simp [Fields.forms])⟩
  | .field name required shape others, hall, position, first, cs, (v, vs), rest, h => by
    obtain ⟨_, hn, hblank, hothers⟩ | ⟨cs₁, cs₂, hn, hv, hothers⟩ := Reader.element_eq_ok_iff.1 h
    · obtain ⟨ts, hts, hforms⟩ := others.sound_elements hall.2 hothers
      obtain rfl := Items.eq_nil hts hn
      refine ⟨[], hts, .absent ?_⟩
      intro f hf
      rcases List.mem_cons.1 hf with rfl | hf
      · cases required
        · simp only [Bool.false_eq_true, ↓reduceIte, Except.ok.injEq] at hblank
          exact ⟨rfl, hblank.symm⟩
        · simp at hblank
      · exact arrayForm_nil_iff.1 hforms f hf
    · obtain ⟨t, ht, hform⟩ := hall.1 hv
      obtain ⟨ts, hts, hforms⟩ := others.sound_elements hall.2 hothers
      exact ⟨t :: ts, .item (separator_of_nextItem hn) ht hts, .element hform hforms⟩

theorem Fields.complete_elements {title : String} {size : Nat} :
    (fs : Fields) → fs.All Shape.IsComplete → {position : Nat} → {first : Bool} →
    {ts : List Tree} → {cs : List Char} → {v : fs.Val} → {rest : List Char} →
    Items first ts cs rest → ArrayForm (fs.forms v) ts →
    (fs.elements title size position first).run cs = .ok (v, rest)
  | .nil, _, position, first, ts, cs, v, rest, h, hform => by
    cases hform
    cases h with
    | close hg => exact Reader.arrayEnd_eq_ok_iff.2 hg
  | .field name required shape others, hall, position, first, ts, cs, (v, vs), rest, h, hform => by
    apply Reader.element_eq_ok_iff.2
    cases hform with
    | absent hab =>
      have hg := h
      cases h with
      | close hg' =>
        obtain ⟨rfl, rfl⟩ := hab _ List.mem_cons_self
        have hforms : ArrayForm (others.forms vs) [] :=
          .absent fun f hf => hab f (List.mem_cons_of_mem _ hf)
        exact .inl ⟨_, nextItem_eq_closed_iff.2 hg', rfl, others.complete_elements hall.2 hg hforms⟩
    | element hw hws =>
      cases h with
      | item hs ht hts =>
        have hread := hall.1 ht hw hts.numberEnds
        exact .inr ⟨_, _, nextItem_of_spells hs ht, hread, others.complete_elements hall.2 hts hws⟩

/-! ### Objects: from what was read to the members -/

/-- What a draft holds of one field: a value that a member of its name gives, or nothing where no
member has its name. -/
def SlotOf {α : Type} (name : String) (form : α → Tree → Prop) (ms : List (String × Tree)) :
    Option α → Prop
  | some v => ∃ t, (name, t) ∈ ms ∧ form v t
  | none => name ∉ ms.map Prod.fst

theorem SlotOf.append_other {α : Type} {own : String} {form : α → Tree → Prop}
    {ms : List (String × Tree)} {slot : Option α} (h : SlotOf own form ms slot) {name : String}
    (hname : name ≠ own) (t : Tree) : SlotOf own form (ms ++ [(name, t)]) slot := by
  cases slot with
  | some v =>
    obtain ⟨t', ht', hform⟩ := h
    exact ⟨t', List.mem_append_left _ ht', hform⟩
  | none =>
    intro hmem
    rw [List.map_append, List.mem_append] at hmem
    rcases hmem with hmem | hmem
    · exact h hmem
    · rw [List.map_singleton, List.mem_singleton] at hmem
      exact hname hmem.symm

/-- A draft holds what the members that were read give, and nothing else. -/
def Fields.Drafted : (fs : Fields) → List (String × Tree) → fs.Draft → Prop
  | .nil, _, _ => True
  | .field name _ shape others, ms, (slot, slots) =>
      SlotOf name shape.Form ms slot ∧ others.Drafted ms slots

theorem Fields.drafted_nil : (fs : Fields) → fs.Drafted [] fs.noDraft
  | .nil => trivial
  | .field _ _ _ others => ⟨by simp [SlotOf], others.drafted_nil⟩

/-- A member that is no field of a record does not show in its draft. -/
theorem Fields.Drafted.append_other : {fs : Fields} → {ms : List (String × Tree)} →
    {draft : fs.Draft} → {name : String} → {t : Tree} → fs.Drafted ms draft → name ∉ fs.names →
    fs.Drafted (ms ++ [(name, t)]) draft
  | .nil, _, _, _, _, _, _ => trivial
  | .field own _ shape others, ms, (slot, slots), name, t, h, hname => by
    obtain ⟨hslot, hslots⟩ := h
    rw [Fields.names, List.mem_cons, not_or] at hname
    exact ⟨hslot.append_other hname.1 t, hslots.append_other hname.2⟩

/-- A member that is read is a new one of the record, and goes into the draft. -/
theorem Fields.sound_member {known : List String} : (fs : Fields) → fs.All Shape.IsSound →
    fs.names.Nodup → {ms : List (String × Tree)} → {draft draft' : fs.Draft} → {name : String} →
    {cs rest : List Char} → fs.Drafted ms draft →
    (fs.member (strange true known) name draft).run cs = .ok (draft', rest) →
    ∃ cs' t, Gap cs (':' :: cs') ∧ Spells t cs' rest ∧ name ∈ fs.names ∧
      name ∉ ms.map Prod.fst ∧ fs.Drafted (ms ++ [(name, t)]) draft'
  | .nil, _, _, ms, draft, draft', name, cs, rest, _, h => by
    simp [Fields.member, strange, Reader.fail] at h
  | .field own required shape others, hall, hnodup, ms, (slot, slots), (slot', slots'), name, cs,
      rest, hd, h => by
    obtain ⟨hslot, hslots⟩ := hd
    rw [Fields.names, List.nodup_cons] at hnodup
    obtain ⟨rfl, rfl, rfl, cs₁, v, hcolon, hv, rfl⟩ | ⟨hname, rfl, hothers⟩ :=
      Reader.member_eq_ok_iff.1 h
    · obtain ⟨t, ht, hform⟩ := hall.1 hv
      refine ⟨_, t, hcolon, ht, List.mem_cons_self, hslot, ?_, ?_⟩
      · exact ⟨t, by simp, hform⟩
      · exact hslots.append_other hnodup.1
    · obtain ⟨cs', t, hcolon, ht, hmem, hnew, hslots'⟩ :=
        others.sound_member hall.2 hnodup.2 hslots hothers
      exact ⟨cs', t, hcolon, ht, List.mem_cons_of_mem _ hmem, hnew, hslot.append_other hname t,
        hslots'⟩

/-- A draft that is finished holds every field that may not be left out. -/
theorem Fields.present_of_finish : (fs : Fields) → {ms : List (String × Tree)} →
    {draft : fs.Draft} → {v : fs.Val} → fs.Drafted ms draft → fs.finish draft = .ok v →
    ∀ f ∈ fs.forms v,
      (∃ t, (f.name, t) ∈ ms ∧ f.written t) ∨ (f.name ∉ ms.map Prod.fst ∧ f.omitted)
  | .nil, _, _, _, _, _ => by simp [Fields.forms]
  | .field own required shape others, ms, (slot, slots), (v, vs), hd, h => by
    obtain ⟨hslot, hslots⟩ := hd
    obtain ⟨hv, hothers⟩ := Fields.finish_eq_ok_iff.1 h
    intro f hf
    rcases List.mem_cons.1 hf with rfl | hf
    · rcases hv with rfl | ⟨rfl, hv⟩
      · exact .inl hslot
      · exact .inr ⟨hslot, hv⟩
    · exact others.present_of_finish hslots hothers f hf

/-- What is known of the members that were read and of the draft that they left. -/
structure Fields.Progress (fs : Fields) (ms : List (String × Tree)) (draft : fs.Draft) : Prop where
  distinct : (ms.map Prod.fst).Nodup
  known : ∀ m ∈ ms, m.1 ∈ fs.names
  drafted : fs.Drafted ms draft

theorem Fields.Progress.append {fs : Fields} {ms : List (String × Tree)} {draft draft' : fs.Draft}
    (h : fs.Progress ms draft) {name : String} {t : Tree} (hmem : name ∈ fs.names)
    (hnew : name ∉ ms.map Prod.fst) (hd : fs.Drafted (ms ++ [(name, t)]) draft') :
    fs.Progress (ms ++ [(name, t)]) draft' where
  distinct := by
    rw [List.map_append, List.map_singleton, List.nodup_append]
    refine ⟨h.distinct, by simp, ?_⟩
    rintro a ha b hb rfl
    obtain rfl : a = name := by simpa using hb
    exact hnew ha
  known m hm := by
    rcases List.mem_append.1 hm with hm | hm
    · exact h.known m hm
    · rw [List.mem_singleton] at hm
      exact hm ▸ hmem
  drafted := hd

theorem Fields.sound_object {fs : Fields} (hall : fs.All Shape.IsSound) (hnodup : fs.names.Nodup)
    {known : List String} {cs rest : List Char} {draft : fs.Draft} {v : fs.Val}
    (h : Reader.members (fs.member (strange true known)) true fs.noDraft cs = .ok (draft, rest))
    (hv : fs.finish draft = .ok v) :
    ∃ ms, Members true ms cs rest ∧ ObjectForm (fs.forms v) ms := by
  have start : fs.Progress [] fs.noDraft := ⟨by simp, by simp, fs.drafted_nil⟩
  have step : ∀ {ms : List (String × Tree)} {draft draft' : fs.Draft} {name : String}
      {cs rest : List Char}, fs.Progress ms draft →
      (fs.member (strange true known) name draft).run cs = .ok (draft', rest) →
      ∃ cs' t, Gap cs (':' :: cs') ∧ Spells t cs' rest ∧
        fs.Progress (ms ++ [(name, t)]) draft' := by
    intro ms draft draft' name cs rest hinv hrun
    obtain ⟨cs', t, hcolon, ht, hmem, hnew, hdrafted⟩ :=
      fs.sound_member hall hnodup hinv.drafted hrun
    exact ⟨cs', t, hcolon, ht, hinv.append hmem hnew hdrafted⟩
  obtain ⟨ms, hms, hprogress⟩ := Reader.members_sound step start h
  rw [List.nil_append] at hprogress
  refine ⟨ms, hms, hprogress.distinct, ?_, fs.present_of_finish hprogress.drafted hv⟩
  rw [fs.map_name_forms]
  exact hprogress.known

/-! ### Objects: from the members to what is read -/

/-- The draft of a value of which the fields of some names were read. -/
def Fields.draft : (fs : Fields) → fs.Val → List String → fs.Draft
  | .nil, _, _ => ()
  | .field name _ _ others, (v, vs), seen =>
      (if name ∈ seen then some v else none, others.draft vs seen)

theorem Fields.draft_nil : (fs : Fields) → (v : fs.Val) → fs.draft v [] = fs.noDraft
  | .nil, _ => rfl
  | .field _ _ _ others, (_, vs) => by
    rw [Fields.draft, Fields.noDraft, others.draft_nil vs, if_neg List.not_mem_nil]

theorem Fields.draft_append_other : (fs : Fields) → (v : fs.Val) → (seen : List String) →
    {name : String} → name ∉ fs.names → fs.draft v (seen ++ [name]) = fs.draft v seen
  | .nil, _, _, _, _ => rfl
  | .field own _ _ others, (_, vs), seen, name, hname => by
    rw [Fields.names, List.mem_cons, not_or] at hname
    have hmem : own ∈ seen ++ [name] ↔ own ∈ seen := by
      rw [List.mem_append, List.mem_singleton, or_iff_left (Ne.symm hname.1)]
    simp only [Fields.draft, others.draft_append_other vs seen hname.2, hmem]
    rfl

/-- The member of a field that was not read yet leads to the draft in which it was. -/
theorem Fields.complete_member {other : String → Reader Unit} : (fs : Fields) →
    fs.All Shape.IsComplete → fs.names.Nodup → {v : fs.Val} → {seen : List String} →
    {name : String} → {t : Tree} → {cs cs' rest : List Char} → name ∈ fs.names → name ∉ seen →
    (∀ f ∈ fs.forms v, f.name = name → f.written t) → Gap cs (':' :: cs') → Spells t cs' rest →
    NumberEnds rest →
    (fs.member other name (fs.draft v seen)).run cs = .ok (fs.draft v (seen ++ [name]), rest)
  | .nil, _, _, _, _, _, _, _, _, _, hmem, _, _, _, _, _ => by simp [Fields.names] at hmem
  | .field own required shape others, hall, hnodup, (v, vs), seen, name, t, cs, cs', rest, hmem,
      hnew, hform, hcolon, ht, hends => by
    rw [Fields.names, List.nodup_cons] at hnodup
    apply Reader.member_eq_ok_iff.2
    by_cases hname : name = own
    · subst hname
      have hread := hall.1 ht (hform _ List.mem_cons_self rfl) hends
      exact .inl ⟨rfl, if_neg hnew, others.draft_append_other vs seen hnodup.1, _, v, hcolon, hread,
        if_pos (by simp)⟩
    · have hmem' : name ∈ others.names := (List.mem_cons.1 hmem).resolve_left hname
      have hforms : ∀ f ∈ others.forms vs, f.name = name → f.written t :=
        fun f hf => hform f (List.mem_cons_of_mem _ hf)
      refine .inr ⟨hname, ?_, others.complete_member hall.2 hnodup.2 hmem' hnew hforms hcolon ht hends⟩
      simp only [List.mem_append, List.mem_singleton, Ne.symm hname, or_false]

/-- A draft in which every field was read that may not be left out is the value. -/
theorem Fields.finish_draft : (fs : Fields) → {v : fs.Val} → {seen : List String} →
    (∀ f ∈ fs.forms v, f.name ∈ seen ∨ f.omitted) → fs.finish (fs.draft v seen) = .ok v
  | .nil, _, _, _ => rfl
  | .field own required shape others, (v, vs), seen, h => by
    have hothers := others.finish_draft fun f hf => h f (List.mem_cons_of_mem _ hf)
    refine Fields.finish_eq_ok_iff.2 ⟨?_, hothers⟩
    by_cases hmem : own ∈ seen
    · exact .inl (if_pos hmem)
    · exact .inr ⟨if_neg hmem, (h _ List.mem_cons_self).resolve_left hmem⟩

/-- A member of an object is written in the form of the field of its name. -/
theorem ObjectForm.written_of_mem {fields : List FieldForm} {ms : List (String × Tree)}
    (h : ObjectForm fields ms) {name : String} {t : Tree} (hm : (name, t) ∈ ms) {f : FieldForm}
    (hf : f ∈ fields) (hname : f.name = name) : f.written t := by
  subst hname
  rcases h.present f hf with ⟨t', ht', hw⟩ | ⟨hab, -⟩
  · have heq : (f.name, t) = (f.name, t') := List.inj_on_of_nodup_map h.distinct hm ht' rfl
    rwa [(Prod.mk.inj heq).2]
  · exact absurd (List.mem_map_of_mem hm) hab

theorem Fields.complete_object {fs : Fields} (hall : fs.All Shape.IsComplete)
    (hnodup : fs.names.Nodup) (other : String → Reader Unit) {ms : List (String × Tree)}
    {cs rest : List Char} {v : fs.Val} (h : Members true ms cs rest)
    (hform : ObjectForm (fs.forms v) ms) :
    Reader.members (fs.member other) true fs.noDraft cs =
        .ok (fs.draft v (ms.map Prod.fst), rest) ∧
      fs.finish (fs.draft v (ms.map Prod.fst)) = .ok v := by
  constructor
  · have step : ∀ {seen : List String} {name : String} {t : Tree} {cs cs' rest : List Char},
        (name, t) ∈ ms → name ∉ seen → Gap cs (':' :: cs') → Spells t cs' rest →
        NumberEnds rest → (fs.member other name (fs.draft v seen)).run cs =
          .ok (fs.draft v (seen ++ [name]), rest) := by
      intro seen name t cs cs' rest hm hnew hcolon ht hends
      have hmem := hform.known _ hm
      rw [fs.map_name_forms] at hmem
      exact fs.complete_member hall hnodup hmem hnew (fun f hf => hform.written_of_mem hm hf)
        hcolon ht hends
    rw [← fs.draft_nil v]
    exact Reader.members_complete step hform.distinct h
  · apply fs.finish_draft
    intro f hf
    rcases hform.present f hf with ⟨t, ht, -⟩ | ⟨-, hab⟩
    · exact .inl (List.mem_map_of_mem ht)
    · exact .inr hab

/-! ### Shapes -/

theorem Fields.sound_record {fs : Fields} (hall : fs.All Shape.IsSound) (hnodup : fs.names.Nodup)
    (title : String) : (Shape.record title true fs).IsSound := by
  intro cs v rest h
  obtain ⟨cs₁, hg, helements⟩ | ⟨cs₁, draft, hg, hm, hv⟩ := Reader.record_eq_ok_iff.1 h
  · obtain ⟨ts, hts, hform⟩ := fs.sound_elements hall helements
    exact ⟨.array ts, .array hg hts, .inr ⟨ts, rfl, hform⟩⟩
  · obtain ⟨ms, hms, hform⟩ := fs.sound_object hall hnodup hm hv
    exact ⟨.object ms, .object hg hms, .inl ⟨ms, rfl, hform⟩⟩

theorem Fields.complete_record {fs : Fields} (hall : fs.All Shape.IsComplete)
    (hnodup : fs.names.Nodup) (title : String) (closed : Bool) :
    (Shape.record title closed fs).IsComplete := by
  rintro t cs v rest h hform -
  apply Reader.record_eq_ok_iff.2
  rcases hform with ⟨ms, rfl, hform⟩ | ⟨ts, rfl, hform⟩
  · cases h with
    | object hg hms =>
      obtain ⟨hm, hv⟩ := Fields.complete_object hall hnodup (strange closed fs.names) hms hform
      exact .inr ⟨_, _, hg, hm, hv⟩
  · cases h with
    | array hg hts => exact .inl ⟨_, hg, fs.complete_elements hall hts hform⟩

mutual

/-- What the reader of a closed shape takes off a text is a spelling of a tree of its form. -/
theorem Shape.sound_reader : (s : Shape) → s.isClosed = true → s.isProper = true → s.IsSound
  | .text, _, _ => sound_readText
  | .flag, _, _ => sound_readFlag
  | .nat32, _, _ => sound_readNat32
  | .filter, _, _ => sound_readFilter
  | .note, _, _ => sound_readNote
  | .list item, hc, hp => (item.sound_reader hc hp).list
  | .record title closed fields, hc, hp => by
    rw [Shape.isClosed, Bool.and_eq_true] at hc
    rw [Shape.isProper, Bool.and_eq_true, decide_eq_true_eq] at hp
    rw [hc.1]
    exact Fields.sound_record (fields.all_sound hc.2 hp.2) hp.1 title

theorem Fields.all_sound : (fs : Fields) → fs.areClosed = true → fs.areProper = true →
    fs.All Shape.IsSound
  | .nil, _, _ => trivial
  | .field _ _ shape others, hc, hp => by
    rw [Fields.areClosed, Bool.and_eq_true] at hc
    rw [Fields.areProper, Bool.and_eq_true] at hp
    exact ⟨shape.sound_reader hc.1 hp.1, others.all_sound hc.2 hp.2⟩

end

mutual

/-- The reader of a shape takes every spelling of a tree of its form. -/
theorem Shape.complete_reader : (s : Shape) → s.isProper = true → s.IsComplete
  | .text, _ => complete_readText
  | .flag, _ => complete_readFlag
  | .nat32, _ => complete_readNat32
  | .filter, _ => complete_readFilter
  | .note, _ => complete_readNote
  | .list item, hp => (item.complete_reader hp).list
  | .record title closed fields, hp => by
    rw [Shape.isProper, Bool.and_eq_true, decide_eq_true_eq] at hp
    exact Fields.complete_record (fields.all_complete hp.2) hp.1 title closed

theorem Fields.all_complete : (fs : Fields) → fs.areProper = true → fs.All Shape.IsComplete
  | .nil, _ => trivial
  | .field _ _ shape others, hp => by
    rw [Fields.areProper, Bool.and_eq_true] at hp
    exact ⟨shape.complete_reader hp.1, others.all_complete hp.2⟩

end

/-! ### Texts -/

/-- A document of a tree of a value's form is read as the value. -/
theorem Shape.parse_of_isDocument {s : Shape} (hp : s.isProper = true) {text : String} {v : s.Val}
    {t : Tree} (h : IsDocument t text) (hform : s.Form v t) : s.parse text = .ok v := by
  obtain ⟨rest, ht, hg⟩ := h
  have hread := s.complete_reader hp ht hform (hg.numberEnds numberEnds_nil)
  unfold Shape.parse
  rw [hread]
  simp only [gap_nil_iff.1 hg]

/-- What is read as a value of a closed shape is a document of a tree of the value's form. -/
theorem Shape.exists_isDocument_of_parse {s : Shape} (hc : s.isClosed = true)
    (hp : s.isProper = true) {text : String} {v : s.Val} (h : s.parse text = .ok v) :
    ∃ t, IsDocument t text ∧ s.Form v t := by
  unfold Shape.parse at h
  split at h
  · simp at h
  rename_i hread
  split at h
  · rename_i hrest
    simp only [Except.ok.injEq] at h
    obtain ⟨t, ht, hform⟩ := s.sound_reader hc hp hread
    exact ⟨t, ⟨_, ht, gap_nil_iff.2 hrest⟩, h ▸ hform⟩
  · simp at h

/-- A text is read as a value of a closed shape exactly if it is a document of one of its trees. -/
theorem Shape.parse_eq_ok_iff {s : Shape} (hc : s.isClosed = true) (hp : s.isProper = true)
    {text : String} {v : s.Val} :
    s.parse text = .ok v ↔ ∃ t, IsDocument t text ∧ s.Form v t :=
  ⟨Shape.exists_isDocument_of_parse hc hp,
    fun ⟨_, ht, hform⟩ => Shape.parse_of_isDocument hp ht hform⟩

end PrimitiveAbi.Document
