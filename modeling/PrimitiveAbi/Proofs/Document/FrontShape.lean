import PrimitiveAbi.Proofs.Document.Front

/-!
# What documents say of a front

The reader of a shape says of the front of a text what it says of the whole. A cut through a number
is told apart only where the number is used: in a value that is skipped a number that ends too early
is a fault of its own, so a shape with open records is read so only where the cut goes through no
number.
-/

namespace PrimitiveAbi.Document

open Json Leaves

attribute [grind →] Reader.length_items Reader.length_members

/-! ### Loops -/

/-- The cut goes through no number, or it does not matter because nothing is skipped. -/
def Uncut (closed : Bool) (front back : List Char) : Prop :=
  closed = true ∨ ¬ InsideNumber front back

theorem Uncut.of_leads {closed : Bool} {cs rest back : List Char} (h : Uncut closed cs back)
    (hl : Leads .outside .outside cs rest) : Uncut closed rest back :=
  h.imp_right (mt (.of_leads hl))

theorem Uncut.mono {closed closed' : Bool} {front back : List Char} (h : Uncut closed front back)
    (hclosed : closed = true → closed' = true) : Uncut closed' front back :=
  h.imp_left hclosed

namespace Reader

variable {α β δ : Type}

/-- The reader says of a front what it says of the whole; of the values that it skips only where no
number is cut. -/
def IsForetold (closed : Bool) (r : Reader α) : Prop :=
  ∀ ⦃front back : List Char⦄, Uncut closed front back →
    ForetellsValue back (r.run front) (r.run (front ++ back))

theorem items_nil (r : Reader α) (first : Bool) : r.items first [] = .error .truncated := by
  rw [items_eq]
  rfl

theorem members_nil (member : String → δ → Reader δ) (first : Bool) (draft : δ) :
    members member first draft [] = .error .truncated := by
  rw [members_eq]
  rfl

theorem length_item {r : Reader α} (hr : r.TakesValues) {cs rest : List Char} {v : α}
    (h : r.run cs = .ok (v, rest)) : rest.length ≤ (skipBlank cs).tail.length := by
  obtain ⟨c, after, hn, -⟩ := (hr h).next
  rw [skipBlank_of_next hn]
  exact (hr h).length_le hn

theorem foretells_items {closed : Bool} {r : Reader α} (hr : r.TakesValues)
    (hf : r.IsForetold closed) (first : Bool) {front back : List Char}
    (hcut : Uncut closed front back) :
    Foretells back (r.items first front) (r.items first (front ++ back)) := by
  rw [items_eq, items_eq]
  have h := foretells_nextItem first front back
  generalize hx : nextItem first front = x, nextItem first (front ++ back) = y at h ⊢
  apply h.bind (by intro e; exact ⟨rfl, rfl⟩)
  · rintro (rest | rest) rfl
    · exact .read (([] : List α), rest)
    · have hcut := hcut.of_leads (separator_of_nextItem hx).leads
      have := length_nextItem_item hx
      dsimp only [extend]
      have h := hf hcut
      generalize hv : r.run rest = x, r.run (rest ++ back) = y at h ⊢
      apply h.bind (by intro e; exact ⟨rfl, rfl⟩)
      · rintro v after rfl
        have := r.shrinks hv
        dsimp only
        have h := foretells_items hr hf false (hcut.of_leads (hr hv).leads)
        generalize r.items false after = x, r.items false (after ++ back) = y at h ⊢
        apply h.bind (by intro e; exact ⟨rfl, rfl⟩)
        · rintro ⟨vs, rest⟩ -
          exact .read (v :: vs, rest)
        · grind
      · intro v
        dsimp only
        rw [items_nil]
      · grind
  · grind [→ length_item]
termination_by front.length

theorem foretells_members {closed : Bool} {member : String → δ → Reader δ}
    (hm : ∀ name draft, (member name draft).TakesMembers)
    (hf : ∀ name draft, (member name draft).IsForetold closed) (first : Bool) (draft : δ)
    {front back : List Char} (hcut : Uncut closed front back) :
    Foretells back (members member first draft front)
      (members member first draft (front ++ back)) := by
  rw [members_eq, members_eq]
  have h := foretells_nextMember first front back
  generalize hx : nextMember first front = x, nextMember first (front ++ back) = y at h ⊢
  apply h.bind (by intro e; exact ⟨rfl, rfl⟩)
  · rintro (rest | ⟨name, rest⟩) rfl
    · exact .read (draft, rest)
    · obtain ⟨_, _, hs, hq, hname⟩ := separator_of_nextMember hx
      have hcut := hcut.of_leads ((hs.leads.trans hq.leads_quote).trans hname.raw.leads)
      have := length_nextMember_named hx
      dsimp only [extend]
      have h := hf name draft hcut
      generalize hv : (member name draft).run rest = x,
        (member name draft).run (rest ++ back) = y at h ⊢
      apply h.bind (by intro e; exact ⟨rfl, rfl⟩)
      · rintro draft' after rfl
        have := (member name draft).shrinks hv
        obtain ⟨_, hcolon, hraw⟩ := hm name draft hv
        have hcut := hcut.of_leads ((hcolon.leads_cons (by decide)).trans hraw.leads)
        exact foretells_members hm hf false draft' hcut
      · intro draft'
        exact members_nil member false draft'
      · grind
  · grind [→ Reader.shrinks]
termination_by front.length

/-! ### Members and elements -/

theorem IsForetold.mono {closed closed' : Bool} {r : Reader α} (h : r.IsForetold closed)
    (hclosed : closed' = true → closed = true) : r.IsForetold closed' :=
  fun _ _ hcut => h (hcut.mono hclosed)

theorem isForetold_of_foretells {r : Reader α}
    (h : ∀ front back, Foretells back (r.run front) (r.run (front ++ back))) (closed : Bool) :
    r.IsForetold closed :=
  fun front back _ => .known (h front back)

theorem isForetold_fail (fault : Fault) (closed : Bool) :
    (Reader.fail fault : Reader α).IsForetold closed :=
  isForetold_of_foretells (fun _ _ => .fault fault) closed

/-- A value that is skipped is foretold where no number is cut. -/
theorem isForetold_skipped : skipped.IsForetold false := by
  intro front back hcut
  have hcut := hcut.resolve_left (by decide)
  have h := foretells_skipValue [] hcut
  simp only [skipped, skip]
  generalize skipValue [] front = x, skipValue [] (front ++ back) = y at h ⊢
  refine .known ?_
  apply h.bind (by intro e; exact ⟨rfl, rfl⟩)
  · rintro rest -
    exact .read ((), rest)
  · grind

theorem IsForetold.map {closed : Bool} {r : Reader α} (h : r.IsForetold closed) (f : α → β) :
    (r.map f).IsForetold closed := by
  intro front back hcut
  have h := h hcut
  simp only [Reader.map]
  generalize r.run front = x, r.run (front ++ back) = y at h ⊢
  cases h with
  | known h =>
    refine .known ?_
    apply h.bind (by intro e; exact ⟨rfl, rfl⟩)
    · rintro ⟨v, rest⟩ -
      exact .read (f v, rest)
    · grind
  | @«open» v y hends h =>
    refine .open hends fun r hr => ?_
    grind

theorem IsForetold.afterColon {closed : Bool} {r : Reader α} (h : r.IsForetold closed) :
    r.afterColon.IsForetold closed := by
  intro front back hcut
  have hcolon := foretells_colon front back
  simp only [Reader.afterColon]
  generalize hx : colon front = x, colon (front ++ back) = y at hcolon ⊢
  apply ForetellsValue.behind hcolon (by intro e; exact ⟨rfl, rfl⟩)
  · rintro rest rfl
    exact h (hcut.of_leads ((colon_eq_ok_iff.1 hx).leads_cons (by decide)))
  · grind [→ Reader.shrinks]

theorem isForetold_strange (closed : Bool) (known : List String) (name : String) :
    (strange closed known name).IsForetold closed := by
  cases closed
  · exact isForetold_skipped.afterColon
  · exact isForetold_fail _ true

theorem IsForetold.member {closed : Bool} {r : Reader α} {others : String → β → Reader β}
    (hr : r.IsForetold closed) (hothers : ∀ name draft, (others name draft).IsForetold closed)
    (own name : String) (draft : Option α × β) :
    (Reader.member r own others name draft).IsForetold closed := by
  unfold Reader.member
  split
  · split
    · exact isForetold_fail _ closed
    · exact hr.afterColon.map _
  · exact (hothers name draft.2).map _

theorem foretells_list {closed : Bool} {r : Reader α} (hr : r.TakesValues)
    (hf : r.IsForetold closed) {front back : List Char} (hcut : Uncut closed front back) :
    Foretells back ((Reader.list r).run front) ((Reader.list r).run (front ++ back)) := by
  simp only [Reader.list]
  have h := foretells_next front back
  generalize hx : next front = x, next (front ++ back) = y at h ⊢
  apply h.bind (by intro e; exact ⟨rfl, rfl⟩)
  · rintro ⟨c, rest⟩ rfl
    dsimp only [extend_pair]
    split
    · exact foretells_items hr hf true (hcut.of_leads (leads_of_next hx (by simp [*])))
    · exact foretells_wrongType _ c rest back
  · grind

theorem foretells_arrayEnd (front back : List Char) :
    Foretells back (arrayEnd.run front) (arrayEnd.run (front ++ back)) := by
  simp only [arrayEnd]
  have h := foretells_closing front back
  generalize closing front = x, closing (front ++ back) = y at h ⊢
  apply h.bind (by intro e; exact ⟨rfl, rfl⟩)
  · rintro rest -
    exact .read ((), rest)
  · grind

theorem foretells_element {closed : Bool} {r : Reader α} (hr : r.TakesValues)
    (hf : r.IsForetold closed) (absent : Except Fault α) {others : Bool → Reader β}
    (hothers : ∀ first {front back : List Char}, Uncut closed front back →
      Foretells back ((others first).run front) ((others first).run (front ++ back)))
    (hraw : ∀ first {cs : List Char} {vs : β} {rest : List Char},
      (others first).run cs = .ok (vs, rest) → RawItems first cs rest)
    (hnil : (others false).run [] = .error .truncated) (first : Bool) {front back : List Char}
    (hcut : Uncut closed front back) :
    Foretells back ((Reader.element r absent others first).run front)
      ((Reader.element r absent others first).run (front ++ back)) := by
  simp only [Reader.element]
  have h := foretells_nextItem first front back
  generalize hx : nextItem first front = x, hy : nextItem first (front ++ back) = y at h ⊢
  apply h.bind (by intro e; exact ⟨rfl, rfl⟩)
  · rintro (rest | rest) rfl
    · dsimp only [extend]
      cases absent with
      | error e => exact .fault e
      | ok v =>
        have h := hothers first hcut
        generalize (others first).run front = x, (others first).run (front ++ back) = y at h ⊢
        apply h.bind (by intro e; exact ⟨rfl, rfl⟩)
        · rintro ⟨vs, rest⟩ -
          exact .read ((v, vs), rest)
        · grind
    · have hcut := hcut.of_leads (separator_of_nextItem hx).leads
      dsimp only [extend]
      have h := hf hcut
      generalize hv : r.run rest = x, r.run (rest ++ back) = y at h ⊢
      apply h.bind (by intro e; exact ⟨rfl, rfl⟩)
      · rintro v after rfl
        dsimp only
        have h := hothers false (hcut.of_leads (hr hv).leads)
        generalize (others false).run after = x, (others false).run (after ++ back) = y at h ⊢
        apply h.bind (by intro e; exact ⟨rfl, rfl⟩)
        · rintro ⟨vs, rest⟩ -
          exact .read ((v, vs), rest)
        · grind
      · intro v
        dsimp only
        rw [hnil]
      · grind [→ Reader.shrinks]
  · rintro (rest | rest) r rfl h
    · -- the element is absent, and what is taken is the end of the array
      dsimp only at h
      split at h
      · simp at h
      split at h
      · simp at h
      rename_i hothersRead
      cases h
      exact Nat.le_of_eq (congrArg List.length (rest_eq_of_closed (hraw first hothersRead) hy))
    · grind [→ length_item, → Reader.shrinks]

end Reader

/-! ### Shapes -/

theorem Fields.elements_nil : (fs : Fields) → (title : String) → (size position : Nat) →
    (first : Bool) → (fs.elements title size position first).run [] = .error .truncated
  | .nil, _, _, _, _ => rfl
  | .field .., _, _, _, first => by
    cases first <;> rfl

mutual

/-- The reader of a shape says of a front what it says of the whole, where no number is cut or every
record is closed. -/
theorem Shape.isForetold : (s : Shape) → s.reader.IsForetold s.isClosed
  | .text => Reader.isForetold_of_foretells foretells_readText true
  | .flag => Reader.isForetold_of_foretells foretells_readFlag true
  | .nat32 => fun front back _ => foretells_readNat32 front back
  | .filter => Reader.isForetold_of_foretells foretells_readFilter true
  | .note => Reader.isForetold_of_foretells foretells_readNote true
  | .list item => fun _ _ hcut => .known (Reader.foretells_list item.takesValues item.isForetold hcut)
  | .record title closed fields => fun _ _ hcut => .known (fields.foretells_record title closed hcut)

/-- Behind a record stands no number. -/
theorem Fields.foretells_record : (fs : Fields) → (title : String) → (closed : Bool) →
    {front back : List Char} → Uncut (closed && fs.areClosed) front back →
    Foretells back ((Shape.record title closed fs).reader.run front)
      ((Shape.record title closed fs).reader.run (front ++ back))
  | fs, title, closed, front, back, hcut => by
    have hother := Reader.isForetold_strange closed fs.names
    have hclosed : (closed && fs.areClosed) = true → closed = true ∧ fs.areClosed = true := by simp
    have hmember := fs.isForetold_member (fun h => (hclosed h).2)
      fun name => (hother name).mono fun h => (hclosed h).1
    have htakes := fs.takesMembers (Reader.takesMembers_strange closed fs.names)
    simp only [Shape.reader, Reader.record]
    have h := foretells_next front back
    generalize hx : next front = x, next (front ++ back) = y at h ⊢
    apply h.bind (by intro e; exact ⟨rfl, rfl⟩)
    · rintro ⟨c, rest⟩ rfl
      dsimp only [extend_pair]
      split
      · have hcut := hcut.of_leads (leads_of_next hx (by simp [*]))
        exact fs.foretells_elements title fs.size 0 true (hcut.mono (by simp))
      split
      · have hcut := hcut.of_leads (leads_of_next hx (by simp [*]))
        have h := Reader.foretells_members htakes hmember true fs.noDraft hcut
        generalize Reader.members _ true fs.noDraft rest = x,
          Reader.members _ true fs.noDraft (rest ++ back) = y at h ⊢
        apply h.bind (by intro e; exact ⟨rfl, rfl⟩)
        · rintro ⟨draft, rest⟩ -
          dsimp only [extend_pair]
          split
          · exact .fault _
          · exact .read (_, rest)
        · grind
      · exact foretells_wrongType _ c rest back
    · grind [→ Reader.shrinks]

theorem Fields.foretells_elements : (fs : Fields) → (title : String) → (size position : Nat) →
    (first : Bool) → {front back : List Char} → Uncut fs.areClosed front back →
    Foretells back ((fs.elements title size position first).run front)
      ((fs.elements title size position first).run (front ++ back))
  | .nil, _, _, _, _, front, back, _ => Reader.foretells_arrayEnd front back
  | .field name required shape others, title, size, position, first, front, back, hcut => by
    have hshape : shape.reader.IsForetold (Fields.field name required shape others).areClosed :=
      shape.isForetold.mono (by simp +contextual [Fields.areClosed])
    refine Reader.foretells_element shape.takesValues hshape _ ?_ ?_ ?_ first hcut
    · intro first front back hcut
      exact others.foretells_elements title size _ first (hcut.mono (by simp [Fields.areClosed]))
    · intro first cs vs rest h
      exact others.rawItems_of_elements h
    · exact others.elements_nil title size _ false

theorem Fields.isForetold_member : (fs : Fields) → {closed : Bool} →
    (closed = true → fs.areClosed = true) → {other : String → Reader Unit} →
    (∀ name, (other name).IsForetold closed) → (name : String) → (draft : fs.Draft) →
    (fs.member other name draft).IsForetold closed
  | .nil, _, _, _, hother, name, _ => hother name
  | .field own required shape others, closed, hclosed, _, hother, name, draft => by
    simp only [Fields.areClosed, Bool.and_eq_true] at hclosed
    have hothers := others.isForetold_member (fun h => (hclosed h).2) hother
    exact (shape.isForetold.mono fun h => (hclosed h).1).member hothers own name draft

end

end PrimitiveAbi.Document
