import PrimitiveAbi.Proofs.Document.FrontShape
import PrimitiveAbi.Proofs.Json.Unique

/-!
# Members that a record does not have

Where a member may be added to an object of a document, and what the readers then make of the
document. A record that is open reads past the member and goes on as if it were not there. A record
that is closed refuses it by its name, whatever its value is.
-/

namespace PrimitiveAbi.Document

open Json

/-! ### Members -/

/-- The name of a member and its colon, with the comma in front of it unless it is the first. -/
def MemberHead (first : Bool) (name : String) (cs rest : List Char) : Prop :=
  ∃ cs₁ cs₂ cs₃, Separator first cs cs₁ ∧ Gap cs₁ ('"' :: cs₂) ∧ StringBody name.toList cs₂ cs₃ ∧
    Gap cs₃ (':' :: rest)

/-- A member of any value, with the comma in front of it unless it is the first. -/
def IsMember (first : Bool) (name : String) (cs rest : List Char) : Prop :=
  ∃ cs₁, MemberHead first name cs cs₁ ∧ Raw cs₁ rest

/-- A member is added to an object between what was read of the members and what follows. -/
inductive Addition (name : String) (added back : List Char) : Bool → List Char → Prop
  /-- Behind a member, with a comma in front of it. -/
  | behind {front rest after : List Char} {c : Char} : Gap front [] →
      IsMember false name added rest → Gap rest [] → Gap back (c :: after) → c = ',' ∨ c = '\x7d' →
      Addition name added back false front
  /-- In front of a member, with a comma behind it. -/
  | before {first : Bool} {front gap rest tail after : List Char} : Separator first front gap →
      Gap gap [] → IsMember true name added rest → Gap rest (',' :: tail) → Gap tail [] →
      Gap back ('"' :: after) → Addition name added back first front
  /-- Into an object without members. -/
  | alone {front rest after : List Char} : Gap front [] → IsMember true name added rest →
      Gap rest [] → Gap back ('\x7d' :: after) → Addition name added back true front

theorem MemberHead.append {first : Bool} {name : String} {cs rest : List Char}
    (h : MemberHead first name cs rest) (s : List Char) :
    MemberHead first name (cs ++ s) (rest ++ s) := by
  obtain ⟨cs₁, cs₂, cs₃, hs, hq, hname, hcolon⟩ := h
  exact ⟨_, _, _, hs.append s, hq.append s, hname.append s, hcolon.append s⟩

theorem IsMember.append {first : Bool} {name : String} {cs rest : List Char}
    (h : IsMember first name cs rest) (s : List Char) :
    IsMember first name (cs ++ s) (rest ++ s) := by
  obtain ⟨cs₁, hhead, hv⟩ := h
  exact ⟨_, hhead.append s, hv.append s⟩

/-- A member stays one behind white space. -/
theorem IsMember.of_gap {first : Bool} {name : String} {cs cs' rest : List Char}
    (h : IsMember first name cs' rest) (hg : Gap cs cs') : IsMember first name cs rest := by
  obtain ⟨cs₁, ⟨cs₂, cs₃, cs₄, hs, hq, hname, hcolon⟩, hv⟩ := h
  cases hs with
  | first => exact ⟨_, ⟨_, _, _, .first, hg.trans hq, hname, hcolon⟩, hv⟩
  | comma hg' => exact ⟨_, ⟨_, _, _, .comma (hg.trans hg'), hq, hname, hcolon⟩, hv⟩

/-- A member is the next one behind a comma. -/
theorem IsMember.of_separator {first : Bool} {name : String} {cs cs' rest : List Char}
    (h : IsMember true name cs' rest) (hs : Separator first cs cs') :
    IsMember first name cs rest := by
  obtain ⟨cs₁, ⟨cs₂, cs₃, cs₄, hs', hq, hname, hcolon⟩, hv⟩ := h
  cases hs'
  exact ⟨_, ⟨_, _, _, hs, hq, hname, hcolon⟩, hv⟩

theorem MemberHead.numberEnds {name : String} {cs rest : List Char}
    (h : MemberHead false name cs rest) : NumberEnds cs := by
  obtain ⟨_, _, _, hs, -⟩ := h
  exact hs.numberEnds

theorem MemberHead.nextMember {first : Bool} {name : String} {cs rest : List Char}
    (h : MemberHead first name cs rest) :
    ∃ cs₁, nextMember first cs = .ok (.named name cs₁) ∧ Gap cs₁ (':' :: rest) := by
  obtain ⟨_, _, cs₁, hs, hq, hname, hcolon⟩ := h
  exact ⟨cs₁, nextMember_of_separator hs hq hname, hcolon⟩

theorem nextMember_of_gap {cs cs' : List Char} (first : Bool) (h : Gap cs cs') :
    nextMember first cs = nextMember first cs' := by
  unfold nextMember next
  rw [h.skipBlank_eq]

/-- Where a quote stands behind a separator, what comes next is the member of that name. -/
theorem nextMember_of_quote {first : Bool} {cs cs₁ after : List Char} (hs : Separator first cs cs₁)
    (hq : Gap cs₁ ('"' :: after)) : nextMember first cs = memberName after := by
  unfold nextMember
  cases hs with
  | first =>
    rw [next_eq_ok_iff.2 ⟨hq, rfl⟩]
    rfl
  | comma hg =>
    rw [next_eq_ok_iff.2 ⟨hg, rfl⟩]
    simp only [Char.reduceEq, ↓reduceIte, Bool.false_eq_true]
    rw [next_eq_ok_iff.2 ⟨hq, rfl⟩]
    rfl

variable {name : String} {added back : List Char}

/-- The member that is added comes next, and what comes next behind it is what came next before. -/
theorem Addition.next {first : Bool} {front : List Char} (h : Addition name added back first front) :
    ∃ rest, IsMember first name (front ++ (added ++ back)) rest ∧ NumberEnds rest ∧
      nextMember false rest = nextMember first (front ++ back) := by
  cases h with
  | @behind _ rest after c hfront hmember hrest hback hc =>
    have hfront (s : List Char) : Gap (front ++ s) s := hfront.append s
    have hrest : Gap (rest ++ back) back := hrest.append back
    refine ⟨rest ++ back, (hmember.append back).of_gap (hfront _), ?_, ?_⟩
    · refine (hrest.trans hback).numberEnds (numberEnds_cons ?_)
      rcases hc with rfl | rfl <;> rfl
    · rw [nextMember_of_gap false hrest, nextMember_of_gap false (hfront back)]
  | @before _ _ gap rest tail after hfront hgap hmember hrest htail hback =>
    have hgap (s : List Char) : Gap (gap ++ s) s := hgap.append s
    have hrest : Gap (rest ++ back) (',' :: (tail ++ back)) := hrest.append back
    have htail : Gap (tail ++ back) back := htail.append back
    refine ⟨rest ++ back, ?_, hrest.numberEnds (numberEnds_cons (by decide)), ?_⟩
    · exact ((hmember.append back).of_gap (hgap _)).of_separator (hfront.append _)
    · rw [nextMember_of_quote (.comma hrest) (htail.trans hback),
        nextMember_of_quote (hfront.append back) ((hgap back).trans hback)]
  | @alone _ rest after hfront hmember hrest hback =>
    have hfront (s : List Char) : Gap (front ++ s) s := hfront.append s
    have hrest : Gap (rest ++ back) ('\x7d' :: after) := (hrest.append back).trans hback
    refine ⟨rest ++ back, (hmember.append back).of_gap (hfront _), ?_, ?_⟩
    · exact hrest.numberEnds (numberEnds_cons (by decide))
    · rw [nextMember_eq_closed_iff.2 hrest, nextMember_eq_closed_iff.2 ((hfront back).trans hback)]

/-- A number in front of the place ends there, with the member and without. -/
theorem Addition.numberEnds {front : List Char} (h : Addition name added back false front) :
    NumberEnds (front ++ back) ∧ NumberEnds (front ++ (added ++ back)) := by
  have hadded : NumberEnds (front ++ (added ++ back)) := by
    obtain ⟨rest, ⟨_, hhead, -⟩, -⟩ := h.next
    exact hhead.numberEnds
  refine ⟨?_, hadded⟩
  cases h with
  | behind hfront _ _ hback hc =>
    refine ((hfront.append back).trans hback).numberEnds (numberEnds_cons ?_)
    rcases hc with rfl | rfl <;> rfl
  | before hfront => exact (hfront.append back).numberEnds

/-! ### Places in documents -/

/-- The shape of the field of a name. -/
def Fields.Has (own : String) (shape : Shape) : Fields → Prop
  | .nil => False
  | .field name _ s others => if own = name then shape = s else others.Has own shape

section

variable (name : String) (added back : List Char) (closed : Bool)

mutual

/-- The front of a value ends in an object of a record in it, where a member may be added that the
record does not have. -/
inductive ValueSpot : Shape → List Char → Prop
  | list {item : Shape} {front cs : List Char} : Gap front ('[' :: cs) → ItemsSpot item true cs →
      ValueSpot (.list item) front
  | array {title : String} {c : Bool} {fs : Fields} {front cs : List Char} : Gap front ('[' :: cs) →
      ElementsSpot fs true cs → ValueSpot (.record title c fs) front
  | object {title : String} {c : Bool} {fs : Fields} {front cs : List Char} :
      Gap front ('\x7b' :: cs) → MembersSpot c fs true cs → ValueSpot (.record title c fs) front

/-- The same for the elements of a list, from the first or a later one on. -/
inductive ItemsSpot : Shape → Bool → List Char → Prop
  | inside {item : Shape} {first : Bool} {front cs : List Char} : Separator first front cs →
      ValueSpot item cs → ItemsSpot item first front
  | behind {item : Shape} {first : Bool} {front cs rest : List Char} : Separator first front cs →
      Raw cs rest → ItemsSpot item false rest → ItemsSpot item first front

/-- The same for the elements of a record that is written as an array. -/
inductive ElementsSpot : Fields → Bool → List Char → Prop
  | inside {own : String} {required : Bool} {shape : Shape} {others : Fields} {first : Bool}
      {front cs : List Char} : Separator first front cs → ValueSpot shape cs →
      ElementsSpot (.field own required shape others) first front
  | behind {own : String} {required : Bool} {shape : Shape} {others : Fields} {first : Bool}
      {front cs rest : List Char} : Separator first front cs → Raw cs rest →
      ElementsSpot others false rest → ElementsSpot (.field own required shape others) first front

/-- The same for the members of a record that is written as an object. Of the record whose object it
is the place says whether it is closed. -/
inductive MembersSpot : Bool → Fields → Bool → List Char → Prop
  | here {fs : Fields} {first : Bool} {front : List Char} : name ∉ fs.names →
      Addition name added back first front → MembersSpot closed fs first front
  | inside {c : Bool} {fs : Fields} {own : String} {shape : Shape} {first : Bool}
      {front cs : List Char} : MemberHead first own front cs → fs.Has own shape →
      ValueSpot shape cs → MembersSpot c fs first front
  | behind {c : Bool} {fs : Fields} {other : String} {first : Bool} {front rest : List Char} :
      IsMember first other front rest → MembersSpot c fs false rest → MembersSpot c fs first front

end

end

/-! ### Numbers in front of a place -/

section

variable {closed : Bool}

theorem ItemsSpot.numberEnds {item : Shape} {front : List Char}
    (h : ItemsSpot name added back closed item false front) (s : List Char) :
    NumberEnds (front ++ s) := by
  match h with
  | .inside hs _ => exact (hs.append s).numberEnds
  | .behind hs _ _ => exact (hs.append s).numberEnds

theorem ElementsSpot.numberEnds {fs : Fields} {front : List Char}
    (h : ElementsSpot name added back closed fs false front) (s : List Char) :
    NumberEnds (front ++ s) := by
  match h with
  | .inside hs _ => exact (hs.append s).numberEnds
  | .behind hs _ _ => exact (hs.append s).numberEnds

theorem MembersSpot.numberEnds {c : Bool} {fs : Fields} {front : List Char}
    (h : MembersSpot name added back closed c fs false front) :
    NumberEnds (front ++ back) ∧ NumberEnds (front ++ (added ++ back)) := by
  match h with
  | .here _ hadd => exact hadd.numberEnds
  | .inside hhead _ _ => exact ⟨(hhead.append _).numberEnds, (hhead.append _).numberEnds⟩
  | .behind ⟨_, hhead, _⟩ _ => exact ⟨(hhead.append _).numberEnds, (hhead.append _).numberEnds⟩

/-- A value that a place is in is an array or an object. -/
theorem ValueSpot.gap {s : Shape} {front : List Char} (h : ValueSpot name added back closed s front) :
    ∃ c cs, Gap front (c :: cs) ∧ isBlank c = false ∧ c ≠ ']' := by
  match h with
  | .list hg _ => exact ⟨'[', _, hg, rfl, by decide⟩
  | .array hg _ => exact ⟨'[', _, hg, rfl, by decide⟩
  | .object hg _ => exact ⟨'\x7b', _, hg, rfl, by decide⟩

theorem ValueSpot.nextItem {s : Shape} {first : Bool} {front cs : List Char}
    (h : ValueSpot name added back closed s cs) (hs : Separator first front cs) (t : List Char) :
    nextItem first (front ++ t) = .ok (.item (cs ++ t)) := by
  obtain ⟨c, tail, hg, hblank, hc⟩ := h.gap
  exact nextItem_of_next (hs.append t) (next_eq_ok_iff.2 ⟨hg.append t, hblank⟩) hc

end

/-! ### What the readers make of it -/

/-- What a reader makes of a text, and of the text with the member: the same if the record that it is
added to is open, and a fault that names it if that record is closed. -/
inductive Altered (name : String) {ρ : Type} : Bool → Except Fault ρ → Except Fault ρ → Prop
  | same {x : Except Fault ρ} : Altered name false x x
  | refused {x : Except Fault ρ} (known : List String) :
      Altered name true x (.error (.mismatch (.unknownField name known)))
  | fault {closed : Bool} {y : Except Fault ρ} (e : Fault) : Altered name closed (.error e) y

section

variable {ρ σ α : Type} {closed : Bool}

theorem Altered.bind {x y : Except Fault ρ} {f : Except Fault ρ → Except Fault σ}
    (h : Altered name closed x y) (hf : ∀ e, f (.error e) = .error e) :
    Altered name closed (f x) (f y) := by
  cases h with
  | same => exact .same
  | refused known =>
    rw [hf (.mismatch _)]
    exact .refused known
  | fault e =>
    rw [hf e]
    exact .fault e

/-- A value in front of the place is taken with the member and without, or the text without it is
refused there. -/
inductive Passes (b b' : List Char) :
    Except Fault (α × List Char) → Except Fault (α × List Char) → Prop
  | taken (v : α) : Passes b b' (.ok (v, b)) (.ok (v, b'))
  | fault {y : Except Fault (α × List Char)} (e : Fault) : Passes b b' (.error e) y
  /-- A number is left before it ends. -/
  | astray {v : α} {rest : List Char} {y : Except Fault (α × List Char)} : ¬ NumberEnds rest →
      Passes b b' (.ok (v, rest)) y

theorem Passes.bind {b b' : List Char} {x y : Except Fault (α × List Char)}
    {f : Except Fault (α × List Char) → Except Fault σ} (h : Passes b b' x y)
    (hf : ∀ e, f (.error e) = .error e)
    (hok : ∀ v, Altered name closed (f (.ok (v, b))) (f (.ok (v, b'))))
    (hastray : ∀ v rest, ¬ NumberEnds rest → f (.ok (v, rest)) = .error .malformed) :
    Altered name closed (f x) (f y) := by
  cases h with
  | taken v => exact hok v
  | fault e =>
    rw [hf e]
    exact .fault e
  | @astray v rest _ h =>
    rw [hastray v rest h]
    exact .fault _

end

/-! ### Values in front of a place -/

/-- What could go on with a number is no comma and no closing bracket. -/
theorem next_of_not_numberEnds {cs : List Char} (h : ¬ NumberEnds cs) :
    ∃ c tail, next cs = .ok (c, tail) ∧ c ≠ ',' ∧ c ≠ ']' ∧ c ≠ '\x7d' := by
  cases cs with
  | nil => exact absurd numberEnds_nil h
  | cons c tail =>
    have hc : inNumber c = true := by
      by_contra hc
      exact h (numberEnds_cons (Bool.not_eq_true _ ▸ hc))
    have hne : ∀ d, inNumber d = false → c ≠ d := by
      rintro d hd rfl
      rw [hc] at hd
      cases hd
    refine ⟨c, tail, next_eq_ok_iff.2 ⟨.nil, ?_⟩, hne _ rfl, hne _ rfl, hne _ rfl⟩
    simp only [isBlank, Bool.or_eq_false_iff, decide_eq_false_iff_not]
    exact ⟨⟨⟨hne _ rfl, hne _ rfl⟩, hne _ rfl⟩, hne _ rfl⟩

theorem nextItem_of_not_numberEnds {cs : List Char} (h : ¬ NumberEnds cs) :
    nextItem false cs = .error .malformed := by
  obtain ⟨c, tail, hn, hcomma, hclose, -⟩ := next_of_not_numberEnds h
  unfold nextItem
  simp [hn, hcomma, hclose]

theorem nextMember_of_not_numberEnds {cs : List Char} (h : ¬ NumberEnds cs) :
    nextMember false cs = .error .malformed := by
  obtain ⟨c, tail, hn, hcomma, -, hclose⟩ := next_of_not_numberEnds h
  unfold nextMember
  simp [hn, hcomma, hclose]

theorem closing_of_not_numberEnds {cs : List Char} (h : ¬ NumberEnds cs) :
    closing cs = .error .malformed := by
  obtain ⟨c, tail, hn, -, hclose, -⟩ := next_of_not_numberEnds h
  unfold closing
  simp [hn, hclose]

namespace Reader

variable {α β δ : Type}

/-- A reader that takes what stands in front of a place takes the same with other text behind it. -/
theorem IsForetold.passes {closed : Bool} {r : Reader α} (hf : r.IsForetold closed)
    {token b b' : List Char} (hb : NumberEnds b) (hb' : NumberEnds b')
    (hrest : ∀ {v : α} {rest : List Char}, r.run (token ++ b) = .ok (v, rest) →
      NumberEnds rest → rest = b) :
    Passes b b' (r.run (token ++ b)) (r.run (token ++ b')) := by
  have foretold (s : List Char) (hs : NumberEnds s) :
      Foretells s (r.run token) (r.run (token ++ s)) :=
    (hf (.inr (not_insideNumber_of_numberEnds hs))).of_numberEnds hs
  cases hread : r.run (token ++ b) with
  | error e => exact .fault e
  | ok result =>
    obtain ⟨v, rest⟩ := result
    by_cases hends : NumberEnds rest
    · obtain rfl := hrest hread hends
      -- nothing of the token is left, so it is read without what follows
      have hfront := foretold rest hb
      rw [hread] at hfront
      have hwhole := foretold b' hb'
      rw [hfront.front_eq_ok hb] at hwhole
      rw [hwhole.whole_eq_ok hb']
      exact .taken v
    · exact .astray hends

/-- A value that is taken ends where it ends in front of the place. -/
theorem TakesValues.passes {closed : Bool} {r : Reader α} (hr : r.TakesValues)
    (hf : r.IsForetold closed) {cs rest s s' : List Char} (h : Raw cs rest)
    (hs : NumberEnds (rest ++ s)) (hs' : NumberEnds (rest ++ s')) :
    Passes (rest ++ s) (rest ++ s') (r.run (cs ++ s)) (r.run (cs ++ s')) := by
  have hraw := h.append s
  obtain ⟨token, rfl, -⟩ := h.leads
  rw [List.append_assoc] at hraw ⊢
  rw [List.append_assoc]
  exact hf.passes hs hs' fun hread hends => (hr hread).unique hraw hends hs

theorem TakesMembers.passes {closed : Bool} {r : Reader α} (hr : r.TakesMembers)
    (hf : r.IsForetold closed) {cs cs₁ rest s s' : List Char} (hcolon : Gap cs (':' :: cs₁))
    (h : Raw cs₁ rest) (hs : NumberEnds (rest ++ s)) (hs' : NumberEnds (rest ++ s')) :
    Passes (rest ++ s) (rest ++ s') (r.run (cs ++ s)) (r.run (cs ++ s')) := by
  have hcolon' := hcolon.append s
  have hraw := h.append s
  obtain ⟨token, rfl, -⟩ := (hcolon.leads_cons (by decide)).trans h.leads
  rw [List.append_assoc] at hcolon' ⊢
  rw [List.append_assoc]
  refine hf.passes hs hs' fun hread hends => ?_
  obtain ⟨cs₂, hcolon₂, hraw₂⟩ := hr hread
  obtain ⟨-, rfl⟩ := hcolon₂.unique hcolon' rfl rfl
  exact hraw₂.unique hraw hends hs

end Reader

/-! ### Records -/

theorem Fields.astray_elements : (fs : Fields) → (title : String) → (size position : Nat) →
    {cs : List Char} → ¬ NumberEnds cs →
    (fs.elements title size position false).run cs = .error .malformed
  | .nil, _, _, _, _, h => by
    simp only [Fields.elements, Reader.arrayEnd, closing_of_not_numberEnds h]
    rfl
  | .field .., _, _, _, _, h => by
    simp only [Fields.elements, Reader.element, nextItem_of_not_numberEnds h]
    rfl

/-- What a record makes of a member that it does not have is what it makes of strange members. -/
theorem Fields.member_run_of_not_mem (other : String → Reader Unit) : (fs : Fields) →
    {name : String} → name ∉ fs.names → (draft : fs.Draft) → (cs : List Char) →
    (fs.member other name draft).run cs = ((other name).map fun _ => draft).run cs
  | .nil, name, _, draft, cs => by
    simp only [Fields.member, Reader.map]
    split <;> assumption
  | .field own _ shape others, name, h, draft, cs => by
    simp only [Fields.names, List.mem_cons, not_or] at h
    have ih := others.member_run_of_not_mem other h.2 draft.2 cs
    simp only [Fields.member, Reader.member, h.1, ↓reduceIte, Reader.map] at ih ⊢
    rw [ih]
    cases (other name).run cs <;> rfl

theorem Fields.altered_member (other : String → Reader Unit) {closed : Bool} {own : String}
    {shape : Shape} {cs cs₁ s s' : List Char} (hcolon : Gap cs (':' :: cs₁))
    (h : Altered name closed (shape.reader.run (cs₁ ++ s)) (shape.reader.run (cs₁ ++ s'))) :
    (fs : Fields) → fs.Has own shape → (draft : fs.Draft) →
    Altered name closed ((fs.member other own draft).run (cs ++ s))
      ((fs.member other own draft).run (cs ++ s'))
  | .field own' _ shape' others, hhas, draft => by
    simp only [Fields.Has] at hhas
    simp only [Fields.member, Reader.member]
    split at hhas
    · subst hhas
      rw [if_pos ‹_›]
      split
      · exact .fault _
      · simp only [Reader.map, Reader.afterColon, colon_eq_ok_iff.2 (hcolon.append _)]
        generalize shape.reader.run (cs₁ ++ s) = x, shape.reader.run (cs₁ ++ s') = y at h ⊢
        apply h.bind (by intro e; rfl)
    · rw [if_neg ‹_›]
      have h := others.altered_member other hcolon h hhas draft.2
      simp only [Reader.map]
      generalize (others.member other own draft.2).run (cs ++ s) = x,
        (others.member other own draft.2).run (cs ++ s') = y at h ⊢
      apply h.bind (by intro e; rfl)

/-- Where the member is added it is taken or refused. -/
theorem altered_here {closed : Bool} {fs : Fields} {first : Bool} {front : List Char}
    (hname : name ∉ fs.names) (hadd : Addition name added back first front) (draft : fs.Draft) :
    Altered name closed
      (Reader.members (fs.member (strange closed fs.names)) first draft (front ++ back))
      (Reader.members (fs.member (strange closed fs.names)) first draft
        (front ++ (added ++ back))) := by
  obtain ⟨rest, ⟨cs₁, hhead, hraw⟩, hends, hsame⟩ := hadd.next
  obtain ⟨cs, hnext, hcolon⟩ := hhead.nextMember
  rw [Reader.members_eq _ first draft (front ++ (added ++ back)), hnext]
  dsimp only
  rw [fs.member_run_of_not_mem _ hname draft cs]
  cases closed with
  | true => exact .refused fs.names
  | false =>
    simp only [strange, Bool.false_eq_true, ↓reduceIte, Reader.map, Reader.afterColon,
      Reader.skipped, colon_eq_ok_iff.2 hcolon, hraw.skip_eq hends]
    rw [Reader.members_eq _ false draft rest, hsame, ← Reader.members_eq]
    exact .same

mutual

/-- What a reader makes of a value with the member is the same, or a fault that names the member. -/
theorem ValueSpot.altered {closed : Bool} {s : Shape} {front : List Char}
    (h : ValueSpot name added back closed s front) :
    Altered name closed (s.reader.run (front ++ back)) (s.reader.run (front ++ (added ++ back))) := by
  match h with
  | .list hg hitems =>
    simp only [Shape.reader, Reader.list, next_eq_ok_iff.2 ⟨hg.append _, rfl⟩, ↓reduceIte]
    exact hitems.altered
  | .array hg helements =>
    simp only [Shape.reader, Reader.record, next_eq_ok_iff.2 ⟨hg.append _, rfl⟩, ↓reduceIte]
    exact helements.altered _ _ _
  | .object hg hmembers =>
    rename_i c fs cs
    simp only [Shape.reader, Reader.record, next_eq_ok_iff.2 ⟨hg.append _, rfl⟩]
    have h := hmembers.altered fs.noDraft
    generalize Reader.members _ true fs.noDraft (cs ++ back) = x,
      Reader.members _ true fs.noDraft (cs ++ (added ++ back)) = y at h ⊢
    apply h.bind (by intro e; rfl)

theorem ItemsSpot.altered {closed : Bool} {item : Shape} {first : Bool} {front : List Char}
    (h : ItemsSpot name added back closed item first front) :
    Altered name closed (item.reader.items first (front ++ back))
      (item.reader.items first (front ++ (added ++ back))) := by
  rw [Reader.items_eq, Reader.items_eq]
  match h with
  | .inside hs hvalue =>
    rename_i cs
    simp only [hvalue.nextItem hs]
    have h := hvalue.altered
    generalize item.reader.run (cs ++ back) = x, item.reader.run (cs ++ (added ++ back)) = y at h ⊢
    apply h.bind (by intro e; rfl)
  | .behind hs hraw hitems =>
    rename_i cs rest
    simp only [nextItem_of_raw (hs.append _) (hraw.append _)]
    have h := item.takesValues.passes item.isForetold hraw (hitems.numberEnds back)
      (hitems.numberEnds (added ++ back))
    generalize item.reader.run (cs ++ back) = x, item.reader.run (cs ++ (added ++ back)) = y at h ⊢
    apply h.bind (by intro e; rfl)
    · intro v
      dsimp only
      have h := hitems.altered
      generalize item.reader.items false (rest ++ back) = x,
        item.reader.items false (rest ++ (added ++ back)) = y at h ⊢
      apply h.bind (by intro e; rfl)
    · intro v rest hends
      dsimp only
      rw [Reader.items_eq, nextItem_of_not_numberEnds hends]

theorem ElementsSpot.altered {closed : Bool} {fs : Fields} {first : Bool} {front : List Char}
    (h : ElementsSpot name added back closed fs first front) (title : String)
    (size position : Nat) :
    Altered name closed ((fs.elements title size position first).run (front ++ back))
      ((fs.elements title size position first).run (front ++ (added ++ back))) := by
  match h with
  | .inside hs hvalue =>
    rename_i shape others cs
    simp only [Fields.elements, Reader.element, hvalue.nextItem hs]
    have h := hvalue.altered
    generalize shape.reader.run (cs ++ back) = x, shape.reader.run (cs ++ (added ++ back)) = y at h ⊢
    apply h.bind (by intro e; rfl)
  | .behind hs hraw helements =>
    rename_i shape others cs rest
    simp only [Fields.elements, Reader.element, nextItem_of_raw (hs.append _) (hraw.append _)]
    have h := shape.takesValues.passes shape.isForetold hraw (helements.numberEnds back)
      (helements.numberEnds (added ++ back))
    generalize shape.reader.run (cs ++ back) = x, shape.reader.run (cs ++ (added ++ back)) = y at h ⊢
    apply h.bind (by intro e; rfl)
    · intro v
      dsimp only
      have h := helements.altered title size (position + 1)
      generalize (others.elements title size (position + 1) false).run (rest ++ back) = x,
        (others.elements title size (position + 1) false).run (rest ++ (added ++ back)) = y at h ⊢
      apply h.bind (by intro e; rfl)
    · intro v rest hends
      dsimp only
      rw [others.astray_elements title size (position + 1) hends]
      rfl

theorem MembersSpot.altered {closed c : Bool} {fs : Fields} {first : Bool} {front : List Char}
    (h : MembersSpot name added back closed c fs first front) (draft : fs.Draft) :
    Altered name closed
      (Reader.members (fs.member (strange c fs.names)) first draft (front ++ back))
      (Reader.members (fs.member (strange c fs.names)) first draft
        (front ++ (added ++ back))) := by
  match h with
  | .here hname hadd => exact altered_here hname hadd draft
  | .inside hhead hhas hvalue =>
    rename_i own shape _
    obtain ⟨_, _, cs, hs, hq, hkey, hcolon⟩ := hhead
    rw [Reader.members_eq, Reader.members_eq _ first draft (front ++ (added ++ back))]
    simp only [nextMember_of_separator (hs.append _) (hq.append _) (hkey.append _)]
    have h := fs.altered_member (strange c fs.names) hcolon hvalue.altered hhas draft
    generalize (fs.member (strange c fs.names) own draft).run (cs ++ back) = x,
      (fs.member (strange c fs.names) own draft).run (cs ++ (added ++ back)) = y at h ⊢
    apply h.bind (by intro e; rfl)
  | .behind hmember hmembers =>
    rename_i key rest
    obtain ⟨_, ⟨_, _, cs, hs, hq, hkey, hcolon⟩, hraw⟩ := hmember
    rw [Reader.members_eq, Reader.members_eq _ first draft (front ++ (added ++ back))]
    simp only [nextMember_of_separator (hs.append _) (hq.append _) (hkey.append _)]
    have htakes := fs.takesMembers (Reader.takesMembers_strange c fs.names)
    have hother (name : String) : (strange c fs.names name).IsForetold false :=
      (Reader.isForetold_strange c fs.names name).mono (by simp)
    have hforetold := fs.isForetold_member (by simp) hother
    have h := (htakes key draft).passes (hforetold key draft) hcolon hraw hmembers.numberEnds.1
      hmembers.numberEnds.2
    generalize (fs.member (strange c fs.names) key draft).run (cs ++ back) = x,
      (fs.member (strange c fs.names) key draft).run (cs ++ (added ++ back)) = y at h ⊢
    apply h.bind (by intro e; rfl)
    · intro draft
      exact hmembers.altered draft
    · intro draft rest hends
      simp only [Reader.members_eq _ false draft rest, nextMember_of_not_numberEnds hends]

end

end PrimitiveAbi.Document
