import PrimitiveAbi.Proofs.Document.Extent
import PrimitiveAbi.Proofs.Json.FrontNumber

/-!
# What readers say of a front

The readers of values without parts, and of what stands in front of elements and members, say of the
front of a text what they say of the whole. Where a value of another type stands both say so. Of an
integer that ends with the front only the reader of what must follow can tell that the front ends too
early (`ForetellsValue`).
-/

namespace PrimitiveAbi.Document

open Json Leaves

attribute [grind →] length_readText length_readFlag length_readNat32 length_readUnit
  length_readNote length_filterName length_filterKey length_readFilter length_closing
  length_nextMember_named length_nextMember_closed length_nextItem_closed

/-! ### Values of another type -/

/-- What a word stands for, once it is read. -/
def standsFor (what : Found) : Except Fault (List Char) → Except Fault Found
  | .error e => .error e
  | .ok _ => .ok what

theorem standsFor_append {back : List Char} (hends : NumberEnds back) (word : List Char)
    (what : Found) (rest : List Char) :
    standsFor what (literal word rest) = .error .truncated ∨
      standsFor what (literal word (rest ++ back)) = standsFor what (literal word rest) :=
  (foretells_literal word rest back).eq_of_numberEnds hends (fun _ => rfl) fun _ => rfl

theorem found_append {back : List Char} (hends : NumberEnds back) (c : Char) (rest : List Char) :
    found c rest = .error .truncated ∨ found c (rest ++ back) = found c rest := by
  unfold found
  split
  · exact standsFor_append hends ['u', 'l', 'l'] .null rest
  split
  · exact standsFor_append hends ['r', 'u', 'e'] (.boolean true) rest
  split
  · exact standsFor_append hends ['a', 'l', 's', 'e'] (.boolean false) rest
  split
  · have h := foretells_readNumber hends c rest
    rw [List.cons_append] at h
    generalize readNumber (c :: rest) = x, readNumber (c :: (rest ++ back)) = y at h ⊢
    apply h.eq_of_numberEnds hends (by intro e; rfl)
    intro r
    rfl
  split
  · have h := foretells_readString rest back
    generalize readString rest = x, readString (rest ++ back) = y at h ⊢
    apply h.eq_of_numberEnds hends (by intro e; rfl)
    intro r
    rfl
  · exact .inr rfl

/-- A value of another type is a fault of the whole too; a back that goes on with a number changes
only which. -/
theorem foretells_wrongType {ρ : Type} [Leaves ρ] (expected : String) (c : Char)
    (rest back : List Char) : Foretells back (.error (wrongType expected c rest) : Except Fault ρ)
      (.error (wrongType expected c (rest ++ back))) := by
  by_cases hends : NumberEnds back
  · unfold wrongType
    rcases found_append hends c rest with h | h
    · rw [h]
      exact .early (by simp)
    · rw [h]
      exact .fault _
  · exact .cut hends

/-! ### Values without parts -/

theorem foretells_readText (front back : List Char) :
    Foretells back (readText front) (readText (front ++ back)) := by
  unfold readText
  have h := foretells_next front back
  generalize next front = x, next (front ++ back) = y at h ⊢
  apply h.bind (by intro e; exact ⟨rfl, rfl⟩)
  · rintro ⟨c, rest⟩ -
    dsimp only [extend_pair]
    split
    · have h := foretells_readString rest back
      generalize readString rest = x, readString (rest ++ back) = y at h ⊢
      apply h.bind (by intro e; exact ⟨rfl, rfl⟩)
      · rintro ⟨text, rest⟩ -
        exact .read (String.ofList text, rest)
      · grind
    · exact foretells_wrongType _ c rest back
  · grind

theorem foretells_readFlag (front back : List Char) :
    Foretells back (readFlag front) (readFlag (front ++ back)) := by
  unfold readFlag
  have h := foretells_next front back
  generalize next front = x, next (front ++ back) = y at h ⊢
  apply h.bind (by intro e; exact ⟨rfl, rfl⟩)
  · rintro ⟨c, rest⟩ -
    dsimp only [extend_pair]
    split
    · have h := foretells_literal ['r', 'u', 'e'] rest back
      generalize literal ['r', 'u', 'e'] rest = x, literal ['r', 'u', 'e'] (rest ++ back) = y at h ⊢
      apply h.bind (by intro e; exact ⟨rfl, rfl⟩)
      · intro rest _
        exact .read (true, rest)
      · grind
    split
    · have h := foretells_literal ['a', 'l', 's', 'e'] rest back
      generalize literal ['a', 'l', 's', 'e'] rest = x,
        literal ['a', 'l', 's', 'e'] (rest ++ back) = y at h ⊢
      apply h.bind (by intro e; exact ⟨rfl, rfl⟩)
      · intro rest _
        exact .read (false, rest)
      · grind
    · exact foretells_wrongType _ c rest back
  · grind

theorem foretells_readUnit (front back : List Char) :
    Foretells back (readUnit front) (readUnit (front ++ back)) := by
  unfold readUnit
  have h := foretells_next front back
  generalize next front = x, next (front ++ back) = y at h ⊢
  apply h.bind (by intro e; exact ⟨rfl, rfl⟩)
  · rintro ⟨c, rest⟩ -
    dsimp only [extend_pair]
    split
    · exact foretells_literal _ rest back
    · exact foretells_wrongType _ c rest back
  · grind

theorem foretells_readNote (front back : List Char) :
    Foretells back (readNote front) (readNote (front ++ back)) := by
  unfold readNote
  have h := foretells_next front back
  generalize next front = x, hy : next (front ++ back) = y at h ⊢
  apply h.bind (by intro e; exact ⟨rfl, rfl⟩)
  · rintro ⟨c, rest⟩ -
    dsimp only [extend_pair]
    split
    · have h := foretells_literal ['u', 'l', 'l'] rest back
      generalize literal ['u', 'l', 'l'] rest = x, literal ['u', 'l', 'l'] (rest ++ back) = y at h ⊢
      apply h.bind (by intro e; exact ⟨rfl, rfl⟩)
      · intro rest _
        exact .read (none, rest)
      · grind
    · have h := foretells_readText front back
      generalize readText front = x, readText (front ++ back) = y at h ⊢
      apply h.bind (by intro e; exact ⟨rfl, rfl⟩)
      · rintro ⟨text, rest⟩ -
        exact .read (some text, rest)
      · grind
  · rintro ⟨c, rest⟩ r hr hread
    subst hr
    dsimp only at hread
    split at hread
    · grind
    split at hread
    · simp at hread
    rename_i ht
    simp only [Except.ok.injEq] at hread
    subst hread
    exact (readText_eq_ok_iff.1 ht).raw.length_le hy

theorem foretells_filterName (front back : List Char) :
    Foretells back (filterName front) (filterName (front ++ back)) := by
  unfold filterName
  have h := foretells_readString front back
  generalize readString front = x, readString (front ++ back) = y at h ⊢
  apply h.bind (by intro e; exact ⟨rfl, rfl⟩)
  · rintro ⟨text, rest⟩ -
    dsimp only [extend_pair]
    split
    · exact .read (_, rest)
    · exact .fault _
  · grind

theorem foretells_filterKey (front back : List Char) :
    Foretells back (filterKey front) (filterKey (front ++ back)) := by
  unfold filterKey
  have h := foretells_next front back
  generalize next front = x, next (front ++ back) = y at h ⊢
  apply h.bind (by intro e; exact ⟨rfl, rfl⟩)
  · rintro ⟨c, rest⟩ -
    dsimp only [extend_pair]
    split
    · have h := foretells_filterName rest back
      generalize filterName rest = x, filterName (rest ++ back) = y at h ⊢
      apply h.bind (by intro e; exact ⟨rfl, rfl⟩)
      · rintro ⟨filter, rest⟩ -
        dsimp only [extend_pair]
        have h := foretells_colon rest back
        generalize colon rest = x, colon (rest ++ back) = y at h ⊢
        apply h.bind (by intro e; exact ⟨rfl, rfl⟩)
        · rintro rest -
          dsimp only [extend_list]
          have h := foretells_readUnit rest back
          generalize readUnit rest = x, readUnit (rest ++ back) = y at h ⊢
          apply h.bind (by intro e; exact ⟨rfl, rfl⟩)
          · rintro rest -
            dsimp only [extend_list]
            have h := foretells_next rest back
            generalize next rest = x, next (rest ++ back) = y at h ⊢
            apply h.bind (by intro e; exact ⟨rfl, rfl⟩)
            · rintro ⟨c, rest⟩ -
              dsimp only [extend_pair]
              split
              · exact .read (filter, rest)
              · exact .fault _
            · grind
          · grind
        · grind
      · grind
    · exact .fault _
  · grind

theorem foretells_readFilter (front back : List Char) :
    Foretells back (readFilter front) (readFilter (front ++ back)) := by
  unfold readFilter
  have h := foretells_next front back
  generalize next front = x, next (front ++ back) = y at h ⊢
  apply h.bind (by intro e; exact ⟨rfl, rfl⟩)
  · rintro ⟨c, rest⟩ -
    dsimp only [extend_pair]
    split
    · exact foretells_filterName rest back
    split
    · exact foretells_filterKey rest back
    · exact .fault _
  · grind

/-! ### Integers -/

/-- What reading a value from a front gives, and what reading it with a back behind it gives. -/
inductive ForetellsValue {α : Type} (back : List Char) :
    Except Fault (α × List Char) → Except Fault (α × List Char) → Prop
  | known {x y : Except Fault (α × List Char)} : Foretells back x y → ForetellsValue back x y
  /-- The front ends with a number, and the back goes on with it. -/
  | open {v : α} {y : Except Fault (α × List Char)} : ¬ NumberEnds back →
      (∀ r, y = .ok r → r.2.length ≤ back.length) → ForetellsValue back (.ok (v, [])) y

section

variable {α β ρ σ : Type} [Leaves ρ] [Leaves σ] {back : List Char}

theorem ForetellsValue.of_numberEnds {x y : Except Fault (α × List Char)}
    (h : ForetellsValue back x y) (hends : NumberEnds back) : Foretells back x y := by
  cases h with
  | known h => exact h
  | «open» h => exact absurd hends h

/-- What must follow a value shows that a front with an open number ends too early. -/
theorem ForetellsValue.bind {x y : Except Fault (α × List Char)}
    {f g : Except Fault (α × List Char) → Except Fault σ} (h : ForetellsValue back x y)
    (herror : ∀ e, f (.error e) = .error e ∧ g (.error e) = .error e)
    (hok : ∀ v rest, x = .ok (v, rest) →
      Foretells back (f (.ok (v, rest))) (g (.ok (v, rest ++ back))))
    (hend : ∀ v, f (.ok (v, [])) = .error .truncated)
    (hleft : ∀ v rest r, y = .ok (v, rest) → g (.ok (v, rest)) = .ok r →
      (left r).length < rest.length) : Foretells back (f x) (g y) := by
  have hg := fun e => (herror e).2
  cases h with
  | known h =>
    exact h.bind herror (fun r hr => hok r.1 r.2 hr)
      (fun r r' hr hr' => Nat.le_of_lt (hleft r.1 r.2 r' hr hr'))
  | @«open» v y _ h =>
    rw [hend]
    refine .early fun r' hr' => ?_
    cases y with
    | error e => simp [hg] at hr'
    | ok r => exact Nat.lt_of_lt_of_le (hleft r.1 r.2 r' rfl hr') (h r rfl)

/-- What is read in front of a value is foretold. -/
theorem ForetellsValue.behind {x y : Except Fault ρ}
    {f g : Except Fault ρ → Except Fault (α × List Char)} (h : Foretells back x y)
    (herror : ∀ e, f (.error e) = .error e ∧ g (.error e) = .error e)
    (hok : ∀ r, x = .ok r → ForetellsValue back (f (.ok r)) (g (.ok (extend r back))))
    (hleft : ∀ r r', y = .ok r → g (.ok r) = .ok r' → r'.2.length ≤ (left r).length) :
    ForetellsValue back (f x) (g y) := by
  have hf := fun e => (herror e).1
  have hg := fun e => (herror e).2
  cases h with
  | read r => exact hok r rfl
  | fault e =>
    rw [hf, hg]
    exact .known (.fault e)
  | early h =>
    rw [hf]
    refine .known (.early fun r' hr' => ?_)
    cases y with
    | error e => simp [hg] at hr'
    | ok r => exact Nat.lt_of_le_of_lt (hleft r r' rfl hr') (h r rfl)
  | cut h =>
    rw [hg]
    exact .known (.cut h)

end

theorem natural_of_nat32 {number : Number} {n : UInt32} (h : nat32 number = .ok n) :
    ∃ m < UInt32.size, number = .natural m := by
  unfold nat32 at h
  split at h
  · split at h
    · exact ⟨_, ‹_›, rfl⟩
    · simp at h
  · simp at h
  · simp at h

theorem foretells_readNat32 (front back : List Char) :
    ForetellsValue back (readNat32 front) (readNat32 (front ++ back)) := by
  unfold readNat32
  have h := foretells_next front back
  generalize next front = x, next (front ++ back) = y at h ⊢
  apply ForetellsValue.behind h (by intro e; exact ⟨rfl, rfl⟩)
  · rintro ⟨c, rest⟩ -
    dsimp only [extend_pair]
    split
    · rcases foretells_or_into_readNumber c rest back with h | ⟨hends, hlen⟩
      · rw [List.cons_append] at h
        generalize readNumber (c :: rest) = x, readNumber (c :: (rest ++ back)) = y at h ⊢
        refine .known ?_
        apply h.bind (by intro e; exact ⟨rfl, rfl⟩)
        · rintro ⟨number, rest⟩ -
          dsimp only [extend_pair]
          split
          · exact .fault _
          · exact .read (_, rest)
        · grind
      · rw [List.cons_append] at hlen
        cases hy : readNumber (c :: (rest ++ back)) with
        | error e => exact .known (.cut hends)
        | ok r =>
          obtain ⟨number, after⟩ := r
          dsimp only
          cases hn : nat32 number with
          | error e => exact .known (.cut hends)
          | ok n =>
            -- the digits of the front make an integer, of which more follow
            obtain ⟨n, hlt, rfl⟩ := natural_of_nat32 hn
            obtain ⟨m, hm, hread⟩ := readNumber_of_into hy (hlen _ _ hy) hlt
            simp only [hread, nat32, hm, ↓reduceIte]
            refine .open hends fun r hr => ?_
            cases hr
            exact Nat.le_of_lt (hlen _ _ hy)
    · exact .known (foretells_wrongType _ c rest back)
  · grind

/-! ### Parts -/

instance : Leaves NextItem where
  left
    | .closed rest => rest
    | .item rest => (skipBlank rest).tail
  extend
    | .closed rest, s => .closed (rest ++ s)
    | .item rest, s => .item (rest ++ s)

instance : Leaves NextMember where
  left
    | .closed rest => rest
    | .named _ rest => rest
  extend
    | .closed rest, s => .closed (rest ++ s)
    | .named name rest, s => .named name (rest ++ s)

@[grind =] theorem left_item (rest : List Char) : left (NextItem.item rest) = (skipBlank rest).tail :=
  rfl

@[grind =] theorem left_itemClosed (rest : List Char) : left (NextItem.closed rest) = rest := rfl

@[grind =] theorem left_named (name : String) (rest : List Char) :
    left (NextMember.named name rest) = rest := rfl

@[grind =] theorem left_memberClosed (rest : List Char) : left (NextMember.closed rest) = rest := rfl

@[grind →] theorem skipBlank_of_next {cs rest : List Char} {c : Char} (h : next cs = .ok (c, rest)) :
    skipBlank cs = c :: rest := by
  unfold next at h
  split at h
  · simp at h
  · rename_i hc
    cases h
    exact hc

theorem foretells_nextItem (first : Bool) (front back : List Char) :
    Foretells back (nextItem first front) (nextItem first (front ++ back)) := by
  unfold nextItem
  have h := foretells_next front back
  generalize next front = x, hy : next (front ++ back) = y at h ⊢
  apply h.bind (by intro e; exact ⟨rfl, rfl⟩)
  · rintro ⟨c, rest⟩ -
    dsimp only [extend_pair]
    split
    · exact .read (NextItem.closed rest)
    split
    · exact .read (NextItem.item front)
    split
    · have h := foretells_next rest back
      generalize next rest = x, hy : next (rest ++ back) = y at h ⊢
      apply h.bind (by intro e; exact ⟨rfl, rfl⟩)
      · rintro ⟨d, after⟩ -
        dsimp only [extend_pair]
        split
        · exact .fault _
        · exact .read (NextItem.item rest)
      · grind
    · exact .fault _
  · grind

@[grind →] theorem length_left_memberName {cs : List Char} {r : NextMember}
    (h : memberName cs = .ok r) : (left r).length < cs.length := by
  cases r with
  | closed rest => exact absurd h memberName_ne_closed
  | named name rest => exact length_memberName h

theorem foretells_memberName (front back : List Char) :
    Foretells back (memberName front) (memberName (front ++ back)) := by
  unfold memberName
  have h := foretells_readString front back
  generalize readString front = x, readString (front ++ back) = y at h ⊢
  apply h.bind (by intro e; exact ⟨rfl, rfl⟩)
  · rintro ⟨name, rest⟩ -
    exact .read (NextMember.named (String.ofList name) rest)
  · grind

theorem foretells_nextMember (first : Bool) (front back : List Char) :
    Foretells back (nextMember first front) (nextMember first (front ++ back)) := by
  unfold nextMember
  have h := foretells_next front back
  generalize next front = x, next (front ++ back) = y at h ⊢
  apply h.bind (by intro e; exact ⟨rfl, rfl⟩)
  · rintro ⟨c, rest⟩ -
    dsimp only [extend_pair]
    split
    · exact .read (NextMember.closed rest)
    split
    · split
      · exact foretells_memberName rest back
      · exact .fault _
    split
    · have h := foretells_next rest back
      generalize next rest = x, next (rest ++ back) = y at h ⊢
      apply h.bind (by intro e; exact ⟨rfl, rfl⟩)
      · rintro ⟨d, rest⟩ -
        dsimp only [extend_pair]
        split
        · exact foretells_memberName rest back
        · exact .fault _
      · grind
    · exact .fault _
  · grind

theorem foretells_closing (front back : List Char) :
    Foretells back (closing front) (closing (front ++ back)) := by
  unfold closing
  have h := foretells_next front back
  generalize next front = x, next (front ++ back) = y at h ⊢
  apply h.bind (by intro e; exact ⟨rfl, rfl⟩)
  · rintro ⟨c, rest⟩ -
    dsimp only [extend_pair]
    split
    · exact .read rest
    · exact .fault _
  · grind

end PrimitiveAbi.Document
