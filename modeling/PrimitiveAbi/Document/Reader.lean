import PrimitiveAbi.Json.Skip

/-!
# Readers

A reader takes a value off the front of a text, or tells the first fault on the way; it always takes
at least one character. The readers here are those of lists and of the members of an object, given
a reader of their parts, so that the loops end with the text.
-/

namespace PrimitiveAbi.Document

open Json

/-- A reader of values: what it read and what follows, or the first fault. -/
structure Reader (α : Type) where
  run : List Char → Except Fault (α × List Char)
  shrinks : ∀ {cs : List Char} {v : α} {rest : List Char},
    run cs = .ok (v, rest) → rest.length < cs.length

namespace Reader

variable {α β : Type}

/-- Refuses every text. -/
def fail (fault : Fault) : Reader α where
  run _ := .error fault
  shrinks h := by simp at h

/-- Changes the values that are read. -/
def map (f : α → β) (r : Reader α) : Reader β where
  run cs :=
    match r.run cs with
    | .error e => .error e
    | .ok (v, rest) => .ok (f v, rest)
  shrinks h := by
    split at h
    · simp at h
    · rename_i hr
      simp only [Except.ok.injEq, Prod.mk.injEq] at h
      rw [← h.2]; exact r.shrinks hr

/-- Reads a value behind a colon. -/
def afterColon (r : Reader α) : Reader α where
  run cs :=
    match colon cs with
    | .error e => .error e
    | .ok rest => r.run rest
  shrinks h := by
    split at h
    · simp at h
    · rename_i hc
      have := length_colon hc
      have := r.shrinks h
      omega

/-- Reads past a value. -/
def skipped : Reader Unit where
  run cs :=
    match skip cs with
    | .error e => .error e
    | .ok rest => .ok ((), rest)
  shrinks h := by
    split at h
    · simp at h
    · rename_i hs
      simp only [Except.ok.injEq, Prod.mk.injEq] at h
      rw [← h.2]; exact length_skip hs

end Reader

/-! ### The parts of arrays and objects -/

/-- What stands where an element may come: the end of the array, or an element. -/
inductive NextItem where
  | closed (rest : List Char)
  | item (rest : List Char)

/-- The next element of an array, with the comma in front of it unless it is the first. -/
def nextItem (first : Bool) (cs : List Char) : Except Fault NextItem :=
  match next cs with
  | .error e => .error e
  | .ok (c, rest) =>
      if c = ']' then .ok (.closed rest)
      else if first then .ok (.item cs)
      else if c = ',' then
        match next rest with
        | .error e => .error e
        | .ok (d, _) => if d = ']' then .error .malformed else .ok (.item rest)
      else .error .malformed

theorem length_nextItem_item {first : Bool} {cs rest : List Char}
    (h : nextItem first cs = .ok (.item rest)) : rest.length ≤ cs.length := by
  unfold nextItem at h
  split at h
  · simp at h
  rename_i hn
  have := length_next hn
  split at h
  · simp at h
  split at h
  · simp_all
  split at h
  · split at h
    · simp at h
    split at h
    · simp at h
    · simp only [Except.ok.injEq, NextItem.item.injEq] at h
      rw [← h]; omega
  · simp at h

theorem length_nextItem_closed {first : Bool} {cs rest : List Char}
    (h : nextItem first cs = .ok (.closed rest)) : rest.length < cs.length := by
  unfold nextItem at h
  split at h
  · simp at h
  rename_i hn
  have := length_next hn
  split at h
  · simp only [Except.ok.injEq, NextItem.closed.injEq] at h
    rw [← h]; exact this
  split at h
  · simp at h
  split at h
  · split at h
    · simp at h
    split at h
    · simp at h
    · simp at h
  · simp at h

/-- What stands where a member may come: the end of the object, or a member by its name. -/
inductive NextMember where
  | closed (rest : List Char)
  | named (name : String) (rest : List Char)

/-- The name of a member, from behind its opening quote. -/
def memberName (cs : List Char) : Except Fault NextMember :=
  match readString cs with
  | .error e => .error e
  | .ok (name, rest) => .ok (.named (String.ofList name) rest)

/-- The next member of an object, with the comma in front of it unless it is the first. -/
def nextMember (first : Bool) (cs : List Char) : Except Fault NextMember :=
  match next cs with
  | .error e => .error e
  | .ok (c, rest) =>
      if c = '\x7d' then .ok (.closed rest)
      else if first then
        if c = '"' then memberName rest else .error .malformed
      else if c = ',' then
        match next rest with
        | .error e => .error e
        | .ok (d, rest) => if d = '"' then memberName rest else .error .malformed
      else .error .malformed

theorem length_memberName {cs rest : List Char} {name : String}
    (h : memberName cs = .ok (.named name rest)) : rest.length < cs.length := by
  unfold memberName at h
  split at h
  · simp at h
  rename_i hr
  simp only [Except.ok.injEq, NextMember.named.injEq] at h
  rw [← h.2]; exact length_readString hr

theorem memberName_ne_closed {cs rest : List Char} : memberName cs ≠ .ok (.closed rest) := by
  unfold memberName
  split <;> simp

theorem length_nextMember_named {first : Bool} {cs rest : List Char} {name : String}
    (h : nextMember first cs = .ok (.named name rest)) : rest.length < cs.length := by
  unfold nextMember at h
  split at h
  · simp at h
  rename_i hn
  have := length_next hn
  split at h
  · simp at h
  split at h
  · split at h
    · have := length_memberName h; omega
    · simp at h
  split at h
  · split at h
    · simp at h
    rename_i hn'
    have := length_next hn'
    split at h
    · have := length_memberName h; omega
    · simp at h
  · simp at h

theorem length_nextMember_closed {first : Bool} {cs rest : List Char}
    (h : nextMember first cs = .ok (.closed rest)) : rest.length < cs.length := by
  unfold nextMember at h
  split at h
  · simp at h
  rename_i hn
  have := length_next hn
  split at h
  · simp only [Except.ok.injEq, NextMember.closed.injEq] at h
    rw [← h]; exact this
  split at h
  · split at h
    · exact absurd h memberName_ne_closed
    · simp at h
  split at h
  · split at h
    · simp at h
    split at h
    · exact absurd h memberName_ne_closed
    · simp at h
  · simp at h

/-- The end of an array. -/
def closing (cs : List Char) : Except Fault (List Char) :=
  match next cs with
  | .error e => .error e
  | .ok (c, rest) => if c = ']' then .ok rest else .error .malformed

theorem length_closing {cs rest : List Char} (h : closing cs = .ok rest) :
    rest.length < cs.length := by
  unfold closing at h
  split at h
  · simp at h
  rename_i hn
  have := length_next hn
  split at h
  · simp only [Except.ok.injEq] at h
    rw [← h]; exact this
  · simp at h

namespace Reader

variable {α δ : Type}

/-- The elements of an array and its closing bracket. -/
def items (r : Reader α) (first : Bool) (cs : List Char) : Except Fault (List α × List Char) :=
  match h : nextItem first cs with
  | .error e => .error e
  | .ok (.closed rest) => .ok ([], rest)
  | .ok (.item rest) =>
      match hr : r.run rest with
      | .error e => .error e
      | .ok (v, after) =>
          have := length_nextItem_item h
          have := r.shrinks hr
          match r.items false after with
          | .error e => .error e
          | .ok (vs, rest) => .ok (v :: vs, rest)
termination_by cs.length

theorem length_items {r : Reader α} {first : Bool} {cs rest : List Char} {vs : List α}
    (h : r.items first cs = .ok (vs, rest)) : rest.length < cs.length := by
  rw [items] at h
  split at h
  · simp at h
  · rename_i hn
    simp only [Except.ok.injEq, Prod.mk.injEq] at h
    rw [← h.2]; exact length_nextItem_closed hn
  · rename_i hn
    have := length_nextItem_item hn
    split at h
    · simp at h
    rename_i hr
    have := r.shrinks hr
    split at h
    · simp at h
    rename_i hi
    simp only [Except.ok.injEq, Prod.mk.injEq] at h
    have := length_items hi
    rw [← h.2]; omega
termination_by cs.length

/-- The members of an object and its closing brace; `member` reads the value of a member into what
was read so far. -/
def members (member : String → δ → Reader δ) (first : Bool) (draft : δ) (cs : List Char) :
    Except Fault (δ × List Char) :=
  match h : nextMember first cs with
  | .error e => .error e
  | .ok (.closed rest) => .ok (draft, rest)
  | .ok (.named name rest) =>
      match hr : (member name draft).run rest with
      | .error e => .error e
      | .ok (draft, after) =>
          have := length_nextMember_named h
          have := (member name _).shrinks hr
          members member false draft after
termination_by cs.length

theorem length_members {member : String → δ → Reader δ} {first : Bool} {draft draft' : δ}
    {cs rest : List Char} (h : members member first draft cs = .ok (draft', rest)) :
    rest.length < cs.length := by
  rw [members] at h
  split at h
  · simp at h
  · rename_i hn
    simp only [Except.ok.injEq, Prod.mk.injEq] at h
    rw [← h.2]; exact length_nextMember_closed hn
  · rename_i hn
    have := length_nextMember_named hn
    split at h
    · simp at h
    rename_i hr
    have := (member _ _).shrinks hr
    have := length_members h
    omega
termination_by cs.length

end Reader

end PrimitiveAbi.Document
