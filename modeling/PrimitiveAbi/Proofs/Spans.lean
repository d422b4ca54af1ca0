import Mathlib.Data.List.DropRight

/-!
# Where a span of text ends

A span of characters of one class ends at the first character outside of it, so it is found again in
a text that goes on with such a character, and so is a part that a separator ends.
-/

namespace PrimitiveAbi.Text

section

variable {α : Type} {class? : α → Bool} {as bs : List α}

theorem takeWhile_append_stop (has : ∀ a ∈ as, class? a = true)
    (hbs : ∀ b ∈ bs.head?, class? b = false) :
    (as ++ bs).takeWhile class? = as ∧ (as ++ bs).dropWhile class? = bs := by
  rw [List.takeWhile_append_of_pos has, List.dropWhile_append_of_pos has]
  cases bs with
  | nil => exact ⟨List.append_nil as, rfl⟩
  | cons b bs =>
    have hb := hbs b rfl
    constructor <;> simp [hb]

/-- The same from the end. -/
theorem rtakeWhile_append_stop (has : ∀ a ∈ as.getLast?, class? a = false)
    (hbs : ∀ b ∈ bs, class? b = true) :
    (as ++ bs).rtakeWhile class? = bs ∧ (as ++ bs).rdropWhile class? = as := by
  have hspan : (bs.reverse ++ as.reverse).takeWhile class? = bs.reverse ∧
      (bs.reverse ++ as.reverse).dropWhile class? = as.reverse :=
    takeWhile_append_stop (by simpa using hbs) (by simpa using has)
  rw [List.rtakeWhile, List.rdropWhile, List.reverse_append, hspan.1, hspan.2,
    List.reverse_reverse, List.reverse_reverse]
  exact ⟨rfl, rfl⟩

/-- A text is cut in one way only into a span and a rest. -/
theorem append_inj_of_stop {as' bs' : List α} (has : ∀ a ∈ as, class? a = true)
    (has' : ∀ a ∈ as', class? a = true) (hbs : ∀ b ∈ bs.head?, class? b = false)
    (hbs' : ∀ b ∈ bs'.head?, class? b = false) (h : as ++ bs = as' ++ bs') :
    as = as' ∧ bs = bs' := by
  obtain ⟨hspan, hrest⟩ := takeWhile_append_stop has hbs
  obtain ⟨hspan', hrest'⟩ := takeWhile_append_stop has' hbs'
  rw [h] at hspan hrest
  exact ⟨hspan.symm.trans hspan', hrest.symm.trans hrest'⟩

theorem getLast?_intercalate {a : α} {sep : List α} {parts : List (List α)} (hne : parts ≠ [])
    (h : ∀ part ∈ parts, part.getLast? = some a) :
    (sep.intercalate parts).getLast? = some a := by
  induction parts with
  | nil => exact absurd rfl hne
  | cons part parts ih =>
    obtain ⟨hpart, hparts⟩ := List.forall_mem_cons.1 h
    cases parts with
    | nil => rwa [List.intercalate_singleton]
    | cons next parts =>
      rw [List.intercalate_cons_cons, List.getLast?_append, ih (List.cons_ne_nil _ _) hparts]
      rfl

end

/-! ### Parts between separators -/

theorem splitOn_append_cons {c : Char} {cs : List Char} (h : c ∉ cs) (rest : List Char) :
    (cs ++ c :: rest).splitOn c = cs :: rest.splitOn c := by
  have hcs : ∀ d ∈ cs, (d == c) = false := by
    intro d hd
    rw [beq_eq_false_iff_ne]
    exact fun heq => h (heq ▸ hd)
  exact List.splitOnP_append_cons_of_forall_mem hcs c (beq_self_eq_true c) rest

theorem splitOn_of_not_mem {c : Char} {cs : List Char} (h : c ∉ cs) : cs.splitOn c = [cs] := by
  have hsplit : ([c].intercalate [cs]).splitOn c = [cs] :=
    List.splitOn_intercalate c (by simpa using h) (List.cons_ne_nil _ _)
  rwa [List.intercalate_singleton] at hsplit

end PrimitiveAbi.Text
