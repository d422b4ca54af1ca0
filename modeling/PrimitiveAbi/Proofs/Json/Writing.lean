import Mathlib.Tactic.SplitIfs
import PrimitiveAbi.Json.Value
import PrimitiveAbi.Proofs.Json.Scanner

/-!
# What is written is a spelling

Both texts of a value, the one without white space and the one in lines, are spellings of the same
tree. The text in lines is taken apart like the other one; its line feeds and indentation are white
space in front of the next token. The text without white space has no control characters, so it is
one line (`hasNoControl_compact`).
-/

namespace PrimitiveAbi.Json

/-! ### The tree of a value -/

mutual

/-- The tree that a value is written as. -/
def Value.tree : Value → Tree
  | .null => .null
  | .boolean b => .boolean b
  | .natural n => .number (Nat.toDigits 10 n)
  | .text s => .text s
  | .array items => .array (itemTrees items)
  | .object members => .object (memberTrees members)

def itemTrees : List Value → List Tree
  | [] => []
  | v :: items => v.tree :: itemTrees items

def memberTrees : List (String × Value) → List (String × Tree)
  | [] => []
  | (name, v) :: members => (name, v.tree) :: memberTrees members

end

/-! ### Values without parts -/

theorem stringBody_writeString (s : String) (rest : List Char) :
    StringBody s.toList (s.toList.flatMap writeChar ++ '"' :: rest) rest :=
  readString_eq_ok_iff.1 (readString_writeString s.toList rest)

theorem writeString_append (s : String) (rest : List Char) :
    writeString s ++ rest = '"' :: (s.toList.flatMap writeChar ++ '"' :: rest) := by
  simp [writeString]

/-- Only zero is written with a zero in front. -/
theorem head?_toDigits {n : Nat} (h : (Nat.toDigits 10 n).head? = some '0') : n = 0 := by
  have hdigit : ∀ m < 10, m.digitChar = '0' → m = 0 := by decide
  induction n using Nat.strongRecOn with
  | _ n ih =>
    by_cases hlt : n < 10
    · rw [Nat.toDigits_of_lt_base hlt] at h
      exact hdigit n hlt (by simpa using h)
    · -- the first digit is that of the number without the last one
      rw [Nat.toDigits_of_base_le (by decide) (by omega), List.head?_append,
        Option.or_of_isSome (by simp)] at h
      have := ih (n / 10) (by omega) h
      omega

theorem isWhole_toDigits (n : Nat) : IsWhole (Nat.toDigits 10 n) := by
  refine ⟨⟨Nat.toDigits_ne_nil, ?_⟩, ?_⟩
  · intro d hd
    exact Nat.isDigit_of_mem_toDigits (by decide) (by decide) hd
  · intro h
    rw [head?_toDigits h, Nat.toDigits_zero]

/-! ### White space -/

theorem gap_newLine (depth : Nat) (cs : List Char) : Gap (Value.newLine depth ++ cs) cs := by
  refine .cons rfl ?_
  induction 2 * depth with
  | zero => exact .nil
  | succ n ih => exact .cons rfl ih

theorem Spells.of_gap {t : Tree} {cs cs' rest : List Char} (hg : Gap cs cs')
    (h : Spells t cs' rest) : Spells t cs rest := by
  cases h with
  | null hg' => exact .null (hg.trans hg')
  | true hg' => exact .true (hg.trans hg')
  | false hg' => exact .false (hg.trans hg')
  | number hn hg' => exact .number hn (hg.trans hg')
  | text hg' hs => exact .text (hg.trans hg') hs
  | array hg' hts => exact .array (hg.trans hg') hts
  | object hg' hms => exact .object (hg.trans hg') hms

/-- Elements that go on behind a comma. -/
theorem Items.comma {t : Tree} {ts : List Tree} {cs rest : List Char}
    (h : Items true (t :: ts) cs rest) : Items false (t :: ts) (',' :: cs) rest := by
  cases h with
  | item hs ht hts =>
    cases hs
    exact .item (.comma .nil) ht hts

theorem Members.comma {m : String × Tree} {ms : List (String × Tree)} {cs rest : List Char}
    (h : Members true (m :: ms) cs rest) : Members false (m :: ms) (',' :: cs) rest := by
  cases h with
  | member hs hq hn hc ht hms =>
    cases hs
    exact .member (.comma .nil) hq hn hc ht hms

/-- A written member: white space, the name, a colon, and the value behind other white space. -/
theorem Members.written {name : String} {t : Tree} {ms : List (String × Tree)}
    {cs cs₁ cs₂ rest : List Char} (ht : Spells t cs₁ cs₂) (hms : Members false ms cs₂ rest)
    (hg : Gap cs (writeString name ++ ':' :: cs₁)) : Members true ((name, t) :: ms) cs rest := by
  rw [writeString_append] at hg
  exact .member .first hg (stringBody_writeString name _) .nil ht hms

/-! ### Both texts -/

theorem spells_scalar (v : Value) (hv : (∀ items, v ≠ .array items) ∧ ∀ members, v ≠ .object members)
    (rest : List Char) : Spells v.tree (v.scalar ++ rest) rest := by
  cases v with
  | null => exact .null .nil
  | boolean b => cases b <;> constructor <;> exact .nil
  | natural n => exact .number (isWhole_toDigits n).isNumber .nil
  | text s => exact .text (writeString_append s rest ▸ .nil) (stringBody_writeString s rest)
  | array items => exact absurd rfl (hv.1 items)
  | object members => exact absurd rfl (hv.2 members)

mutual

theorem spells_compact : (v : Value) → (rest : List Char) → Spells v.tree (v.compact ++ rest) rest
  | .null, rest => spells_scalar .null (by simp) rest
  | .boolean b, rest => spells_scalar (.boolean b) (by simp) rest
  | .natural n, rest => spells_scalar (.natural n) (by simp) rest
  | .text s, rest => spells_scalar (.text s) (by simp) rest
  | .array items, rest => .array .nil (items_compact items rest)
  | .object members, rest => .object .nil (members_compact members rest)

theorem items_compact : (items : List Value) → (rest : List Char) →
    Items true (itemTrees items) (Value.compactItems items ++ rest) rest
  | [], rest => .close .nil
  | [v], rest => by
    have := spells_compact v (']' :: rest)
    rw [Value.compactItems, List.append_assoc]
    exact .item .first this (.close .nil)
  | v :: w :: items, rest => by
    have htail := (items_compact (w :: items) rest).comma
    have := spells_compact v (',' :: (Value.compactItems (w :: items) ++ rest))
    rw [Value.compactItems, List.append_assoc]
    exact .item .first this htail

theorem members_compact : (members : List (String × Value)) → (rest : List Char) →
    Members true (memberTrees members) (Value.compactMembers members ++ rest) rest
  | [], rest => .close .nil
  | [(name, v)], rest => by
    have := spells_compact v ('\x7d' :: rest)
    simp only [Value.compactMembers, List.append_assoc, List.cons_append]
    exact .written this (.close .nil) .nil
  | (name, v) :: member :: members, rest => by
    have htail := (members_compact (member :: members) rest).comma
    have := spells_compact v (',' :: (Value.compactMembers (member :: members) ++ rest))
    simp only [Value.compactMembers, List.append_assoc, List.cons_append]
    exact .written this htail .nil

end

mutual

theorem spells_pretty (depth : Nat) : (v : Value) → (rest : List Char) →
    Spells v.tree (v.pretty depth ++ rest) rest
  | .null, rest => spells_scalar .null (by simp) rest
  | .boolean b, rest => spells_scalar (.boolean b) (by simp) rest
  | .natural n, rest => spells_scalar (.natural n) (by simp) rest
  | .text s, rest => spells_scalar (.text s) (by simp) rest
  | .array [], rest => .array .nil (.close .nil)
  | .array (v :: items), rest => by
    have := items_pretty (depth + 1) depth (v :: items) rest
    simp only [Value.pretty, List.append_assoc, List.cons_append]
    exact .array .nil this
  | .object [], rest => .object .nil (.close .nil)
  | .object (member :: members), rest => by
    have := members_pretty (depth + 1) depth (member :: members) rest
    simp only [Value.pretty, List.append_assoc, List.cons_append]
    exact .object .nil this

/-- The elements at a depth, and the closing bracket at the depth around them. -/
theorem items_pretty (depth around : Nat) : (items : List Value) → (rest : List Char) →
    Items true (itemTrees items)
      (Value.prettyItems depth items ++ (Value.newLine around ++ ']' :: rest)) rest
  | [], rest => .close (gap_newLine around _)
  | [v], rest => by
    have := spells_pretty depth v (Value.newLine around ++ ']' :: rest)
    rw [Value.prettyItems, List.append_assoc]
    exact .item .first (this.of_gap (gap_newLine depth _)) (.close (gap_newLine around _))
  | v :: w :: items, rest => by
    have htail := (items_pretty depth around (w :: items) rest).comma
    have := spells_pretty depth v (',' :: (Value.prettyItems depth (w :: items) ++
      (Value.newLine around ++ ']' :: rest)))
    simp only [Value.prettyItems, List.append_assoc, List.cons_append]
    exact .item .first (this.of_gap (gap_newLine depth _)) htail

theorem members_pretty (depth around : Nat) : (members : List (String × Value)) →
    (rest : List Char) → Members true (memberTrees members)
      (Value.prettyMembers depth members ++ (Value.newLine around ++ '\x7d' :: rest)) rest
  | [], rest => .close (gap_newLine around _)
  | [(name, v)], rest => by
    have := spells_pretty depth v (Value.newLine around ++ '\x7d' :: rest)
    simp only [Value.prettyMembers, List.append_assoc, List.cons_append]
    exact .written (this.of_gap (.cons rfl .nil)) (.close (gap_newLine around _))
      (gap_newLine depth _)
  | (name, v) :: member :: members, rest => by
    have htail := (members_pretty depth around (member :: members) rest).comma
    have := spells_pretty depth v (',' :: (Value.prettyMembers depth (member :: members) ++
      (Value.newLine around ++ '\x7d' :: rest)))
    simp only [Value.prettyMembers, List.append_assoc, List.cons_append]
    exact .written (this.of_gap (.cons rfl .nil)) htail (gap_newLine depth _)

end

/-- Both texts of a value are documents of its tree. -/
theorem isDocument_compact (v : Value) : IsDocument v.tree (String.ofList v.compact) := by
  refine ⟨[], ?_, .nil⟩
  rw [String.toList_ofList]
  simpa using spells_compact v []

theorem isDocument_pretty (v : Value) (depth : Nat) :
    IsDocument v.tree (String.ofList (v.pretty depth)) := by
  refine ⟨[], ?_, .nil⟩
  rw [String.toList_ofList]
  simpa using spells_pretty depth v []

/-! ### The text without white space is one line -/

/-- A text without control characters. -/
def HasNoControl (cs : List Char) : Prop :=
  ∀ c ∈ cs, 0x20 ≤ c.toNat

instance (cs : List Char) : Decidable (HasNoControl cs) :=
  decidable_of_iff (cs.all fun c => 0x20 ≤ c.toNat) (by simp [HasNoControl])

namespace HasNoControl

theorem append {cs cs' : List Char} (h : HasNoControl cs) (h' : HasNoControl cs') :
    HasNoControl (cs ++ cs') :=
  List.forall_mem_append.2 ⟨h, h'⟩

theorem cons {c : Char} {cs : List Char} (hc : 0x20 ≤ c.toNat) (h : HasNoControl cs) :
    HasNoControl (c :: cs) :=
  List.forall_mem_cons.2 ⟨hc, h⟩

theorem newLine_not_mem {cs : List Char} (h : HasNoControl cs) : '\n' ∉ cs :=
  fun hmem => absurd (h _ hmem) (by decide)

end HasNoControl

/-- Control characters are written as escapes. -/
theorem hasNoControl_writeChar (c : Char) : HasNoControl (writeChar c) := by
  have hdigit : ∀ n < 16, HasNoControl [Nat.digitChar n] := by decide
  have hfront : HasNoControl ['\\', 'u', '0', '0'] := by decide
  unfold writeChar
  split_ifs with h₁ h₂ h₃ h₄ h₅ h₆ h₇ hcontrol
  · decide
  · decide
  · decide
  · decide
  · decide
  · decide
  · decide
  · exact (hfront.append (hdigit (c.toNat / 16) (by omega))).append
      (hdigit (c.toNat % 16) (by omega))
  · exact .cons (by omega) (by decide)

theorem hasNoControl_writeString (s : String) : HasNoControl (writeString s) := by
  refine .append (.cons (by decide) fun c hc => ?_) (by simp [HasNoControl])
  obtain ⟨d, -, hd⟩ := List.mem_flatMap.1 hc
  exact hasNoControl_writeChar d c hd

theorem hasNoControl_toDigits (n : Nat) : HasNoControl (Nat.toDigits 10 n) := by
  intro d hd
  have hd := Char.isDigit_iff_toNat.1 (Nat.isDigit_of_mem_toDigits (by decide) (by decide) hd)
  simp only [Char.reduceToNat] at hd
  omega

theorem hasNoControl_scalar (v : Value) : HasNoControl v.scalar := by
  unfold Value.scalar
  split
  · decide
  · decide
  · exact hasNoControl_toDigits _
  · exact hasNoControl_writeString _
  · decide

mutual

theorem hasNoControl_compact : (v : Value) → HasNoControl v.compact
  | .null => hasNoControl_scalar .null
  | .boolean b => hasNoControl_scalar (.boolean b)
  | .natural n => hasNoControl_scalar (.natural n)
  | .text s => hasNoControl_scalar (.text s)
  | .array items => .cons (by decide) (hasNoControl_compactItems items)
  | .object members => .cons (by decide) (hasNoControl_compactMembers members)

theorem hasNoControl_compactItems : (items : List Value) → HasNoControl (Value.compactItems items)
  | [] => by decide
  | [v] => .append (hasNoControl_compact v) (by decide)
  | v :: w :: items =>
    .append (hasNoControl_compact v) (.cons (by decide) (hasNoControl_compactItems (w :: items)))

theorem hasNoControl_compactMembers : (members : List (String × Value)) →
    HasNoControl (Value.compactMembers members)
  | [] => by decide
  | [(name, v)] =>
    .append (.append (hasNoControl_writeString name) (.cons (by decide) (hasNoControl_compact v)))
      (by decide)
  | (name, v) :: member :: members =>
    .append (.append (hasNoControl_writeString name) (.cons (by decide) (hasNoControl_compact v)))
      (.cons (by decide) (hasNoControl_compactMembers (member :: members)))

end

end PrimitiveAbi.Json
