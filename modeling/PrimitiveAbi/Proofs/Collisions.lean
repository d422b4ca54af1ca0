import Mathlib.Data.List.Chain
import PrimitiveAbi.Proofs.Binding
import PrimitiveAbi.Proofs.Spans

/-!
# Names that share a symbol

A symbol does not say where the code point of a character ends, nor whether an underscore was a
hyphen. Where no digit comes after a character that is written by its code point or as an
underscore, the code point ends with the digits, so the symbol determines the name up to hyphens
(`Mangling.mangle_eq_iff`). The names of the catalog are all of that kind.
-/

namespace PrimitiveAbi

namespace Mangling

/-- No character but an ASCII letter or digit stands right before an ASCII digit. -/
def PlainChars (cs : List Char) : Prop :=
  cs.IsChain fun a b => b.isDigit = true → a.isAlphanum = true

/-- The name with these characters is plain. -/
def Plain (name : String) : Prop := PlainChars name.toList

instance (name : String) : Decidable (Plain name) :=
  inferInstanceAs (Decidable (name.toList.IsChain _))

/-- The character with a hyphen taken for an underscore. -/
def foldChar (c : Char) : Char := if c = '-' then '_' else c

/-- The name with every hyphen replaced by an underscore. -/
def fold (name : String) : String := String.ofList (name.toList.map foldChar)

theorem toList_fold (name : String) : (fold name).toList = name.toList.map foldChar := by
  simp [fold]

/-! ### One character -/

/-- The digits that a character contributes behind its underscore. -/
def codeDigits (c : Char) : List Char :=
  if foldChar c = '_' then [] else Nat.toDigits 10 c.toNat

theorem mangleChar_foldChar (c : Char) : mangleChar (foldChar c) = mangleChar c := by
  rw [foldChar]
  split
  · next h => rw [h]; decide
  · rfl

theorem mangleChar_of_isAlphanum {c : Char} (h : c.isAlphanum = true) : mangleChar c = [c] := by
  rw [mangleChar, isKept, h, Bool.true_or, if_pos rfl]

theorem mangleChar_of_not_isAlphanum {c : Char} (h : c.isAlphanum = false) :
    mangleChar c = '_' :: codeDigits c := by
  rw [mangleChar, isKept, codeDigits, foldChar, h, Bool.false_or]
  by_cases hunderscore : c = '_'
  · subst hunderscore
    decide
  · by_cases hhyphen : c = '-'
    · subst hhyphen
      decide
    · simp [hunderscore, hhyphen]

theorem isDigit_of_mem_codeDigits {c d : Char} (h : d ∈ codeDigits c) : d.isDigit = true := by
  rw [codeDigits] at h
  split at h
  · exact absurd h List.not_mem_nil
  · exact Nat.isDigit_of_mem_toDigits (by decide) (by decide) h

/-- The digits tell the character, up to a hyphen. -/
theorem foldChar_eq_of_codeDigits_eq {c d : Char} (h : codeDigits c = codeDigits d) :
    foldChar c = foldChar d := by
  rw [codeDigits, codeDigits] at h
  split at h <;> split at h
  · next hc hd => rw [hc, hd]
  · exact absurd h.symm Nat.toDigits_ne_nil
  · exact absurd h Nat.toDigits_ne_nil
  · have hcode : c.toNat = d.toNat := by
      rw [← Nat.ofDigitChars_ten_toDigits (n := c.toNat), h, Nat.ofDigitChars_ten_toDigits]
    rw [Char.toNat_inj.1 hcode]

theorem isDigit_of_head?_mangleChar {c d : Char} (h : d ∈ (mangleChar c).head?)
    (hd : d.isDigit = true) : c.isDigit = true := by
  cases hc : c.isAlphanum with
  | true =>
    rw [mangleChar_of_isAlphanum hc] at h
    rwa [Option.some.inj h]
  | false =>
    rw [mangleChar_of_not_isAlphanum hc] at h
    obtain rfl := Option.some.inj h
    exact absurd hd (by decide)

/-! ### Texts without digits in front -/

/-- The text does not go on with a digit. -/
def NoDigit (cs : List Char) : Prop := ∀ c ∈ cs.head?, c.isDigit = false

/-- What a character contributes can be told from what follows, and it tells the character. -/
theorem mangleChar_append_inj {c d : Char} {cs ds : List Char}
    (hcs : c.isAlphanum = false → NoDigit cs) (hds : d.isAlphanum = false → NoDigit ds)
    (h : mangleChar c ++ cs = mangleChar d ++ ds) : foldChar c = foldChar d ∧ cs = ds := by
  cases hc : c.isAlphanum with
  | true =>
    cases hd : d.isAlphanum with
    | true =>
      rw [mangleChar_of_isAlphanum hc, mangleChar_of_isAlphanum hd] at h
      obtain ⟨hhead, htail⟩ := List.cons.inj h
      exact ⟨by rw [hhead], htail⟩
    | false =>
      rw [mangleChar_of_isAlphanum hc, mangleChar_of_not_isAlphanum hd] at h
      obtain ⟨rfl, -⟩ := List.cons.inj h
      exact absurd hc (by decide)
  | false =>
    cases hd : d.isAlphanum with
    | true =>
      rw [mangleChar_of_not_isAlphanum hc, mangleChar_of_isAlphanum hd] at h
      obtain ⟨rfl, -⟩ := List.cons.inj h
      exact absurd hd (by decide)
    | false =>
      rw [mangleChar_of_not_isAlphanum hc, mangleChar_of_not_isAlphanum hd] at h
      obtain ⟨hcode, hrest⟩ := Text.append_inj_of_stop (fun _ => isDigit_of_mem_codeDigits)
        (fun _ => isDigit_of_mem_codeDigits) (hcs hc) (hds hd) (List.cons.inj h).2
      exact ⟨foldChar_eq_of_codeDigits_eq hcode, hrest⟩

/-! ### Names -/

theorem mangleChar_ne_nil (c : Char) : mangleChar c ≠ [] := by
  cases hc : c.isAlphanum with
  | true => rw [mangleChar_of_isAlphanum hc]; exact List.cons_ne_nil _ _
  | false => rw [mangleChar_of_not_isAlphanum hc]; exact List.cons_ne_nil _ _

theorem noDigit_flatMap {c : Char} {cs : List Char} (h : PlainChars (c :: cs))
    (hc : c.isAlphanum = false) : NoDigit (cs.flatMap mangleChar) := by
  intro x hx
  cases cs with
  | nil => exact nomatch hx
  | cons d cs =>
    rw [List.flatMap_cons, List.head?_append_of_ne_nil _ (mangleChar_ne_nil d)] at hx
    rw [Bool.eq_false_iff]
    intro hdigit
    have := (List.isChain_cons_cons.1 h).1 (isDigit_of_head?_mangleChar hx hdigit)
    rw [hc] at this
    exact nomatch this

theorem map_foldChar_of_flatMap {cs ds : List Char} (hcs : PlainChars cs) (hds : PlainChars ds)
    (h : cs.flatMap mangleChar = ds.flatMap mangleChar) : cs.map foldChar = ds.map foldChar := by
  induction cs generalizing ds with
  | nil =>
    cases ds with
    | nil => rfl
    | cons d ds => simp [mangleChar_ne_nil] at h
  | cons c cs ih =>
    cases ds with
    | nil => simp [mangleChar_ne_nil] at h
    | cons d ds =>
      rw [List.flatMap_cons, List.flatMap_cons] at h
      obtain ⟨hfold, hrest⟩ :=
        mangleChar_append_inj (noDigit_flatMap hcs) (noDigit_flatMap hds) h
      have htail := ih (List.IsChain.tail hcs) (List.IsChain.tail hds) hrest
      rw [List.map_cons, List.map_cons, hfold]
      exact congrArg _ htail

theorem mangle_fold (name : String) : mangle (fold name) = mangle name := by
  rw [← String.toList_inj, toList_mangle, toList_mangle, toList_fold, List.flatMap_map]
  simp only [mangleChar_foldChar]

/-- Plain names share a symbol exactly if they are the same up to hyphens. -/
theorem mangle_eq_iff {m n : String} (hm : Plain m) (hn : Plain n) :
    mangle m = mangle n ↔ fold m = fold n := by
  constructor
  · intro h
    rw [← String.toList_inj, toList_mangle, toList_mangle] at h
    rw [← String.toList_inj, toList_fold, toList_fold]
    exact map_foldChar_of_flatMap hm hn h
  · intro h
    rw [← mangle_fold m, h, mangle_fold]

end Mangling

theorem Catalog.plain_name : ∀ p ∈ all, ∀ n ∈ p.names, Mangling.Plain n.2 := by decide

open Mangling in
/-- Plain names share a symbol exactly if they are the same up to hyphens. So a plain name that has
the symbol of a primitive is one of the names that the symbol stands for, up to hyphens. -/
theorem plain_names_collide_by_hyphens :
    (∀ m n, Plain m → Plain n → (mangle m = mangle n ↔ fold m = fold n)) ∧
    ∀ n, Plain n → ∀ p ∈ Catalog.all, mangle n = p.symbol →
      ∃ names, demangle? p.symbol = some names ∧ ∃ entry ∈ names, fold entry.2 = fold n := by
  refine ⟨fun m n hm hn => mangle_eq_iff hm hn, ?_⟩
  intro n hn p hp hsymbol
  refine ⟨p.names, by rw [demangle?, Catalog.findSymbol?_symbol p hp, Option.map_some], ?_⟩
  obtain ⟨entry, hentry⟩ := List.exists_mem_of_ne_nil _ (Catalog.names_ne_nil p hp)
  refine ⟨entry, hentry, ?_⟩
  rw [← mangle_eq_iff (Catalog.plain_name p hp entry hentry) hn, hsymbol]
  exact Catalog.mangle_name p hp entry hentry

open Mangling in
theorem plain_names_collide_by_hyphens_line :
    mangle "display-line" = mangle "display_line" ∧ mangle "set*" ≠ mangle "set-" ∧
      ∃ names, demangle? "display_line" = some names ∧
        ∃ entry ∈ names, fold entry.2 = fold "display-line" := by
  obtain ⟨hcollide, hbound⟩ := plain_names_collide_by_hyphens
  refine ⟨(hcollide _ _ (by decide) (by decide)).2 (by decide), ?_, ?_⟩
  · intro h
    exact absurd ((hcollide _ _ (by decide) (by decide)).1 h) (by decide)
  · obtain ⟨p, hp, hsymbol⟩ : ∃ p ∈ Catalog.all, p.symbol = "display_line" := by decide
    rw [← hsymbol]
    exact hbound "display-line" (by decide) p hp (by rw [hsymbol]; decide)

/-- A digit after an underscore may be taken for a code point. -/
example : ¬ Mangling.Plain "set_42" ∧ Mangling.mangle "set_42" = Mangling.mangle "set*" := by decide

end PrimitiveAbi
