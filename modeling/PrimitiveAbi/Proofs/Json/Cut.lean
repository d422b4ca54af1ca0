import PrimitiveAbi.Proofs.Json.Skip
import PrimitiveAbi.Proofs.Json.Unique

/-!
# Texts that are cut in two

A text is cut into a front and a back. What reading the front gives foretells what reading the whole
gives (`Foretells`): the same value and the same fault, unless the front is found to end too early.
A number may go on behind the cut; where a cut goes through a number (`InsideNumber`) is told from
the quotes in front of it.
-/

namespace PrimitiveAbi.Json

/-! ### Outside of strings -/

/-- Where a text stands with respect to strings. -/
inductive Place where
  | outside
  | inside
  /-- Inside of a string, behind a backslash. -/
  | escaped
  deriving DecidableEq

namespace Place

def step : Place → Char → Place
  | .outside, c => if c = '"' then .inside else .outside
  | .inside, c => if c = '"' then .outside else if c = '\\' then .escaped else .inside
  | .escaped, _ => .inside

/-- The place behind a text. -/
def after (p : Place) (cs : List Char) : Place := cs.foldl step p

end Place

/-- What stands in front of the rest leads from one place to another. -/
def Leads (p q : Place) (cs rest : List Char) : Prop := ∃ token, cs = token ++ rest ∧ p.after token = q

theorem Leads.refl (p : Place) (cs : List Char) : Leads p p cs cs := ⟨[], rfl, rfl⟩

theorem Leads.trans {p q r : Place} {a b c : List Char} (h : Leads p q a b) (h' : Leads q r b c) :
    Leads p r a c := by
  obtain ⟨token, rfl, rfl⟩ := h
  obtain ⟨token', rfl, rfl⟩ := h'
  exact ⟨token ++ token', by simp, by simp [Place.after, List.foldl_append]⟩

theorem Leads.cons {p q : Place} {c : Char} {cs rest : List Char} (h : Leads (p.step c) q cs rest) :
    Leads p q (c :: cs) rest := by
  obtain ⟨token, rfl, rfl⟩ := h
  exact ⟨c :: token, rfl, rfl⟩

theorem Leads.length_le {p q : Place} {cs rest : List Char} (h : Leads p q cs rest) :
    rest.length ≤ cs.length := by
  obtain ⟨token, rfl, -⟩ := h
  rw [List.length_append]
  exact Nat.le_add_left _ _

/-- Characters that open no string stay outside. -/
theorem leads_outside {token : List Char} (h : '"' ∉ token) (rest : List Char) :
    Leads .outside .outside (token ++ rest) rest := by
  induction token with
  | nil => exact .refl _ _
  | cons c token ih =>
    rw [List.mem_cons, not_or] at h
    refine .cons ?_
    rw [Place.step, if_neg (Ne.symm h.1)]
    exact ih h.2

theorem Gap.leads {cs rest : List Char} (h : Gap cs rest) : Leads .outside .outside cs rest := by
  induction h with
  | nil => exact .refl _ _
  | @cons c _ _ hc _ ih =>
    refine .cons ?_
    have hne : c ≠ '"' := by rintro rfl; exact absurd hc (by decide)
    rwa [Place.step, if_neg hne]

/-- A character in front of which white space stands, and that opens no string. -/
theorem Gap.leads_cons {c : Char} {cs rest : List Char} (h : Gap cs (c :: rest)) (hc : c ≠ '"') :
    Leads .outside .outside cs rest := by
  refine h.leads.trans (.cons ?_)
  rw [Place.step, if_neg hc]
  exact .refl _ _

theorem Gap.leads_quote {cs rest : List Char} (h : Gap cs ('"' :: rest)) :
    Leads .outside .inside cs rest :=
  h.leads.trans (.cons (.refl _ _))

theorem leads_hexDigit {c : Char} {n : Nat} {cs rest : List Char} (h : Text.hexDigit? c = some n)
    (hr : Leads .inside .outside cs rest) : Leads .inside .outside (c :: cs) rest := by
  have hne : ∀ d : Char, Text.hexDigit? d = none → c ≠ d := by
    rintro d hd rfl
    simp [hd] at h
  refine .cons ?_
  rwa [Place.step, if_neg (hne '"' (by decide)), if_neg (hne '\\' (by decide))]

theorem RawBody.leads {cs rest : List Char} (h : RawBody cs rest) :
    Leads .inside .outside cs rest := by
  induction h with
  | close => exact .cons (.refl _ _)
  | plain hq hb _ _ ih =>
    refine .cons ?_
    rwa [Place.step, if_neg hq, if_neg hb]
  | short _ _ ih => exact .cons (.cons ih)
  | code hx _ ih =>
    simp only [hexNumber?, Option.bind_eq_bind, Option.bind_eq_some_iff, Option.pure_def,
      Option.some.injEq] at hx
    obtain ⟨_, h₁, _, h₂, _, h₃, _, h₄, -⟩ := hx
    exact .cons (.cons (leads_hexDigit h₁ (leads_hexDigit h₂ (leads_hexDigit h₃
      (leads_hexDigit h₄ ih)))))

theorem Separator.leads {first : Bool} {cs rest : List Char} (h : Separator first cs rest) :
    Leads .outside .outside cs rest := by
  cases h with
  | first => exact .refl _ _
  | comma hg => exact hg.leads_cons (by decide)

mutual

/-- Behind a value stands what stands outside of strings. -/
theorem Raw.leads {cs rest : List Char} (h : Raw cs rest) : Leads .outside .outside cs rest := by
  match h with
  | .word hw hg =>
    refine hg.leads.trans (leads_outside ?_ rest)
    revert hw
    simp only [words, List.mem_cons, List.not_mem_nil, or_false]
    rintro (rfl | rfl | rfl) <;> decide
  | .number hn hg =>
    refine hg.leads.trans (leads_outside ?_ rest)
    intro hmem
    exact absurd (hn.inNumber _ hmem) (by decide)
  | .text hg hb => exact hg.leads_quote.trans hb.leads
  | .array hg hts => exact (hg.leads_cons (by decide)).trans hts.leads
  | .object hg hms => exact (hg.leads_cons (by decide)).trans hms.leads

theorem RawItems.leads {first : Bool} {cs rest : List Char} (h : RawItems first cs rest) :
    Leads .outside .outside cs rest := by
  match h with
  | .close hg => exact hg.leads_cons (by decide)
  | .item hs hv hts => exact (hs.leads.trans hv.leads).trans hts.leads

theorem RawMembers.leads {first : Bool} {cs rest : List Char} (h : RawMembers first cs rest) :
    Leads .outside .outside cs rest := by
  match h with
  | .close hg => exact hg.leads_cons (by decide)
  | .member hs hq hb hcolon hv hms =>
    have hkey := (hs.leads.trans hq.leads_quote).trans hb.leads
    exact ((hkey.trans (hcolon.leads_cons (by decide))).trans hv.leads).trans hms.leads

end

/-- A value is at least its first character. -/
theorem Raw.length_le {c : Char} {cs after rest : List Char} (h : Raw cs rest)
    (hn : Json.next cs = .ok (c, after)) : rest.length ≤ after.length := by
  have hfirst : ∀ {d : Char} {tail : List Char}, Gap cs (d :: tail) → isBlank d = false →
      rest.length ≤ tail.length → rest.length ≤ after.length := by
    intro d tail hg hd hle
    rw [next_eq_ok_iff.2 ⟨hg, hd⟩] at hn
    cases hn
    exact hle
  cases h with
  | word hw hg =>
    obtain ⟨d, tail, rfl, hd, -⟩ := word_eq_cons hw
    exact hfirst hg hd (by simp)
  | number hn hg =>
    obtain ⟨d, tail, rfl, hd⟩ := hn.exists_cons
    exact hfirst hg (isBlank_of_opensNumber hd) (by simp)
  | text hg hb => exact hfirst hg rfl hb.leads.length_le
  | array hg hts => exact hfirst hg rfl hts.leads.length_le
  | object hg hms => exact hfirst hg rfl hms.leads.length_le

/-! ### Cuts through numbers -/

/-- The cut between a front and a back goes through a number. -/
def InsideNumber (front back : List Char) : Prop :=
  ∃ before x y after, front = before ++ x ∧ back = y ++ after ∧ x ≠ [] ∧ y ≠ [] ∧
    IsNumber (x ++ y) ∧ Place.outside.after before = .outside

theorem not_insideNumber_of_numberEnds {front back : List Char} (h : NumberEnds back) :
    ¬ InsideNumber front back := by
  rintro ⟨before, x, y, after, -, rfl, -, hy, hn, -⟩
  obtain ⟨c, y, rfl⟩ := List.exists_cons_of_ne_nil hy
  have hc := hn.inNumber c (by simp)
  rw [h c rfl] at hc
  exact absurd hc (by decide)

/-- A cut through a number stays one when more is put in front. -/
theorem InsideNumber.of_leads {cs rest back : List Char} (hl : Leads .outside .outside cs rest)
    (h : InsideNumber rest back) : InsideNumber cs back := by
  obtain ⟨token, rfl, htoken⟩ := hl
  obtain ⟨before, x, y, after, rfl, rfl, hx, hy, hn, hbefore⟩ := h
  refine ⟨token ++ before, x, y, after, by simp, rfl, hx, hy, hn, ?_⟩
  rw [Place.after, List.foldl_append]
  exact (congrArg (fun p => List.foldl Place.step p before) htoken).trans hbefore

/-! ### Fronts -/

/-- Results that leave a part of the text. -/
class Leaves (ρ : Type) where
  left : ρ → List Char
  /-- The result that leaves so much more. -/
  extend : ρ → List Char → ρ

open Leaves

instance : Leaves (List Char) := ⟨id, (· ++ ·)⟩

instance {α : Type} : Leaves (α × List Char) := ⟨Prod.snd, fun r s => (r.1, r.2 ++ s)⟩

@[simp, grind =] theorem left_list (cs : List Char) : left cs = cs := rfl

@[simp, grind =] theorem left_pair {α : Type} (r : α × List Char) : left r = r.2 := rfl

@[simp] theorem extend_list (cs s : List Char) : extend cs s = cs ++ s := rfl

@[simp] theorem extend_pair {α : Type} (v : α) (cs s : List Char) :
    extend (v, cs) s = (v, cs ++ s) := rfl

variable {ρ σ : Type} [Leaves ρ] [Leaves σ]

/-- What reading a front gives, and what reading it with a back behind it gives. -/
inductive Foretells (back : List Char) : Except Fault ρ → Except Fault ρ → Prop
  | read (r : ρ) : Foretells back (.ok r) (.ok (extend r back))
  | fault (e : Fault) : Foretells back (.error e) (.error e)
  /-- The front ends too early. What the whole then leaves lies inside of the back. -/
  | early {y : Except Fault ρ} : (∀ r, y = .ok r → (left r).length < back.length) →
      Foretells back (.error .truncated) y
  /-- The back goes on with a number, and is refused. -/
  | cut {x : Except Fault ρ} {e : Fault} : ¬ NumberEnds back → Foretells back x (.error e)

/-- What is done with a result that is foretold is foretold, if it hands errors on. -/
theorem Foretells.bind {back : List Char} {x y : Except Fault ρ}
    {f g : Except Fault ρ → Except Fault σ} (h : Foretells back x y)
    (herror : ∀ e, f (.error e) = .error e ∧ g (.error e) = .error e)
    (hok : ∀ r, x = .ok r → Foretells back (f (.ok r)) (g (.ok (extend r back))))
    (hleft : ∀ r r', y = .ok r → g (.ok r) = .ok r' → (left r').length ≤ (left r).length) :
    Foretells back (f x) (g y) := by
  have hf := fun e => (herror e).1
  have hg := fun e => (herror e).2
  cases h with
  | read r => exact hok r rfl
  | fault e =>
    rw [hf, hg]
    exact .fault e
  | early h =>
    rw [hf]
    refine .early fun r' hr' => ?_
    cases y with
    | error e => simp [hg] at hr'
    | ok r => exact Nat.lt_of_le_of_lt (hleft r r' rfl hr') (h r rfl)
  | cut h =>
    rw [hg]
    exact .cut h

/-- Where the back does not begin like the rest of a number, a result of which nothing is left is
the same for the whole, unless the front ends too early. -/
theorem Foretells.eq_of_numberEnds {γ : Type} {back : List Char} {x y : Except Fault ρ}
    {f : Except Fault ρ → Except Fault γ} (h : Foretells back x y) (hends : NumberEnds back)
    (hf : ∀ e, f (.error e) = .error e) (hok : ∀ r, f (.ok (extend r back)) = f (.ok r)) :
    f x = .error .truncated ∨ f y = f x := by
  cases h with
  | read r => exact .inr (hok r)
  | fault e => exact .inr rfl
  | early => exact .inl (hf _)
  | cut h => exact absurd hends h

/-- If the whole is read up to the back, the front is read to its end. -/
theorem Foretells.front_eq_ok {α : Type} {back : List Char} {x : Except Fault (α × List Char)}
    {v : α} (h : Foretells back x (.ok (v, back))) (hends : NumberEnds back) : x = .ok (v, []) := by
  generalize hy : Except.ok (v, back) = y at h
  cases h with
  | read r =>
    obtain ⟨w, rest⟩ := r
    obtain ⟨rfl, hrest⟩ := Prod.mk.inj (Except.ok.inj hy)
    obtain rfl : rest = [] := List.append_left_eq_self.1 hrest.symm
    rfl
  | fault => cases hy
  | early hlt => exact absurd (hlt _ hy.symm) (Nat.lt_irrefl _)
  | cut h => exact absurd hends h

/-- If the front is read to its end, the whole is read up to the back. -/
theorem Foretells.whole_eq_ok {α : Type} {back : List Char} {y : Except Fault (α × List Char)}
    {v : α} (h : Foretells back (.ok (v, [])) y) (hends : NumberEnds back) : y = .ok (v, back) := by
  generalize hx : Except.ok (v, []) = x at h
  cases h with
  | read r =>
    cases hx
    rfl
  | fault => cases hx
  | early => cases hx
  | cut h => exact absurd hends h

end PrimitiveAbi.Json
