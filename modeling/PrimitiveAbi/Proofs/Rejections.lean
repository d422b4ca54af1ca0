import PrimitiveAbi.Proofs.Command.Environment
import PrimitiveAbi.Proofs.Requests

/-!
# Rejected values are read back from the errors

An error shows the values that it is about as quoted text. Quoted text holds visible characters only,
so an error is one line whatever the values are, and it ends at the first quote without a backslash,
so the values are read from the error one after another (`Text.quotations`). The texts of errors are
put together here from stretches that show certain values whatever comes after them (`Text.Shows`).
-/

namespace PrimitiveAbi

namespace Text

/-! ### Lines -/

/-- The control characters of Unicode. -/
def IsControl (c : Char) : Prop := c.toNat < 0x20 ∨ 0x7f ≤ c.toNat ∧ c.toNat ≤ 0x9f

/-- The characters at which Unicode ends a line. -/
def EndsLine (c : Char) : Prop :=
  0xa ≤ c.toNat ∧ c.toNat ≤ 0xd ∨ c.toNat = 0x85 ∨ c.toNat = 0x2028 ∨ c.toNat = 0x2029

/-- The text is one line, and no character in it controls anything. -/
def IsLine (s : String) : Prop := ∀ c ∈ s.toList, ¬ IsControl c ∧ ¬ EndsLine c

/-- The text is made of visible characters. -/
def AllVisible (cs : List Char) : Prop := ∀ c ∈ cs, isVisible c = true

instance (cs : List Char) : Decidable (AllVisible cs) :=
  List.decidableBAll (fun c : Char => isVisible c = true) cs

theorem isVisible_eq_false {c : Char} {first last : Nat} (hrange : (first, last) ∈ invisibleRanges)
    (hc : first ≤ c.toNat ∧ c.toNat ≤ last) (hcode : 0x7f ≤ c.toNat) : isVisible c = false := by
  have hcovered : covers invisibleRanges c.toNat = true :=
    List.any_eq_true.2 ⟨_, hrange, by simpa using hc⟩
  rw [isVisible, if_neg (Nat.not_lt.2 hcode), hcovered, Bool.not_true, Bool.and_false]

/-- A visible character neither controls anything nor ends a line. -/
theorem of_isVisible {c : Char} (h : isVisible c = true) : ¬ IsControl c ∧ ¬ EndsLine c := by
  have hspace := (not_control_of_isVisible h).1
  have hdelete : ¬ (0x7f ≤ c.toNat ∧ c.toNat ≤ 0xa0) := by
    intro hc
    rw [isVisible_eq_false (.tail _ (.head _)) hc hc.1] at h
    exact nomatch h
  have hseparator : ¬ (0x2028 ≤ c.toNat ∧ c.toNat ≤ 0x202f) := by
    intro hc
    rw [isVisible_eq_false (by decide +kernel) hc (by omega)] at h
    exact nomatch h
  unfold IsControl EndsLine
  omega

namespace Quoted

theorem isVisible_digitChar : ∀ d < 16, isVisible (Nat.digitChar d) = true := by decide

theorem isVisible_of_mem_toDigits {n : Nat} {d : Char} (h : d ∈ Nat.toDigits 16 n) :
    isVisible d = true := by
  induction n using Nat.strongRecOn generalizing d with
  | ind n ih =>
    by_cases hn : n < 16
    · rw [Nat.toDigits_of_lt_base hn, List.mem_singleton] at h
      rw [h]
      exact isVisible_digitChar n hn
    · rw [Nat.toDigits_of_base_le (by decide) (by omega), List.mem_append, List.mem_singleton] at h
      rcases h with h | rfl
      · exact ih _ (by omega) h
      · exact isVisible_digitChar _ (Nat.mod_lt _ (by decide))

theorem allVisible_encodeChar (c : Char) : AllVisible (encodeChar c) := by
  unfold encodeChar
  split_ifs with h₁ h₂ h₃ h₄ h₅ h₆ hvisible
  · decide
  · decide
  · decide
  · decide
  · decide
  · decide
  · exact List.forall_mem_singleton.2 hvisible
  · have hfront : AllVisible ['\\', 'u', '\x7b'] := by decide
    have hbrace : AllVisible ['\x7d'] := by decide
    refine List.forall_mem_append.2 ⟨?_, hbrace⟩
    exact List.forall_mem_append.2 ⟨hfront, fun d hd => isVisible_of_mem_toDigits hd⟩

/-- Quoted text is made of visible characters. -/
theorem allVisible_encode (cs : List Char) : AllVisible (encode cs) := by
  intro d hd
  obtain ⟨c, -, hc⟩ := List.mem_flatMap.1 hd
  exact allVisible_encodeChar c d hc

theorem length_read {cs text rest : List Char} (h : read cs = some (text, rest)) :
    rest.length < cs.length := by
  fun_induction read cs generalizing text rest with
  | case1 => exact nomatch h
  | case2 =>
    obtain ⟨-, rfl⟩ := Prod.mk.inj (Option.some.inj h)
    exact Nat.lt_succ_self _
  | case3 => exact nomatch h
  | case4 _ _ _ _ hescape _ ih =>
    obtain ⟨⟨_, _⟩, hread, hpair⟩ := Option.map_eq_some_iff.1 h
    obtain ⟨-, rfl⟩ := Prod.mk.inj hpair
    exact Nat.lt_succ_of_lt (Nat.lt_trans (ih hread) hescape)
  | case5 _ _ _ _ ih =>
    obtain ⟨⟨_, _⟩, hread, hpair⟩ := Option.map_eq_some_iff.1 h
    obtain ⟨-, rfl⟩ := Prod.mk.inj hpair
    exact Nat.lt_succ_of_lt (ih hread)

end Quoted

/-! ### Quoted texts in a text -/

/-- The quoted texts in a text, in order; there are none to tell if one does not end. -/
def quotations (cs : List Char) : Option (List String) :=
  match cs with
  | [] => some []
  | c :: rest =>
      if c = '"' then
        match h : Quoted.read rest with
        | none => none
        | some (text, behind) =>
            have := Quoted.length_read h
            (quotations behind).map (String.ofList text :: ·)
      else quotations rest
termination_by cs.length
decreasing_by all_goals simp only [List.length_cons]; omega

/-- The texts of some errors can be made out: each is one line, the quoted texts in it are read as
the values that the error shows, and no other error has the same text. -/
structure Legible {ε : Type} (text : ε → String) (values : ε → List String) : Prop where
  line : ∀ e, IsLine (text e)
  values : ∀ e, quotations (text e).toList = some (values e)
  injective : Function.Injective text

/-- The text is made of visible characters, and its quoted texts are read as these values, whatever
comes after it. -/
structure Shows (s : String) (values : List String) : Prop where
  visible : AllVisible s.toList
  values : ∀ rest, quotations (s.toList ++ rest) = (quotations rest).map (values ++ ·)

namespace Shows

variable {s s' : String} {values values' : List String}

theorem quotations_eq (h : Shows s values) : quotations s.toList = some values := by
  have hvalues := h.values []
  rwa [List.append_nil, quotations, Option.map_some, List.append_nil] at hvalues

theorem append (h : Shows s values) (h' : Shows s' values') :
    Shows (s ++ s') (values ++ values') where
  visible := by
    rw [String.toList_append]
    exact List.forall_mem_append.2 ⟨h.visible, h'.visible⟩
  values := by
    intro rest
    rw [String.toList_append, List.append_assoc, h.values, h'.values, Option.map_map]
    cases quotations rest <;> simp

end Shows

/-- Errors can be made out that show all there is to them. -/
theorem Legible.of_shows {ε : Type} {text : ε → String} {values : ε → List String}
    (h : ∀ e, Shows (text e) (values e)) (hvalues : Function.Injective values) :
    Legible text values where
  line := fun e c hc => of_isVisible ((h e).visible c hc)
  values := fun e => (h e).quotations_eq
  injective := by
    intro e e' htext
    apply hvalues
    rw [← Option.some.injEq, ← (h e).quotations_eq, ← (h e').quotations_eq, htext]

theorem quotations_append_of_not_mem {front : List Char} (h : '"' ∉ front) (rest : List Char) :
    quotations (front ++ rest) = quotations rest := by
  induction front with
  | nil => rfl
  | cons c front ih =>
    rw [List.mem_cons, not_or] at h
    rw [List.cons_append, quotations, if_neg (Ne.symm h.1), ih h.2]

theorem quotations_quote (text : List Char) (rest : List Char) :
    quotations ('"' :: (Quoted.encode text ++ '"' :: rest)) =
      (quotations rest).map (String.ofList text :: ·) := by
  rw [quotations, if_pos rfl]
  split
  · next hread => rw [Quoted.read_encode] at hread; exact nomatch hread
  · next hread =>
    rw [Quoted.read_encode] at hread
    obtain ⟨rfl, rfl⟩ := Prod.mk.inj (Option.some.inj hread)
    rfl

/-- Text without quotes shows nothing. -/
theorem shows_plain {s : String} (hvisible : AllVisible s.toList) (hquote : '"' ∉ s.toList) :
    Shows s [] where
  visible := hvisible
  values := by
    intro rest
    rw [quotations_append_of_not_mem hquote]
    cases quotations rest <;> rfl

theorem shows_quote (s : String) : Shows (quote s) [s] where
  visible := by
    have hquote : isVisible '"' = true := by decide
    rw [toList_quote]
    exact List.forall_mem_cons.2 ⟨hquote, List.forall_mem_append.2
      ⟨Quoted.allVisible_encode _, List.forall_mem_singleton.2 hquote⟩⟩
  values := by
    intro rest
    have htext : (quote s).toList ++ rest = '"' :: (Quoted.encode s.toList ++ '"' :: rest) := by
      simp [toList_quote]
    rw [htext, quotations_quote, String.ofList_toList]
    rfl

end Text

open Text

/-! ### Errors -/

theorem SurfaceError.shows_message (e : SurfaceError) : Shows e.message [e.value] :=
  ((shows_plain (by decide) (by decide)).append (shows_quote e.value)).append
    (shows_plain (by decide) (by decide))

theorem FilterError.shows_message (e : FilterError) : Shows e.message [e.value] :=
  ((shows_plain (by decide) (by decide)).append (shows_quote e.value)).append
    (shows_plain (by decide) (by decide))

theorem shows_chain {outer inner : String} {values values' : List String} (h : Shows outer values)
    (h' : Shows inner values') :
    Shows (String.intercalate ": " [outer, inner]) (values ++ values') := by
  have hcolon : Shows ": " [] := shows_plain (by decide) (by decide)
  have hchain := (h.append hcolon).append h'
  rwa [String.intercalate_cons_cons, String.intercalate_singleton, ← List.append_nil values]

theorem EnvironmentError.shows_chain (e : EnvironmentError) :
    Shows (String.intercalate ": " e.chain) [e.value, e.value] := by
  have hvariable : Shows ("invalid environment variable " ++ SurfaceFilter.environmentVariable ++
      "=") [] := shows_plain (by decide) (by decide)
  exact PrimitiveAbi.shows_chain (hvariable.append (shows_quote e.value))
    (FilterError.shows_message ⟨e.value⟩)

theorem CheckError.shows_chain (name : String) (e : SurfaceError) :
    Shows (String.intercalate ": " (surface name e).chain) [name, e.value] :=
  PrimitiveAbi.shows_chain ((shows_plain (by decide) (by decide)).append (shows_quote name))
    e.shows_message

/-! ### Rejections -/

theorem Surface.value_eq_of_parse {s : String} {e : SurfaceError} (h : parse s = .error e) :
    e.value = s := by
  have hnone : ¬ ∃ surface, parse s = .ok surface := by
    rintro ⟨surface, hok⟩
    rw [h] at hok
    exact nomatch hok
  rw [parse_eq_error hnone] at h
  rw [← Except.error.inj h]

theorem SurfaceFilter.value_eq_of_parse {s : String} {e : FilterError} (h : parse s = .error e) :
    e.value = s := by
  rw [parse_eq_error h]

/-- The errors about surfaces and filters are lines from which the values at fault can be read, so
unlike values have unlike errors; the error of the environment variable shows the value twice, and
that of a check the name and its surface. The value of an error is the text that was rejected, and
that of a check belongs to the first name with a surface that cannot be read. -/
theorem rejected_values_read_back :
    Legible SurfaceError.message (fun e => [e.value]) ∧
    Legible FilterError.message (fun e => [e.value]) ∧
    Legible (fun e : EnvironmentError => String.intercalate ": " e.chain)
      (fun e => [e.value, e.value]) ∧
    Legible (fun e : String × SurfaceError =>
      String.intercalate ": " (CheckError.surface e.1 e.2).chain) (fun e => [e.1, e.2.value]) ∧
    (∀ s e, Surface.parse s = .error e → e.value = s) ∧
    (∀ s e, SurfaceFilter.parse s = .error e → e.value = s) ∧
    (∀ s e, SurfaceFilter.resolve none (some s) = .error e → e.value = s) ∧
    ∀ r : Requires, r.version = Contract.requiresVersion → r.abiMajor = Contract.abiMajor →
      (¬ ∀ n ∈ r.names, n.Readable) →
      ∃ before n after, r.names = before ++ n :: after ∧ (∀ b ∈ before, b.Readable) ∧
        ¬ n.Readable ∧ r.check = .error (.surface n.name ⟨n.surface⟩) := by
  refine ⟨.of_shows SurfaceError.shows_message ?_, .of_shows FilterError.shows_message ?_,
    .of_shows EnvironmentError.shows_chain ?_,
    .of_shows (fun e => CheckError.shows_chain e.1 e.2) ?_,
    fun s e => Surface.value_eq_of_parse, fun s e => SurfaceFilter.value_eq_of_parse, ?_,
    fun r => Requires.exists_check_eq_error⟩
  · rintro ⟨_⟩ ⟨_⟩ h
    simpa using h
  · rintro ⟨_⟩ ⟨_⟩ h
    simpa using h
  · rintro ⟨_⟩ ⟨_⟩ h
    simpa using h
  · rintro ⟨_, ⟨_⟩⟩ ⟨_, ⟨_⟩⟩ h
    simpa using h
  · intro s e h
    exact (Option.some.inj (SurfaceFilter.resolve_eq_error h)).symm

/-- Quotes, backslashes, line ends and marks are read back, and so is an empty surface next to a name
that looks like the end of one quoted text and the beginning of another. -/
theorem rejected_values_read_back_escapes :
    (∃ e, Surface.parse " All" = .error e ∧ e.value = " All") ∧
    (∃ e, SurfaceFilter.parse "up\t" = .error e ∧ e.value = "up\t") ∧
    (∃ e, SurfaceFilter.resolve none (some "\"a\\\n\u2028e\u0301") = .error e ∧
      e.value = "\"a\\\n\u2028e\u0301" ∧
      quotations (String.intercalate ": " e.chain).toList =
        some ["\"a\\\n\u2028e\u0301", "\"a\\\n\u2028e\u0301"]) ∧
    ∃ e, Requires.check ⟨Contract.requiresVersion, Contract.abiMajor, ["frob"],
        [⟨"", "\": \""⟩, ⟨"up", "+"⟩]⟩ = .error e ∧
      quotations (String.intercalate ": " e.chain).toList = some ["\": \"", ""] := by
  obtain ⟨-, -, hchain, hcheckChain, hsurface, hfilter, hresolve, hrefuses⟩ :=
    rejected_values_read_back
  have hall : Surface.parse " All" = .error ⟨" All"⟩ := by decide
  have hup : SurfaceFilter.parse "up\t" = .error ⟨"up\t"⟩ := by decide
  have hmarks : SurfaceFilter.resolve none (some "\"a\\\n\u2028e\u0301") =
      .error ⟨"\"a\\\n\u2028e\u0301"⟩ := by decide
  refine ⟨⟨_, hall, hsurface _ _ hall⟩, ⟨_, hup, hfilter _ _ hup⟩,
    ⟨_, hmarks, hresolve _ _ hmarks, hchain.values _⟩, ?_⟩
  have hempty : ¬ NameRequest.Readable ⟨"", "\": \""⟩ := by
    rintro ⟨surface, h⟩
    revert h
    cases surface <;> decide
  obtain ⟨before, n, after, hsplit, hbefore, -, hcheck⟩ :=
    hrefuses ⟨Contract.requiresVersion, Contract.abiMajor, ["frob"],
      [⟨"", "\": \""⟩, ⟨"up", "+"⟩]⟩ rfl rfl fun h => hempty (h _ List.mem_cons_self)
  cases before with
  | nil =>
    obtain ⟨rfl, -⟩ := List.cons.inj hsplit
    exact ⟨_, hcheck, hcheckChain.values (_, _)⟩
  | cons b before =>
    obtain ⟨rfl, -⟩ := List.cons.inj hsplit
    exact absurd (hbefore _ List.mem_cons_self) hempty

end PrimitiveAbi
