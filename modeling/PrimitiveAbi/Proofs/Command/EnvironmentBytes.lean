import PrimitiveAbi.Proofs.Command.Environment
import PrimitiveAbi.Proofs.Command.Exits
import PrimitiveAbi.Proofs.Spelling

/-!
# The bytes of the environment variable

The environment holds bytes, and the filter is read from a text. Bytes that are the UTF-8 of a text
name a filter or are refused with a message about the variable; all others go unnoticed, and every
surface is covered as if the variable were not set (`environment_bytes_decide`).
-/

namespace PrimitiveAbi

open Text

/-- The text says the filter: by its name in any letter case with white space around it, or, where
all surfaces are meant, by nothing but white space. -/
def SurfaceFilter.IsSaidBy (filter : SurfaceFilter) (text : String) : Prop :=
  IsSpelling filter.name text ∨ filter = .all ∧ IsBlankText text

/-- The bytes are the UTF-8 of a text. -/
def IsEncodedText (bytes : ByteArray) : Prop :=
  ∃ text : String, text.toUTF8 = bytes

namespace SurfaceFilter

theorem isSaidBy_only_iff {f : Surface} {text : String} :
    (only f).IsSaidBy text ↔ IsSpelling f.name text := by
  cases f <;> simp [IsSaidBy, only, name, Surface.name]

theorem isSaidBy_all_iff {text : String} :
    all.IsSaidBy text ↔ IsSpelling "all" text ∨ IsBlankText text := by
  simp [IsSaidBy, name]

theorem parse_eq_ok_iff {text : String} {filter : SurfaceFilter} :
    parse text = .ok filter ↔ filter.IsSaidBy text := by
  have honly : ∀ f, parse text = .ok (only f) ↔ (only f).IsSaidBy text := fun f =>
    parse_only_iff.trans (Surface.parse_eq_ok_iff.trans isSaidBy_only_iff.symm)
  cases filter with
  | spelled => exact honly .spelled
  | symbolic => exact honly .symbolic
  | all => exact parse_all_iff.trans isSaidBy_all_iff.symm

theorem parse_of_unsaid {text : String} (h : ∀ filter : SurfaceFilter, ¬ filter.IsSaidBy text) :
    parse text = .error ⟨text⟩ := by
  cases hparse : parse text with
  | ok filter => exact absurd (parse_eq_ok_iff.1 hparse) (h filter)
  | error e => rw [parse_eq_error hparse]

theorem resolve_text_eq_ok_iff {text : String} {filter : SurfaceFilter} :
    resolve none (some text) = .ok filter ↔ filter.IsSaidBy text := by
  rw [← parse_eq_ok_iff, resolve]
  cases parse text <;> simp [Except.mapError]

theorem resolve_of_unsaid {text : String} (h : ∀ filter : SurfaceFilter, ¬ filter.IsSaidBy text) :
    resolve none (some text) = .error ⟨text⟩ := by
  rw [resolve, parse_of_unsaid h]
  rfl

theorem environmentText_of_not_isEncodedText {bytes : ByteArray} (h : ¬ IsEncodedText bytes) :
    environmentText (some bytes) = none := by
  cases hread : String.fromUTF8? bytes with
  | none => exact hread
  | some text => exact absurd ⟨text, Command.toUTF8_of_fromUTF8? hread⟩ h

end SurfaceFilter

theorem EnvironmentError.head?_chain (e : EnvironmentError) :
    e.chain.head? = some ("invalid environment variable DOIT_ABI_SURFACE=" ++ quote e.value) :=
  congrArg (fun front => some (front ++ quote e.value)) (by decide)

namespace Command

theorem filterInForce_toUTF8 (text : String) :
    filterInForce none (some text.toUTF8) = SurfaceFilter.resolve none (some text) :=
  congrArg (SurfaceFilter.resolve none) (SurfaceFilter.environmentText_toUTF8 (some text))

section

variable {bytes : ByteArray} (h : ¬ IsEncodedText bytes)

include h

theorem filterInForce_of_not_isEncodedText (flag : Option SurfaceFilter) :
    filterInForce flag (some bytes) = filterInForce flag none :=
  congrArg (SurfaceFilter.resolve flag) (SurfaceFilter.environmentText_of_not_isEncodedText h)

theorem run_of_not_isEncodedText (tree : FileTree) (arguments : List String) :
    run tree (some bytes) arguments = run tree none arguments := by
  cases asks arguments with
  | nothing hnone => simp only [run, hnone]
  | check hcheck => simp only [run, hcheck, Invocation.run, Invocation.product]
  | mangle hmangle => simp only [run, hmangle, Invocation.run, Invocation.product]
  | publication hsubcommand hrest =>
    rw [run_publication hsubcommand hrest, run_publication hsubcommand hrest, publish, publish,
      filterInForce_of_not_isEncodedText h]

end

/-- Without a flag, a text in the variable decides the filter if it says one and is refused
otherwise, with a message about the variable. With bytes that are no text the filter is the one that
covers all surfaces, and every run is the same as without the variable. -/
theorem environment_bytes_decide (bytes : ByteArray) :
    (∀ text : String, text.toUTF8 = bytes →
      (∀ filter, filterInForce none (some bytes) = .ok filter ↔ filter.IsSaidBy text) ∧
      ((∀ filter : SurfaceFilter, ¬ filter.IsSaidBy text) →
        ∃ e, filterInForce none (some bytes) = .error e ∧
          e.chain.head? =
            some ("invalid environment variable DOIT_ABI_SURFACE=" ++ quote text))) ∧
    (¬ IsEncodedText bytes →
      filterInForce none (some bytes) = .ok .all ∧
        ∀ tree arguments, run tree (some bytes) arguments = run tree none arguments) := by
  constructor
  · rintro text rfl
    rw [filterInForce_toUTF8]
    refine ⟨fun filter => SurfaceFilter.resolve_text_eq_ok_iff, fun hunsaid => ?_⟩
    exact ⟨⟨text⟩, SurfaceFilter.resolve_of_unsaid hunsaid, EnvironmentError.head?_chain ⟨text⟩⟩
  · intro hbytes
    exact ⟨filterInForce_of_not_isEncodedText hbytes none, run_of_not_isEncodedText hbytes⟩

theorem fromUTF8?_stray : String.fromUTF8? ⟨#[0xff]⟩ = none := by decide

theorem not_isEncodedText_stray : ¬ IsEncodedText ⟨#[0xff]⟩ := by
  rintro ⟨text, htext⟩
  have hread := SurfaceFilter.environmentText_toUTF8 (some text)
  rw [Option.map_some, htext] at hread
  exact nomatch fromUTF8?_stray.symm.trans hread

theorem not_isSaidBy_up (filter : SurfaceFilter) : ¬ filter.IsSaidBy "up" := by
  rw [← SurfaceFilter.parse_eq_ok_iff]
  cases filter <;> decide

/-- A name in large letters, a word that says no filter, and a byte that begins no character. -/
theorem environment_bytes_decide_each :
    filterInForce none (some " SYMBOLIC\n".toUTF8) = .ok .symbolic ∧
      (∃ e, filterInForce none (some "up".toUTF8) = .error e ∧
        e.chain.head? = some ("invalid environment variable DOIT_ABI_SURFACE=" ++ quote "up")) ∧
      filterInForce none (some ⟨#[0xff]⟩) = .ok .all ∧
      run (.ofFiles []) (some ⟨#[0xff]⟩) ["header"] = run (.ofFiles []) none ["header"] := by
  refine ⟨?_, ?_, ?_⟩
  · exact (((environment_bytes_decide _).1 " SYMBOLIC\n" rfl).1 .symbolic).2
      (SurfaceFilter.parse_eq_ok_iff.1 (by decide))
  · exact ((environment_bytes_decide _).1 "up" rfl).2 not_isSaidBy_up
  · obtain ⟨hall, hrun⟩ := (environment_bytes_decide _).2 not_isEncodedText_stray
    exact ⟨hall, hrun (.ofFiles []) ["header"]⟩

/-- A filter may come from bytes that say none: a stray byte passes for a variable that is not set. -/
theorem stray_byte_passes :
    ¬ ∀ (bytes : ByteArray) (filter : SurfaceFilter),
      filterInForce none (some bytes) = .ok filter →
        ∃ text : String, text.toUTF8 = bytes ∧ filter.IsSaidBy text := by
  intro h
  obtain ⟨text, htext, -⟩ := h ⟨#[0xff]⟩ .all
    (filterInForce_of_not_isEncodedText not_isEncodedText_stray none)
  exact not_isEncodedText_stray ⟨text, htext⟩

end Command

end PrimitiveAbi
