import PrimitiveAbi.Proofs.Command.Environment
import PrimitiveAbi.Proofs.Document.Scalar
import PrimitiveAbi.Proofs.Json.Unique
import PrimitiveAbi.Proofs.Requests
import PrimitiveAbi.Proofs.Spelling

/-!
# The readers of surfaces

Two readers take the spellings of the name of a surface, and two take the name only as it is
written. What the latter read as a filter the former read as the same filter
(`surface_readers_agree`), so a value may be moved from an option or a document to the environment.
-/

namespace PrimitiveAbi

open Text

/-! ### Readers that take a name as it is -/

/-- The value of the option `--surface` is the name of the filter that it asks for. -/
theorem Command.eq_name_of_publication {arguments : List String} {given : List (String × String)}
    {f : SurfaceFilter} {out : Option String} {s : String}
    (h : publication arguments = some (some f, out))
    (hgiven : options ["surface", "out"] arguments = some given)
    (hs : given.lookup "surface" = some s) : s = f.name := by
  obtain ⟨given', hspells, -, hsurface, -⟩ := publication_eq_some_iff.1 h
  rw [← options_eq_some_iff, hgiven] at hspells
  obtain rfl := Option.some.inj hspells
  exact Option.some.inj (hs.symm.trans hsurface)

/-- A string that is read as a filter is the name of the filter. -/
theorem Document.eq_name_of_readFilter {cs rest rest' : List Char} {s : String}
    {f : SurfaceFilter} (hs : Json.Spells (.text s) cs rest)
    (h : readFilter cs = .ok (f, rest')) : s = f.name := by
  cases hs with
  | text hgap hbody =>
    rw [readFilter, Json.next_eq_ok_iff.2 ⟨hgap, rfl⟩] at h
    exact String.toList_inj.1 (hbody.unique (filterName_eq_ok_iff.1 h)).1

/-- The reader of surfaces takes the spellings of their names. The reader of filters takes the same
texts as these, and as all surfaces the spellings of `all` and white space. Either refuses every
other text and hands it back as it is. What is a filter as the value of an option or as a JSON string
is the same filter to this reader, which also decides on the environment variable where no option is
given. -/
theorem surface_readers_agree :
    (∀ s f, Surface.parse s = .ok f ↔ IsSpelling f.name s) ∧
    (∀ s f, SurfaceFilter.parse s = .ok (.only f) ↔ Surface.parse s = .ok f) ∧
    (∀ s, SurfaceFilter.parse s = .ok .all ↔ IsSpelling "all" s ∨ IsBlankText s) ∧
    (∀ s, (∀ f, Surface.parse s ≠ .ok f) → Surface.parse s = .error ⟨s⟩) ∧
    (∀ s, (∀ f, SurfaceFilter.parse s ≠ .ok f) → SurfaceFilter.parse s = .error ⟨s⟩) ∧
    (∀ arguments given s f out, Command.options ["surface", "out"] arguments = some given →
      given.lookup "surface" = some s → Command.publication arguments = some (some f, out) →
      SurfaceFilter.parse s = .ok f) ∧
    (∀ cs s rest f rest', Json.Spells (.text s) cs rest →
      Document.readFilter cs = .ok (f, rest') → SurfaceFilter.parse s = .ok f) ∧
    (∀ f value, SurfaceFilter.resolve (some f) value = .ok f) ∧
    SurfaceFilter.resolve none none = .ok .all ∧
    ∀ s f, SurfaceFilter.resolve none (some s) = .ok f ↔ SurfaceFilter.parse s = .ok f := by
  refine ⟨fun s f => Surface.parse_eq_ok_iff, fun s f => SurfaceFilter.parse_only_iff,
    fun s => SurfaceFilter.parse_all_iff, ?_, ?_, ?_, ?_, fun f value => rfl, rfl, ?_⟩
  · intro s h
    exact Surface.parse_eq_error fun ⟨f, hf⟩ => h f hf
  · intro s h
    cases hparse : SurfaceFilter.parse s with
    | ok f => exact absurd hparse (h f)
    | error e => rw [SurfaceFilter.parse_eq_error hparse]
  · intro arguments given s f out hgiven hs h
    rw [Command.eq_name_of_publication h hgiven hs, SurfaceFilter.parse_name]
  · intro cs s rest f rest' hs h
    rw [Document.eq_name_of_readFilter hs h, SurfaceFilter.parse_name]
  · intro s f
    rw [SurfaceFilter.resolve]
    cases SurfaceFilter.parse s <;> simp [Except.mapError]

/-- A name in mixed case between an em space and a line feed is read by both, white space as all
surfaces by one of them, and what is refused keeps its space and its capital. An option behind an
equals sign and a string with an escape are read as the same filters. -/
theorem surface_readers_agree_spellings :
    Surface.parse "\u2003SpelleD\n" = .ok .spelled ∧
    SurfaceFilter.parse "\u2003SpelleD\n" = .ok .spelled ∧
    SurfaceFilter.parse "\t\u00a0" = .ok .all ∧
    Surface.parse "\t\u00a0" = .error ⟨"\t\u00a0"⟩ ∧
    SurfaceFilter.parse " Both" = .error ⟨" Both"⟩ ∧
    SurfaceFilter.parse "symbolic" = .ok .symbolic ∧
    SurfaceFilter.parse "all" = .ok .all := by
  obtain ⟨hsurface, hsame, hall, hrefuse, hrefuses, hflag, hjson, -⟩ := surface_readers_agree
  have hspelled : Surface.parse "\u2003SpelleD\n" = .ok .spelled := by
    refine (hsurface _ _).2 ⟨['\u2003'], "SpelleD".toList, ['\n'], by decide,
      List.all_eq_true.1 (by decide), ?_⟩
    exact (map_toLower_eq_iff (Surface.inSmallLetters_name .spelled)).1 (by decide)
  refine ⟨hspelled, (hsame _ .spelled).2 hspelled, (hall _).2 (.inr (by decide)),
    hrefuse _ ?_, hrefuses _ ?_, ?_, ?_⟩
  · intro f
    cases f <;> decide
  · intro f
    cases f <;> decide
  · exact hflag ["--out", "m.json", "--surface=symbolic"] _ "symbolic" .symbolic (some "m.json")
      rfl rfl (by decide)
  · have hspells : Json.Spells (.text "all") "\"\\u0061ll\"".toList [] :=
      .text .nil (.code (by decide) (.plain (by decide) (by decide) (by decide)
        (.plain (by decide) (by decide) (by decide) .close)))
    exact hjson _ "all" _ .all _ hspells
      (Document.complete_readFilter hspells (.inl rfl) Json.numberEnds_nil)

end PrimitiveAbi
