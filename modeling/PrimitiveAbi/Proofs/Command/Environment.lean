import PrimitiveAbi.Proofs.Command.Subcommands

/-!
# What depends on the environment

The variable of the environment stands in for `--surface` where a publishing subcommand is not given
that option, and no run depends on it otherwise (`environment_stands_in`).
-/

namespace PrimitiveAbi

namespace SurfaceFilter

/-- Text in the variable is read as that text. -/
theorem environmentText_toUTF8 (value : Option String) :
    environmentText (value.map String.toUTF8) = value := by
  cases value with
  | none => rfl
  | some text => exact dif_pos text.isValidUTF8

theorem parse_eq_error {s : String} {e : FilterError} (h : parse s = .error e) : e = ⟨s⟩ := by
  unfold parse at h
  split at h
  · exact nomatch h
  · split at h
    · exact nomatch h
    · split at h
      · exact nomatch h
      · exact (Except.error.inj h).symm

/-- Only a text in the variable can be at fault, and the error shows it. -/
theorem resolve_eq_error {value : Option String} {error : EnvironmentError}
    (h : resolve none value = .error error) : value = some error.value := by
  cases value with
  | none => exact nomatch h
  | some text =>
    cases hparse : parse text with
    | ok filter =>
      rw [resolve, hparse] at h
      exact nomatch h
    | error e =>
      rw [resolve, hparse] at h
      obtain rfl := Except.error.inj h
      rw [parse_eq_error hparse]

end SurfaceFilter

namespace Command

/-! ### Runs that leave the variable aside -/

/-- Arguments with which a run has no use for the variable. -/
def LeaveEnvironment (arguments : List String) : Prop :=
  Invocation.ofArguments? arguments = none ∨ arguments.head? = some "check" ∨
    arguments.head? = some "mangle" ∨ Names "surface" arguments

theorem names_cons_of_publishedText? {subcommand option : String} {rest : List String}
    {text : SurfaceFilter → String} (h : publishedText? subcommand = some text) :
    Names option (subcommand :: rest) ↔ Names option rest := by
  simp [Names, splitOption_of_publishedText? h]

theorem run_of_leaveEnvironment (tree : FileTree) {arguments : List String}
    (h : LeaveEnvironment arguments) (e₁ e₂ : Option ByteArray) :
    run tree e₁ arguments = run tree e₂ arguments := by
  cases asks arguments with
  | nothing hnone => simp only [run, hnone]
  | check hcheck => simp only [run, hcheck, Invocation.run, Invocation.product]
  | mangle hmangle => simp only [run, hmangle, Invocation.run, Invocation.product]
  | @publication subcommand rest text surface out hsubcommand hrest =>
    -- such arguments ask for something, so of the four reasons only a surface is left
    have hnames : Names "surface" (subcommand :: rest) := by
      rcases h with hnone | hhead | hhead | hnames
      · have hsome := (ofArguments?_isSome_iff hsubcommand).2 ⟨surface, out, hrest⟩
        rw [hnone] at hsome
        exact absurd hsome (by decide)
      · obtain rfl := Option.some.inj hhead
        exact absurd (exists_publishedText?_iff.1 ⟨text, hsubcommand⟩) (by decide)
      · obtain rfl := Option.some.inj hhead
        exact absurd (exists_publishedText?_iff.1 ⟨text, hsubcommand⟩) (by decide)
      · exact hnames
    rw [names_cons_of_publishedText? hsubcommand, names_surface_iff hrest] at hnames
    obtain ⟨filter, rfl⟩ := Option.isSome_iff_exists.1 hnames
    rw [run_publication hsubcommand hrest, run_publication hsubcommand hrest]
    rfl

/-! ### Runs that the variable decides -/

section

variable {value : Option String} (tree : FileTree) (text : SurfaceFilter → String)
  (out : Option String)

theorem publish_of_resolve_eq_ok {filter : SurfaceFilter}
    (h : SurfaceFilter.resolve none value = .ok filter) (environment : Option ByteArray) :
    publish tree (value.map String.toUTF8) text none out =
      publish tree environment text (some filter) out := by
  rw [publish, filterInForce, SurfaceFilter.environmentText_toUTF8, h]
  rfl

theorem publish_of_resolve_eq_error {error : EnvironmentError}
    (h : SurfaceFilter.resolve none value = .error error) :
    publish tree (value.map String.toUTF8) text none out = .refuse tree (.environment error) := by
  rw [publish, filterInForce, SurfaceFilter.environmentText_toUTF8, h]

end

theorem Complaint.message_of_chain {c : Complaint} {outer inner : String}
    (h : c.chain = [outer, inner]) :
    c.message = "doit-abi: " ++ outer ++ ": " ++ inner ++ "\n" := by
  rw [message, h, String.intercalate_cons_cons, String.intercalate_singleton]
  simp only [String.append_assoc]

/-- How a run ends that does not know what to make of the text in the variable. -/
structure Outcome.RefusesSurface (o : Outcome) (tree : FileTree) (text : String) : Prop where
  status : o.status = 2
  stdout : o.stdout = ""
  stderr : o.stderr = "doit-abi: invalid environment variable DOIT_ABI_SURFACE=" ++
    Text.quote text ++ ": invalid surface " ++ Text.quote text ++
    " (expected one of: spelled, symbolic, all)\n"
  tree : o.tree = tree

theorem refusesSurface_environment (tree : FileTree) (text : String) :
    (Outcome.refuse tree (.environment ⟨text⟩)).RefusesSurface tree text where
  status := rfl
  stdout := rfl
  stderr := by
    have hvariable : "doit-abi: invalid environment variable DOIT_ABI_SURFACE=" =
        "doit-abi: " ++ ("invalid environment variable " ++
          (SurfaceFilter.environmentVariable ++ "=")) := by decide
    have hmessage : FilterError.message ⟨text⟩ = "invalid surface " ++ Text.quote text ++
        " (expected one of: spelled, symbolic, all)" := rfl
    have hsurface : ": invalid surface " = ": " ++ "invalid surface " := by decide
    have hexpected : " (expected one of: spelled, symbolic, all)\n" =
        " (expected one of: spelled, symbolic, all)" ++ "\n" := by decide
    calc (Outcome.refuse tree (.environment ⟨text⟩)).stderr
      _ = "doit-abi: " ++ ("invalid environment variable " ++ SurfaceFilter.environmentVariable ++
            "=" ++ Text.quote text) ++ ": " ++ FilterError.message ⟨text⟩ ++ "\n" :=
          Complaint.message_of_chain rfl
      _ = "doit-abi: " ++ ("invalid environment variable " ++
            (SurfaceFilter.environmentVariable ++ "=")) ++ Text.quote text ++
            (": " ++ "invalid surface ") ++ Text.quote text ++
            (" (expected one of: spelled, symbolic, all)" ++ "\n") := by
          simp only [hmessage, String.append_assoc]
      _ = _ := by rw [← hvariable, ← hsurface, ← hexpected]
  tree := rfl

/-- Where no surface is asked for, a run with the variable is one with the surface that the variable
names, or it refuses the text; every other run is the same whatever the variable holds. -/
theorem environment_stands_in (tree : FileTree) :
    (∀ arguments, LeaveEnvironment arguments →
      ∀ e₁ e₂, run tree e₁ arguments = run tree e₂ arguments) ∧
    ∀ subcommand ∈ ["manifest", "header"], ∀ rest,
      (Invocation.ofArguments? (subcommand :: rest)).isSome = true → ¬ Names "surface" rest →
      ∀ value : Option String,
        (∀ filter, SurfaceFilter.resolve none value = .ok filter →
          ∀ e, run tree (value.map String.toUTF8) (subcommand :: rest) =
            run tree e (subcommand :: "--surface" :: filter.name :: rest)) ∧
        ∀ error, SurfaceFilter.resolve none value = .error error →
          ∃ text, value = some text ∧
            (run tree (some text.toUTF8) (subcommand :: rest)).RefusesSurface tree text := by
  refine ⟨fun arguments h => run_of_leaveEnvironment tree h, ?_⟩
  intro subcommand hmem rest hsome hnames value
  obtain ⟨text, htext⟩ := exists_publishedText?_iff.2 hmem
  obtain ⟨surface, out, hrest⟩ := (ofArguments?_isSome_iff htext).1 hsome
  obtain rfl : surface = none := by
    rwa [names_surface_iff hrest, Bool.not_eq_true, Option.isSome_eq_false_iff,
      Option.isNone_iff_eq_none] at hnames
  constructor
  · intro filter hfilter e
    rw [run_publication htext hrest, run_publication htext (publication_surface hrest filter)]
    exact publish_of_resolve_eq_ok tree text out hfilter e
  · intro error herror
    have hvalue := SurfaceFilter.resolve_eq_error herror
    refine ⟨error.value, hvalue, ?_⟩
    have hpublish := publish_of_resolve_eq_error tree text out herror
    rw [hvalue, Option.map_some] at hpublish
    rw [run_publication htext hrest, hpublish]
    exact refusesSurface_environment tree error.value

/-- Names are translated whatever the variable holds, blanks and letter case in it do not matter,
and a word that names no surface is refused. -/
theorem environment_stands_in_words :
    run (.ofFiles []) (some "up".toUTF8) ["mangle", "+"] =
        run (.ofFiles []) none ["mangle", "+"] ∧
      run (.ofFiles []) (some " Symbolic ".toUTF8) ["header"] =
        run (.ofFiles []) none ["header", "--surface", "symbolic"] ∧
      (run (.ofFiles []) (some "up".toUTF8) ["manifest", "--out", "m.json"]).RefusesSurface
        (.ofFiles []) "up" := by
  obtain ⟨haside, hstands⟩ := environment_stands_in (.ofFiles [])
  have hout : splitOption "--out" = some ("out", none) := by decide
  have hfile : splitOption "m.json" = none := by decide
  refine ⟨haside _ (.inr (.inr (.inl rfl))) _ _, ?_, ?_⟩
  · exact (hstands "header" (by decide) [] (by decide) (by simp [Names]) (some " Symbolic ")).1
      .symbolic (by rfl) none
  · obtain ⟨text, htext, hrefuses⟩ := (hstands "manifest" (by decide) ["--out", "m.json"]
      (by decide) (by simp [Names, hout, hfile]) (some "up")).2 ⟨"up"⟩ (by rfl)
    obtain rfl := Option.some.inj htext
    exact hrefuses

end Command

end PrimitiveAbi
