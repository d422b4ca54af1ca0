import PrimitiveAbi.Command.Run
import PrimitiveAbi.Proofs.Command.Arguments

/-!
# Subcommands

The two publishing subcommands differ in the text that they write and in nothing else
(`publishedText?`), so that arguments ask for one of three things or for nothing (`Asks`), and the
run of each is an equation.
-/

namespace PrimitiveAbi.Command

/-- What a publishing subcommand writes, from the filter in force. -/
def publishedText? : String → Option (SurfaceFilter → String)
  | "manifest" => some manifestText
  | "header" => some headerText
  | _ => none

/-- The run of a publishing subcommand on options that follow the rules. -/
def publish (tree : FileTree) (environment : Option ByteArray) (text : SurfaceFilter → String)
    (surface : Option SurfaceFilter) (out : Option String) : Outcome :=
  match filterInForce surface environment with
  | .error e => .refuse tree (.environment e)
  | .ok filter => Product.publish { text := text filter, out } tree

/-- What arguments ask for. -/
inductive Asks : List String → Prop
  | nothing {arguments : List String} : Invocation.ofArguments? arguments = none → Asks arguments
  | publication {subcommand : String} {rest : List String} {text : SurfaceFilter → String}
      {surface : Option SurfaceFilter} {out : Option String} :
      publishedText? subcommand = some text → publication rest = some (surface, out) →
      Asks (subcommand :: rest)
  | check {rest : List String} {path : String} :
      Invocation.ofArguments? ("check" :: rest) = some (.check path) → Asks ("check" :: rest)
  | mangle {rest names : List String} :
      Invocation.ofArguments? ("mangle" :: rest) = some (.mangle names) → Asks ("mangle" :: rest)

theorem publishedText?_eq_some {subcommand : String} {text : SurfaceFilter → String}
    (h : publishedText? subcommand = some text) :
    subcommand = "manifest" ∧ text = manifestText ∨ subcommand = "header" ∧ text = headerText := by
  unfold publishedText? at h
  split at h
  · exact .inl ⟨rfl, (Option.some.inj h).symm⟩
  · exact .inr ⟨rfl, (Option.some.inj h).symm⟩
  · exact nomatch h

theorem exists_publishedText?_iff {subcommand : String} :
    (∃ text, publishedText? subcommand = some text) ↔ subcommand ∈ ["manifest", "header"] := by
  constructor
  · rintro ⟨text, h⟩
    rcases publishedText?_eq_some h with ⟨rfl, -⟩ | ⟨rfl, -⟩ <;> decide
  · intro h
    obtain rfl | rfl : subcommand = "manifest" ∨ subcommand = "header" := by simpa using h
    · exact ⟨manifestText, rfl⟩
    · exact ⟨headerText, rfl⟩

/-- The name of a publishing subcommand is no option. -/
theorem splitOption_of_publishedText? {subcommand : String} {text : SurfaceFilter → String}
    (h : publishedText? subcommand = some text) : splitOption subcommand = none := by
  rcases publishedText?_eq_some h with ⟨rfl, -⟩ | ⟨rfl, -⟩ <;> decide

section

variable {subcommand : String} {rest : List String} {text : SurfaceFilter → String}

/-- The options of a publishing subcommand follow the rules exactly if they are a publication. -/
theorem ofArguments?_isSome_iff (h : publishedText? subcommand = some text) :
    (Invocation.ofArguments? (subcommand :: rest)).isSome = true ↔
      ∃ surface out, publication rest = some (surface, out) := by
  rcases publishedText?_eq_some h with ⟨rfl, -⟩ | ⟨rfl, -⟩ <;>
    rcases hrest : publication rest with _ | ⟨surface, out⟩ <;> simp [Invocation.ofArguments?, hrest]

theorem run_publication (h : publishedText? subcommand = some text)
    {surface : Option SurfaceFilter} {out : Option String}
    (hrest : publication rest = some (surface, out)) (tree : FileTree)
    (environment : Option ByteArray) :
    run tree environment (subcommand :: rest) = publish tree environment text surface out := by
  rcases publishedText?_eq_some h with ⟨rfl, rfl⟩ | ⟨rfl, rfl⟩ <;>
    simp only [run, Invocation.ofArguments?, hrest, Option.bind_eq_bind, Option.bind_some,
      Option.pure_def, Invocation.run, Invocation.product, publish] <;>
    cases filterInForce surface environment <;> rfl

end

theorem asks (arguments : List String) : Asks arguments := by
  cases h : Invocation.ofArguments? arguments with
  | none => exact .nothing h
  | some i =>
    have hread := h
    unfold Invocation.ofArguments? at hread
    split at hread
    · obtain ⟨⟨surface, out⟩, hrest, -⟩ := Option.bind_eq_some_iff.1 hread
      exact .publication rfl hrest
    · obtain ⟨⟨surface, out⟩, hrest, -⟩ := Option.bind_eq_some_iff.1 hread
      exact .publication rfl hrest
    · obtain ⟨given, -, hgiven⟩ := Option.bind_eq_some_iff.1 hread
      split at hgiven
      · exact nomatch hgiven
      · obtain ⟨path, -, hpath⟩ := Option.bind_eq_some_iff.1 hgiven
        obtain rfl := Option.some.inj hpath
        exact .check h
    · obtain ⟨names, -, hnames⟩ := Option.bind_eq_some_iff.1 hread
      split at hnames
      · exact nomatch hnames
      · obtain rfl := Option.some.inj hnames
        exact .mangle h
    · exact nomatch hread

end PrimitiveAbi.Command
