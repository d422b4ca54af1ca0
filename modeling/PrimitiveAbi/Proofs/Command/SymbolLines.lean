import PrimitiveAbi.Command.Run
import PrimitiveAbi.Proofs.Header.Reading
import PrimitiveAbi.Proofs.Symbols

/-!
# The symbols of names, line by line

The subcommand `mangle` takes names as they are behind `--`, and before it those that do not look
like an option (`ordinary_eq_some_iff`). It shows their symbols on a line each. A symbol is a word,
so a line feed in a name does not get into the output, and the lines are the symbols of the names
in order, one for each (`splitOn_symbolLines`).
-/

namespace PrimitiveAbi.Command

open Mangling

/-! ### Names among the arguments -/

/-- The argument starts with a hyphen and is more than that. -/
def IsDashed (argument : String) : Prop :=
  argument.toList.head? = some '-' ∧ argument ≠ "-"

instance (argument : String) : Decidable (IsDashed argument) :=
  inferInstanceAs (Decidable (_ ∧ _))

theorem isOrdinary_iff {argument : String} : isOrdinary argument = true ↔ ¬ IsDashed argument := by
  simp only [isOrdinary, IsDashed, Bool.or_eq_true, decide_eq_true_eq, ne_eq]
  tauto

/-- The names are the arguments before `--`, none of which may look like an option, and all behind
it. -/
theorem ordinary_eq_some_iff {arguments names : List String} :
    ordinary arguments = some names ↔
      (∀ a ∈ arguments.takeWhile (· ≠ "--"), ¬ IsDashed a) ∧
        arguments.takeWhile (· ≠ "--") ++ (arguments.dropWhile (· ≠ "--")).tail = names := by
  induction arguments generalizing names with
  | nil => simp [ordinary]
  | cons a rest ih =>
    rw [ordinary]
    by_cases ha : a = "--"
    · simp [ha]
    · rw [if_neg ha, List.takeWhile_cons_of_pos (by simpa using ha),
        List.dropWhile_cons_of_pos (by simpa using ha), List.forall_mem_cons, ← isOrdinary_iff]
      cases isOrdinary a with
      | false => simp
      | true => simp [ih, Option.map_eq_some_iff]

/-- No argument is skipped where none looks like an option, since the terminator does. -/
theorem ordinary_of_forall {names : List String} (h : ∀ n ∈ names, ¬ IsDashed n) :
    ordinary names = some names := by
  have hterminator : IsDashed "--" := by decide
  have hnames : ∀ n ∈ names, decide (n ≠ "--") = true := by
    intro n hn
    rw [decide_eq_true_eq]
    rintro rfl
    exact h _ hn hterminator
  rw [ordinary_eq_some_iff, List.takeWhile_eq_self_iff.2 hnames, List.dropWhile_eq_nil_iff.2 hnames]
  exact ⟨h, List.append_nil names⟩

theorem ordinary_eq_none {arguments : List String}
    (h : ∃ a ∈ arguments.takeWhile (· ≠ "--"), IsDashed a) : ordinary arguments = none := by
  obtain ⟨a, ha, hdashed⟩ := h
  rw [Option.eq_none_iff_forall_ne_some]
  intro names hnames
  exact (ordinary_eq_some_iff.1 hnames).1 a ha hdashed

/-! ### Runs -/

section

variable (tree : FileTree) (environment : Option ByteArray)

theorem run_mangle {arguments names : List String} (h : ordinary arguments = some names)
    (hne : names ≠ []) :
    run tree environment ("mangle" :: arguments) = { stdout := symbolLines names, tree } := by
  have hask : Invocation.ofArguments? ("mangle" :: arguments) = some (.mangle names) := by
    simp [Invocation.ofArguments?, h, hne]
  rw [run, hask]
  rfl

theorem run_mangle_of_ordinary_eq_none {arguments : List String} (h : ordinary arguments = none) :
    run tree environment ("mangle" :: arguments) = .refuse tree .usage := by
  have hask : Invocation.ofArguments? ("mangle" :: arguments) = none := by
    simp [Invocation.ofArguments?, h]
  rw [run, hask]

end

/-- A symbol has no line feed, whatever its name has. -/
theorem newLine_not_mem_mangle (name : String) : '\n' ∉ (mangle name).toList := by
  intro hmem
  exact absurd (isWord_mangle name _ hmem) (by decide)

/-- The lines that are shown are the symbols. -/
theorem splitOn_symbolLines (names : List String) :
    (symbolLines names).toList.splitOn '\n' = names.map (fun n => (mangle n).toList) ++ [[]] := by
  have htext : (symbolLines names).toList = Header.text (names.map mangle) := by
    rw [symbolLines, String.toList_join, List.flatMap_map, Header.text, List.flatMap_map]
    simp
  have hlines : ∀ l ∈ names.map mangle, '\n' ∉ l.toList :=
    List.forall_mem_map.2 fun name _ => newLine_not_mem_mangle name
  rw [htext, Header.splitOn_text hlines, List.map_map]
  rfl

/-- How a run ends that shows the symbols of names, each on a line that a line feed ends. -/
structure Outcome.ShowsSymbols (o : Outcome) (tree : FileTree) (names : List String) : Prop where
  status : o.status = 0
  stderr : o.stderr = ""
  lines : o.stdout.toList.splitOn '\n' = names.map (fun n => (mangle n).toList) ++ [[]]
  tree : o.tree = tree

/-- How a run ends on arguments that follow no rule. -/
structure Outcome.RefusesArguments (o : Outcome) (tree : FileTree) : Prop where
  complaint : o.complaint = some .usage
  status : o.status = 2
  stdout : o.stdout = ""
  tree : o.tree = tree

/-- Behind `--` the symbols of all names are shown, whatever the names are, and without it the same
is shown of names that do not look like an option. Of other arguments, where none asks for help, one
that looks like an option is a usage error if no `--` stands before it. -/
theorem mangle_shows_symbols (tree : FileTree) (environment : Option ByteArray) :
    (∀ names, names ≠ [] →
      (run tree environment ("mangle" :: "--" :: names)).ShowsSymbols tree names) ∧
    (∀ names, (∀ n ∈ names, ¬ IsDashed n) →
      run tree environment ("mangle" :: names) =
        run tree environment ("mangle" :: "--" :: names)) ∧
    ∀ arguments, (∀ a ∈ arguments, a ≠ "--help" ∧ ¬ ['-', 'h'] <+: a.toList) →
      (∃ a ∈ arguments.takeWhile (· ≠ "--"), IsDashed a) →
      (run tree environment ("mangle" :: arguments)).RefusesArguments tree := by
  have hterminated : ∀ names, ordinary ("--" :: names) = some names := fun names => if_pos rfl
  refine ⟨?_, ?_, ?_⟩
  · intro names hne
    rw [run_mangle tree environment (hterminated names) hne]
    exact ⟨rfl, rfl, splitOn_symbolLines names, rfl⟩
  · intro names hnames
    simp only [run, Invocation.ofArguments?, ordinary_of_forall hnames, hterminated]
  · intro arguments _ hdashed
    rw [run_mangle_of_ordinary_eq_none tree environment (ordinary_eq_none hdashed)]
    exact ⟨rfl, rfl, rfl, rfl⟩

/-- An empty name has an empty line, and a line feed in a name is shown by its code point. A hyphen
alone is a name with and without `--`, and a number below zero only behind it. -/
theorem mangle_shows_symbols_dashed :
    (run (.ofFiles []) none ["mangle", "--", "", "-5", "a\nb"]).stdout.toList.splitOn '\n' =
      [[], "_5".toList, "a_10b".toList, []] ∧
    run (.ofFiles []) none ["mangle", "-", "<"] =
      run (.ofFiles []) none ["mangle", "--", "-", "<"] ∧
    (run (.ofFiles []) none ["mangle", "+", "-5", "--", "-"]).status = 2 := by
  obtain ⟨hshows, hsame, hrefuses⟩ := mangle_shows_symbols (.ofFiles []) none
  refine ⟨?_, hsame _ (by decide), (hrefuses _ (by decide) ⟨"-5", by decide, by decide⟩).status⟩
  rw [(hshows ["", "-5", "a\nb"] (by decide)).lines]
  decide

end PrimitiveAbi.Command
