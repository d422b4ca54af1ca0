import PrimitiveAbi.Proofs.Check
import PrimitiveAbi.Proofs.Command.Files
import PrimitiveAbi.Proofs.Command.Subcommands
import PrimitiveAbi.Proofs.Document.RoundTrip

/-!
# What an exit status promises

A run complains and leaves the files alone, reports on requirements, prints or saves. Each of these
endings keeps the contract of the command line (`Kept`), which says what the exit status promises of
the output streams and of the files (`run_keeps_contract`).
-/

namespace PrimitiveAbi.Command

open FileTree (SameFiles)

/-! ### The contract -/

/-- The file at a path holds a document of requirements. -/
def Holds (tree : FileTree) (path : String) (r : Requires) : Prop :=
  ∃ text : String, tree.read path = .ok text.toUTF8 ∧ Requires.parse text = .ok r

/-- Arguments that ask for a check, and the check reports this. -/
def Reports (tree : FileTree) (arguments : List String) (report : Report) : Prop :=
  ∃ path r, Invocation.ofArguments? arguments = some (.check path) ∧ Holds tree path r ∧
    r.check = .ok report

/-- The text is one line, which is a document of the report. -/
def IsLineOf (text : String) (report : Report) : Prop :=
  ∃ line : String, text = line ++ "\n" ∧ '\n' ∉ line.toList ∧ Report.parse line = .ok report

/-- Arguments that ask for a file to be written. -/
def WritesTo (arguments : List String) (path : String) : Prop :=
  ∃ subcommand ∈ ["manifest", "header"], ∃ rest surface,
    arguments = subcommand :: rest ∧ publication rest = some (surface, some path)

/-- The file at a path holds the text, and the other files are as before. -/
structure Saved (tree tree' : FileTree) (path text : String) : Prop where
  read : tree'.read path = .ok text.toUTF8
  file : tree'.fileAt? (placeOf path) = some text.toUTF8
  others : ∀ place, place ≠ placeOf path → tree'.fileAt? place = tree.fileAt? place

/-- The contract of the command line. -/
structure Kept (tree : FileTree) (environment : Option ByteArray) (arguments : List String)
    (o : Outcome) : Prop where
  status : o.status = 0 ∨ o.status = 1 ∨ o.status = 2
  /-- Success is silent on standard error. -/
  success : o.status = 0 → o.stderr = ""
  /-- A failure says why, on standard error alone, and leaves the files alone. -/
  failure : o.status = 2 → o.stdout = "" ∧ o.stderr ≠ "" ∧ SameFiles tree o.tree
  /-- Status 1 is for requirements that are checked and not met. -/
  missing : o.status = 1 → ∃ report, Reports tree arguments report ∧ report.missing ≠ []
  /-- A check that does not fail prints its report, and the status says the same as the report. -/
  report : arguments.head? = some "check" → o.status ≠ 2 →
    SameFiles tree o.tree ∧ ∃ report, Reports tree arguments report ∧ IsLineOf o.stdout report ∧
      (report.ok = true ↔ o.status = 0)
  /-- The one file that may change is the output that was asked for. -/
  changed : ∀ place, o.tree.fileAt? place ≠ tree.fileAt? place →
    ∃ path, WritesTo arguments path ∧ o.status = 0 ∧ place = placeOf path
  /-- That output is what is printed when none is asked for. -/
  saved : ∀ path, WritesTo arguments path → o.status = 0 →
    o.stdout = "" ∧ (run tree environment (withoutOption "out" arguments)).status = 0 ∧
      Saved tree o.tree path (run tree environment (withoutOption "out" arguments)).stdout

/-! ### Complaints -/

theorem Complaint.message_ne_empty (c : Complaint) : c.message ≠ "" := by
  intro h
  have htext := congrArg String.toList h
  simp [message] at htext

section

variable {tree tree' : FileTree} {environment : Option ByteArray} {arguments : List String}

theorem kept_of_refused {c : Complaint} (hc : c.status = 2) (hsame : SameFiles tree tree') :
    Kept tree environment arguments (.refuse tree' c) := by
  have hne : ∀ {n}, n ≠ 2 → (Outcome.refuse tree' c).status ≠ n := fun hn h => hn (h.symm.trans hc)
  exact {
    status := .inr (.inr hc)
    success := fun h => absurd h (hne (by decide))
    failure := fun _ => ⟨rfl, c.message_ne_empty, hsame⟩
    missing := fun h => absurd h (hne (by decide))
    report := fun _ h => absurd hc h
    changed := fun place h => absurd (hsame place) h
    saved := fun _ _ h => absurd h (hne (by decide)) }

/-! ### Reports -/

theorem toUTF8_of_fromUTF8? {bytes : ByteArray} {text : String}
    (h : String.fromUTF8? bytes = some text) : text.toUTF8 = bytes := by
  unfold String.fromUTF8? at h
  split at h
  · obtain rfl := Option.some.inj h
    rfl
  · exact nomatch h

theorem status_of_requiresIn {path : String} {content : Except OsError ByteArray} {c : Complaint}
    (h : requiresIn path content = .error c) : c.status = 2 := by
  unfold requiresIn at h
  split at h
  · obtain rfl := Except.error.inj h
    rfl
  · split at h
    · obtain rfl := Except.error.inj h
      rfl
    · split at h
      · obtain rfl := Except.error.inj h
        rfl
      · exact nomatch h

theorem holds_of_requiresIn {path : String} {r : Requires}
    (h : requiresIn path (tree.read path) = .ok r) : Holds tree path r := by
  unfold requiresIn at h
  split at h
  · exact nomatch h
  · next bytes hread =>
    split at h
    · exact nomatch h
    · next text htext =>
      split at h
      · exact nomatch h
      · next parsed hparse =>
        obtain rfl := Except.ok.inj h
        exact ⟨text, by rw [hread, toUTF8_of_fromUTF8? htext], hparse⟩

theorem status_of_checkFile {path : String} {content : Except OsError ByteArray} {c : Complaint}
    (h : checkFile path content = .error c) : c.status = 2 := by
  unfold checkFile at h
  split at h
  · next hrequires =>
    obtain rfl := Except.error.inj h
    exact status_of_requiresIn hrequires
  · next r _ =>
    cases hcheck : r.check with
    | error e =>
      rw [hcheck] at h
      obtain rfl := Except.error.inj h
      rfl
    | ok report =>
      rw [hcheck] at h
      exact nomatch h

theorem holds_of_checkFile {path : String} {report : Report}
    (h : checkFile path (tree.read path) = .ok report) :
    ∃ r, Holds tree path r ∧ r.check = .ok report := by
  unfold checkFile at h
  split at h
  · exact nomatch h
  · next r hrequires =>
    refine ⟨r, holds_of_requiresIn hrequires, ?_⟩
    cases hcheck : r.check with
    | error e =>
      rw [hcheck] at h
      exact nomatch h
    | ok checked =>
      rw [hcheck] at h
      exact congrArg Except.ok (Except.ok.inj h)

theorem isLineOf_compact (report : Report) : IsLineOf (report.compact ++ "\n") report := by
  refine ⟨report.compact, rfl, ?_, report.parse_compact⟩
  rw [Report.compact, Document.Shape.compact, String.toList_ofList]
  exact (Json.hasNoControl_compact _).newLine_not_mem

/-- The ending of a check that reports. -/
def reported (tree : FileTree) (report : Report) : Outcome where
  stdout := report.compact ++ "\n"
  complaint := if report.ok then none else some (.missing report.missing)
  tree := tree

theorem run_check {path : String}
    (h : Invocation.ofArguments? arguments = some (.check path)) :
    run tree environment arguments = match checkFile path (tree.read path) with
      | .error c => .refuse tree c
      | .ok report => reported tree report := by
  rw [run, h]
  dsimp only [Invocation.run, Invocation.product]
  cases checkFile path (tree.read path) <;> rfl

theorem ok_iff_of_check {r : Requires} {report : Report} (h : r.check = .ok report) :
    report.ok = true ↔ report.missing = [] := by
  obtain ⟨-, rfl⟩ := Requires.check_eq_ok_iff.1 h
  rw [Report.ok_eq, List.isEmpty_iff]

theorem not_writesTo_of_not_mem {subcommand path : String} {rest : List String}
    (h : subcommand ∉ ["manifest", "header"]) : ¬ WritesTo (subcommand :: rest) path := by
  rintro ⟨other, hmem, _, _, hcons, -⟩
  obtain rfl := (List.cons.inj hcons).1
  exact h hmem

theorem kept_of_reported {rest : List String} {report : Report}
    (h : Reports tree ("check" :: rest) report) :
    Kept tree environment ("check" :: rest) (reported tree report) := by
  obtain ⟨path, r, hask, hholds, hcheck⟩ := h
  have hstatus : (reported tree report).status = if report.ok = true then 0 else 1 := by
    unfold reported Outcome.status
    cases report.ok <;> rfl
  have hok : report.ok = true ↔ (reported tree report).status = 0 := by
    rw [hstatus]
    split <;> simp [*]
  exact {
    status := by
      rw [hstatus]
      split
      · exact .inl rfl
      · exact .inr (.inl rfl)
    success := by
      intro h
      unfold reported Outcome.stderr
      rw [hok.2 h]
      rfl
    failure := by
      intro h
      rw [hstatus] at h
      split at h <;> exact nomatch h
    missing := by
      intro h
      refine ⟨report, ⟨path, r, hask, hholds, hcheck⟩, fun hmissing => ?_⟩
      rw [hok.1 ((ok_iff_of_check hcheck).2 hmissing)] at h
      exact nomatch h
    report := fun _ _ => ⟨.refl tree, report, ⟨path, r, hask, hholds, hcheck⟩,
      isLineOf_compact report, hok⟩
    changed := fun _ h => absurd rfl h
    saved := fun _ h => absurd h (not_writesTo_of_not_mem (by decide)) }

/-! ### Texts that are printed or saved -/

theorem kept_of_success {o : Outcome} (h : o.complaint = none)
    (hcheck : arguments.head? ≠ some "check")
    (hchanged : ∀ place, o.tree.fileAt? place ≠ tree.fileAt? place →
      ∃ path, WritesTo arguments path ∧ place = placeOf path)
    (hsaved : ∀ path, WritesTo arguments path → o.stdout = "" ∧
      (run tree environment (withoutOption "out" arguments)).status = 0 ∧
        Saved tree o.tree path (run tree environment (withoutOption "out" arguments)).stdout) :
    Kept tree environment arguments o := by
  have hstatus : o.status = 0 := by rw [Outcome.status, h]
  exact {
    status := .inl hstatus
    success := fun _ => by rw [Outcome.stderr, h]
    failure := fun htwo => absurd (hstatus.symm.trans htwo) (by decide)
    missing := fun hone => absurd (hstatus.symm.trans hone) (by decide)
    report := fun hhead => absurd hhead hcheck
    changed := fun place hne =>
      have ⟨path, hwrites, hplace⟩ := hchanged place hne
      ⟨path, hwrites, hstatus, hplace⟩
    saved := fun path hwrites _ => hsaved path hwrites }

theorem kept_of_printed {text : String} (hcheck : arguments.head? ≠ some "check")
    (hwrites : ∀ path, ¬ WritesTo arguments path) :
    Kept tree environment arguments { stdout := text, tree } :=
  kept_of_success rfl hcheck (fun _ hne => absurd rfl hne)
    fun path hpath => absurd hpath (hwrites path)

theorem writesTo_iff {subcommand : String} {rest : List String} {text : SurfaceFilter → String}
    {surface : Option SurfaceFilter} {out : Option String} {path : String}
    (h : publishedText? subcommand = some text) (hrest : publication rest = some (surface, out)) :
    WritesTo (subcommand :: rest) path ↔ out = some path := by
  constructor
  · rintro ⟨_, _, _, _, hcons, hpublication⟩
    obtain ⟨rfl, rfl⟩ := List.cons.inj hcons
    rw [hrest] at hpublication
    exact (Prod.mk.inj (Option.some.inj hpublication)).2
  · rintro rfl
    exact ⟨subcommand, exists_publishedText?_iff.1 ⟨text, h⟩, rest, surface, rfl, hrest⟩

/-- The endings of saving: a complaint that leaves the files as they were, or the text is saved. -/
inductive Saves (tree : FileTree) (path text : String) : Outcome → Prop
  | refused {ready : FileTree} {c : Complaint} :
      c.status = 2 → SameFiles tree ready → Saves tree path text (.refuse ready c)
  | saved {written : FileTree} :
      Saved tree written path text → Saves tree path text { tree := written }

theorem saved_of_write {ready written : FileTree} {path text : String} (hready : SameFiles tree ready)
    (h : ready.write path text.toUTF8 = .ok written) : Saved tree written path text := by
  obtain ⟨hput, hnames⟩ := FileTree.eq_put_of_write h
  refine ⟨FileTree.read_of_write h, ?_, fun place hne => ?_⟩
  · rw [hput, FileTree.fileAt?_put_file hnames]
  · rw [hput, FileTree.fileAt?_put_of_ne hnames hne, hready]

theorem saves_writeText {ready : FileTree} {path text : String} (hready : SameFiles tree ready) :
    Saves tree path text (writeText ready path text) := by
  unfold writeText
  cases hwrite : ready.write path text.toUTF8 with
  | error e => exact .refused rfl hready
  | ok written => exact .saved (saved_of_write hready hwrite)

theorem saves_save (tree : FileTree) (path text : String) :
    Saves tree path text (save tree path text) := by
  unfold save
  cases parentPath? path with
  | none => exact saves_writeText (.refl tree)
  | some parent =>
    dsimp only
    have hsame := (tree.addsDirectories_makeDirectories parent).sameFiles
    generalize tree.makeDirectories parent = made at hsame ⊢
    cases made with
    | error halted => exact .refused rfl hsame
    | ok ready => exact saves_writeText hsame

theorem kept_of_publish {subcommand : String} {rest : List String} {text : SurfaceFilter → String}
    {surface : Option SurfaceFilter} {out : Option String}
    (h : publishedText? subcommand = some text) (hrest : publication rest = some (surface, out)) :
    Kept tree environment (subcommand :: rest) (publish tree environment text surface out) := by
  have hcheck : (subcommand :: rest).head? ≠ some "check" := by
    intro hhead
    obtain rfl := Option.some.inj hhead
    exact absurd (exists_publishedText?_iff.1 ⟨text, h⟩) (by decide)
  cases hfilter : filterInForce surface environment with
  | error e =>
    rw [publish, hfilter]
    exact kept_of_refused rfl (.refl tree)
  | ok filter =>
    cases out with
    | none =>
      rw [publish, hfilter]
      exact kept_of_printed hcheck fun path => by simp [writesTo_iff h hrest]
    | some path =>
      have hprinted : run tree environment (withoutOption "out" (subcommand :: rest)) =
          { stdout := text filter, tree } := by
        rw [withoutOption, splitOption_of_publishedText? h]
        dsimp only
        rw [run_publication h (publication_withoutOption hrest), publish, hfilter]
        rfl
      rw [publish, hfilter]
      dsimp only [Product.publish]
      have hsaves := saves_save tree path (text filter)
      generalize save tree path (text filter) = o at hsaves ⊢
      cases hsaves with
      | refused hc hready => exact kept_of_refused hc hready
      | saved hwritten =>
        refine kept_of_success rfl hcheck (fun place hne => ?_) fun other hother => ?_
        · exact ⟨path, (writesTo_iff h hrest).2 rfl,
            by_contra fun hplace => hne (hwritten.others place hplace)⟩
        · obtain rfl := Option.some.inj ((writesTo_iff h hrest).1 hother)
          rw [hprinted]
          exact ⟨rfl, rfl, hwritten⟩

/-- Every run keeps the contract, whatever the arguments, the variable and the files are. -/
theorem run_keeps_contract (tree : FileTree) (environment : Option ByteArray)
    (arguments : List String) :
    Kept tree environment arguments (run tree environment arguments) := by
  cases asks arguments with
  | nothing hnone =>
    rw [run, hnone]
    exact kept_of_refused rfl (.refl tree)
  | publication hsubcommand hrest =>
    rw [run_publication hsubcommand hrest]
    exact kept_of_publish hsubcommand hrest
  | @check rest path hask =>
    rw [run_check hask]
    cases hfile : checkFile path (tree.read path) with
    | error c => exact kept_of_refused (status_of_checkFile hfile) (.refl tree)
    | ok report =>
      obtain ⟨r, hholds, hcheck⟩ := holds_of_checkFile hfile
      exact kept_of_reported ⟨path, r, hask, hholds, hcheck⟩
  | mangle hask =>
    rw [run, hask]
    exact kept_of_printed (by simp) fun path => not_writesTo_of_not_mem (by decide)

end

/-- A header is saved where there was no file, and holds what is printed without `--out`. -/
theorem run_keeps_contract_header :
    (run (.ofFiles []) none ["header", "--out", "abi.h"]).status = 0 ∧
      (run (.ofFiles []) none ["header", "--out", "abi.h"]).tree.read "abi.h" =
        .ok (run (.ofFiles []) none ["header"]).stdout.toUTF8 := by
  have hrest : publication ["--out", "abi.h"] = some (none, some "abi.h") := by decide
  have hwritable : FileTree.Writable (.ofFiles []) "abi.h" (.inside []) "abi.h" := {
    way := ⟨[], by decide, by decide⟩
    directory := rfl
    notHere := by decide
    notOuter := by decide
    length := by decide
    noSlash := by decide
    nameLength := by decide
    free := by simp [FileTree.isDirectory, FileTree.lookup?, FileTree.ofFiles, Place.child] }
  have hstatus : (run (.ofFiles []) none ["header", "--out", "abi.h"]).status = 0 := by
    have hparent : parentPath? "abi.h" = none := by decide
    have hheader : publishedText? "header" = some headerText := rfl
    rw [run_publication hheader hrest, publish]
    dsimp only [filterInForce, SurfaceFilter.environmentText, SurfaceFilter.resolve, Option.bind_none,
      Product.publish, save, writeText]
    rw [hparent]
    dsimp only
    rw [hwritable.write_eq]
    rfl
  have hkept := run_keeps_contract (.ofFiles []) none ["header", "--out", "abi.h"]
  have hwrites : WritesTo ["header", "--out", "abi.h"] "abi.h" :=
    ⟨"header", by decide, _, none, rfl, hrest⟩
  exact ⟨hstatus, (hkept.saved "abi.h" hwrites hstatus).2.2.read⟩

end PrimitiveAbi.Command
