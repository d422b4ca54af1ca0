import Mathlib.Tactic.SplitIfs
import PrimitiveAbi.Command.FileTree

/-!
# What file operations change

A path leads to one place, unless it is stopped on the way (`placeOf`). Making directories adds
directories and nothing else, also where not all of them can be made
(`addsDirectories_makeDirectories`). Writing puts a file at the place of the path
(`eq_put_of_write`), where it is read back (`read_of_write`).
-/

namespace PrimitiveAbi.Command

/-! ### The place of a path -/

/-- Where a part of a path leads from a directory. -/
def Place.follow (place : Place) (part : String) : Place :=
  if part = "." then place else if part = ".." then place.outer else place.child part

/-- The place that a path leads to, whether or not anything is there. -/
def placeOf (path : String) : Place :=
  (pathParts path).foldl Place.follow (startOf path)

namespace Place

theorem names_child_ne_nil (place : Place) (name : String) : (place.child name).names ≠ [] := by
  simp [child]

theorem getLastD_names_child (place : Place) (name default : String) :
    (place.child name).names.getLastD default = name := by
  simp [child]

end Place

namespace FileTree

variable {t t' : FileTree} {place next p : Place} {part path : String} {parts : List String}
  {content : ByteArray}

theorem enter_eq_ok_iff : t.enter place part = .ok next ↔
    t.isDirectory place = true ∧ next = place.follow part ∧
      (part ≠ "." → part ≠ ".." →
        part.utf8ByteSize ≤ nameLimit ∧ (t.lookup? (place.child part)).isSome = true) := by
  unfold enter Place.follow
  split_ifs <;> grind [Option.isSome_iff_ne_none, Option.isNone_iff_eq_none]

theorem lookup?_of_enter_eq_noEntry (h : t.enter place part = .error .noEntry) :
    t.lookup? (place.child part) = none := by
  unfold enter at h
  split_ifs at h with h₁ h₂ h₃ h₄ hnone
  · exact nomatch h
  · exact nomatch h
  · exact Option.isNone_iff_eq_none.1 hnone

theorem walk_cons_eq_ok_iff : t.walk place (part :: parts) = .ok p ↔
    ∃ next, t.enter place part = .ok next ∧ t.walk next parts = .ok p := by
  rw [walk]
  cases t.enter place part <;> simp

theorem walk_concat (h : t.walk place parts = .ok next) :
    t.walk place (parts ++ [part]) = t.enter next part := by
  induction parts generalizing place with
  | nil =>
    obtain rfl := Except.ok.inj h
    rw [List.nil_append, walk]
    cases t.enter place part <;> rfl
  | cons first parts ih =>
    obtain ⟨inner, henter, hwalk⟩ := walk_cons_eq_ok_iff.1 h
    rw [List.cons_append, walk, henter]
    exact ih hwalk

/-- A walk that is not stopped comes to the place of its parts. -/
theorem eq_of_walk (h : t.walk place parts = .ok p) : p = parts.foldl Place.follow place := by
  induction parts generalizing place with
  | nil => exact (Except.ok.inj h).symm
  | cons part parts ih =>
    obtain ⟨next, henter, hwalk⟩ := walk_cons_eq_ok_iff.1 h
    rw [List.foldl_cons, ← (enter_eq_ok_iff.1 henter).2.1]
    exact ih hwalk

/-! ### Files -/

/-- The content of the file at a place. -/
def fileAt? (t : FileTree) (place : Place) : Option ByteArray :=
  match t.lookup? place with
  | some (.file content) => some content
  | _ => none

/-- Two trees have the same files. -/
def SameFiles (t t' : FileTree) : Prop :=
  ∀ place, t'.fileAt? place = t.fileAt? place

theorem SameFiles.refl (t : FileTree) : SameFiles t t :=
  fun _ => rfl

theorem fileAt?_put_file (h : p.names ≠ []) : (t.put p (.file content)).fileAt? p = some content := by
  simp [fileAt?, lookup?_put h]

theorem fileAt?_put_of_ne (h : p.names ≠ []) {node : Node} (hne : place ≠ p) :
    (t.put p node).fileAt? place = t.fileAt? place := by
  rw [fileAt?, lookup?_put h, if_neg hne, fileAt?]

/-! ### Directories -/

/-- One tree is another with directories where nothing was. -/
def AddsDirectories (t t' : FileTree) : Prop :=
  ∀ place, t'.lookup? place = t.lookup? place ∨
    t.lookup? place = none ∧ t'.lookup? place = some .directory

namespace AddsDirectories

theorem refl (t : FileTree) : AddsDirectories t t :=
  fun _ => .inl rfl

theorem trans {t'' : FileTree} (h : AddsDirectories t t') (h' : AddsDirectories t' t'') :
    AddsDirectories t t'' := by
  intro place
  rcases h' place with heq' | ⟨hnone', hadded'⟩
  · rw [heq']
    exact h place
  · rcases h place with heq | ⟨hnone, -⟩
    · exact .inr ⟨heq ▸ hnone', hadded'⟩
    · exact .inr ⟨hnone, hadded'⟩

theorem sameFiles (h : AddsDirectories t t') : SameFiles t t' := by
  intro place
  rw [fileAt?, fileAt?]
  rcases h place with heq | ⟨hnone, hadded⟩
  · rw [heq]
  · rw [hnone, hadded]

end AddsDirectories

theorem addsDirectories_put (h : t.lookup? (place.child part) = none) :
    AddsDirectories t (t.put (place.child part) .directory) := by
  intro other
  rw [lookup?_put (place.names_child_ne_nil part)]
  split
  · next hother => exact .inr ⟨hother ▸ h, rfl⟩
  · exact .inl rfl

/-- The tree that remains when directories were to be made. -/
def remains : Except Halted FileTree → FileTree
  | .ok made => made
  | .error halted => halted.tree

theorem addsDirectories_makeWay (t : FileTree) (place : Place) (parts : List String) :
    AddsDirectories t (remains (t.makeWay place parts)) := by
  fun_induction makeWay t place parts with
  | case1 => exact .refl _
  | case2 _ _ _ _ _ _ _ ih => exact ih
  | case3 => exact .refl _
  | case4 t place part parts henter ih =>
    exact (addsDirectories_put (lookup?_of_enter_eq_noEntry henter)).trans ih
  | case5 => exact .refl _

/-- Whether or not all directories can be made, all that was in the tree is still there. -/
theorem addsDirectories_makeDirectories (t : FileTree) (path : String) :
    AddsDirectories t (remains (t.makeDirectories path)) := by
  unfold makeDirectories
  split
  · split
    · exact .refl _
    · exact .refl _
  · exact addsDirectories_makeWay t _ _
  · exact .refl _

/-! ### Writing -/

/-- A path names a file in a directory: a name after a way that is not stopped. -/
structure NamesIn (t : FileTree) (path : String) (around : Place) (name : String) : Prop where
  way : ∃ parts, pathParts path = parts ++ [name] ∧ t.walk (startOf path) parts = .ok around
  directory : t.isDirectory around = true
  notHere : name ≠ "."
  notOuter : name ≠ ".."
  length : path.utf8ByteSize ≤ pathLimit

theorem namesIn_of_target (h : t.target path = .ok (some place)) :
    ∃ around name, NamesIn t path around name ∧ place = around.child name := by
  unfold target at h
  split_ifs at h with hlength
  dsimp only at h
  split at h
  · exact nomatch h
  · next around hwalk =>
    split_ifs at h with hdirectory
    split at h
    · exact nomatch h
    · next name hlast =>
      split_ifs at h with hname
      · exact nomatch h
      · obtain ⟨hhere, houter⟩ := not_or.1 hname
        obtain rfl := Option.some.inj (Except.ok.inj h)
        obtain ⟨parts, hparts⟩ := List.getLast?_eq_some_iff.1 hlast
        rw [hparts, List.dropLast_concat] at hwalk
        exact ⟨around, name, ⟨⟨parts, hparts, hwalk⟩, by simpa using hdirectory, hhere, houter,
          Nat.le_of_not_lt hlength⟩, rfl⟩

namespace NamesIn

variable {around : Place} {name : String}

theorem follow_eq (h : NamesIn t path around name) : around.follow name = around.child name := by
  rw [Place.follow, if_neg h.notHere, if_neg h.notOuter]

theorem placeOf_eq (h : NamesIn t path around name) : placeOf path = around.child name := by
  obtain ⟨parts, hparts, hwalk⟩ := h.way
  rw [placeOf, hparts, List.foldl_append, ← eq_of_walk hwalk, List.foldl_cons, h.follow_eq,
    List.foldl_nil]

end NamesIn

/-- A path that a file may be written to: its name is not too long and no directory has it. -/
structure Writable (t : FileTree) (path : String) (around : Place) (name : String) : Prop
    extends NamesIn t path around name where
  noSlash : endsInSlash path = false
  nameLength : name.utf8ByteSize ≤ nameLimit
  free : t.isDirectory (around.child name) = false

/-- A file is written to a path that is writable. -/
theorem Writable.write_eq {around : Place} {name : String} (h : Writable t path around name)
    (content : ByteArray) :
    t.write path content = .ok (t.put (around.child name) (.file content)) := by
  obtain ⟨parts, hparts, hwalk⟩ := h.way
  have htarget : t.target path = .ok (some (around.child name)) := by
    rw [target, if_neg (Nat.not_lt.2 h.length), hparts]
    simp [hwalk, h.directory, h.notHere, h.notOuter]
  rw [write, htarget]
  dsimp only
  rw [h.noSlash, h.free, Place.getLastD_names_child, if_neg (Nat.not_lt.2 h.nameLength)]
  rfl

theorem writable_of_write (h : t.write path content = .ok t') :
    ∃ around name, Writable t path around name ∧
      t' = t.put (around.child name) (.file content) := by
  unfold write at h
  split at h
  · exact nomatch h
  · exact nomatch h
  · next place htarget =>
    obtain ⟨around, name, hin, rfl⟩ := namesIn_of_target htarget
    split_ifs at h with hslash hlength hdirectory
    rw [Place.getLastD_names_child] at hlength
    exact ⟨around, name, ⟨hin, by simpa using hslash, Nat.le_of_not_lt hlength,
      by simpa using hdirectory⟩, (Except.ok.inj h).symm⟩

/-- What is written is put at the place of the path. -/
theorem eq_put_of_write (h : t.write path content = .ok t') :
    t' = t.put (placeOf path) (.file content) ∧ (placeOf path).names ≠ [] := by
  obtain ⟨around, name, hwritable, rfl⟩ := writable_of_write h
  rw [hwritable.placeOf_eq]
  exact ⟨rfl, around.names_child_ne_nil name⟩

section

variable (content)
variable (hp : t.isDirectory p = false) (hnames : p.names ≠ [])

include hp hnames

theorem isDirectory_put (h : t.isDirectory place = true) :
    (t.put p (.file content)).isDirectory place = true := by
  have hne : place ≠ p := by
    rintro rfl
    rw [hp] at h
    exact nomatch h
  rwa [isDirectory, lookup?_put hnames, if_neg hne]

/-- Steps and walks go the same way when a file is put where no directory is. -/
theorem enter_put (h : t.enter place part = .ok next) :
    (t.put p (.file content)).enter place part = .ok next := by
  obtain ⟨hdirectory, hnext, hpart⟩ := enter_eq_ok_iff.1 h
  refine enter_eq_ok_iff.2 ⟨isDirectory_put content hp hnames hdirectory, hnext, ?_⟩
  intro hhere houter
  obtain ⟨hlength, hsome⟩ := hpart hhere houter
  refine ⟨hlength, ?_⟩
  rw [lookup?_put hnames]
  split
  · rfl
  · exact hsome

theorem walk_put (h : t.walk place parts = .ok next) :
    (t.put p (.file content)).walk place parts = .ok next := by
  induction parts generalizing place with
  | nil => exact h
  | cons part parts ih =>
    obtain ⟨inner, henter, hwalk⟩ := walk_cons_eq_ok_iff.1 h
    exact walk_cons_eq_ok_iff.2 ⟨inner, enter_put content hp hnames henter, ih hwalk⟩

end

/-- What is written to a path is read back from it. -/
theorem read_of_write (h : t.write path content = .ok t') : t'.read path = .ok content := by
  obtain ⟨around, name, hwritable, rfl⟩ := writable_of_write h
  obtain ⟨parts, hparts, hwalk⟩ := hwritable.way
  have hnames := around.names_child_ne_nil name
  generalize hwritten : t.put (around.child name) (.file content) = written
  have hlookup : written.lookup? (around.child name) = some (.file content) := by
    rw [← hwritten, lookup?_put hnames, if_pos rfl]
  -- the way goes through directories, and the place written was none
  have hway : written.walk (startOf path) parts = .ok around := by
    rw [← hwritten]
    exact walk_put content hwritable.free hnames hwalk
  have henter : written.enter around name = .ok (around.child name) := by
    refine enter_eq_ok_iff.2 ⟨?_, hwritable.follow_eq.symm, fun _ _ => ⟨hwritable.nameLength, ?_⟩⟩
    · rw [← hwritten]
      exact isDirectory_put content hwritable.free hnames hwritable.directory
    · rw [hlookup]
      rfl
  have hresolve : written.resolve path = .ok (around.child name) := by
    rw [resolve, if_neg (Nat.not_lt.2 hwritable.length), hparts, walk_concat hway, henter]
    simp [hwritable.noSlash]
  simp only [read, hresolve, hlookup]

end FileTree

end PrimitiveAbi.Command
