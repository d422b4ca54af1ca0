import PrimitiveAbi.Command.Invocation

/-!
# Arguments of the publishing subcommands

What the options of a subcommand are read as is a relation of the arguments (`SpellsOptions`). It
shows what an option more or less does: a `--surface` in front is a surface in force
(`publication_surface`), and without `--out` and its value the rest is read as before
(`publication_withoutOption`).
-/

namespace PrimitiveAbi.Command

/-- Arguments that give options, each with its value, in order. -/
inductive SpellsOptions (known : List String) : List String → List (String × String) → Prop
  | nil : SpellsOptions known [] []
  | terminator : SpellsOptions known ["--"] []
  /-- `--option=value` -/
  | joined {argument name value : String} {rest : List String} {given : List (String × String)} :
      splitOption argument = some (name, some value) → name ∈ known →
      SpellsOptions known rest given → SpellsOptions known (argument :: rest) ((name, value) :: given)
  /-- `--option value` -/
  | separate {argument name value : String} {rest : List String}
      {given : List (String × String)} :
      splitOption argument = some (name, none) → name ∈ known → isOrdinary value = true →
      SpellsOptions known rest given →
      SpellsOptions known (argument :: value :: rest) ((name, value) :: given)

theorem SpellsOptions.of_options {known arguments : List String} {given : List (String × String)}
    (h : options known arguments = some given) : SpellsOptions known arguments given := by
  fun_induction options known arguments generalizing given with
  | case1 | case2 =>
    obtain rfl := Option.some.inj h
    constructor
  | case3 => exact nomatch h
  | case4 argument rest _ name value hsplit hknown ih =>
    obtain ⟨others, hothers, rfl⟩ := Option.map_eq_some_iff.1 h
    exact .joined hsplit (by simpa using hknown) (ih hothers)
  | case5 => exact nomatch h
  | case6 argument name hsplit value rest hordinary _ ih =>
    obtain ⟨others, hothers, rfl⟩ := Option.map_eq_some_iff.1 h
    rw [Bool.and_eq_true] at hordinary
    exact .separate hsplit (by simpa using hordinary.1) hordinary.2 (ih hothers)
  | case7 => exact nomatch h
  | case8 => exact nomatch h

theorem SpellsOptions.options_eq {known arguments : List String} {given : List (String × String)}
    (h : SpellsOptions known arguments given) : options known arguments = some given := by
  induction h with
  | nil => rfl
  | terminator => rfl
  | joined hsplit hknown _ ih =>
    rw [options]
    · simp [hsplit, hknown, ih]
    · rintro rfl
      exact nomatch hsplit
  | separate hsplit hknown hordinary _ ih =>
    rw [options]
    · simp [hsplit, hknown, hordinary, ih]
    · simp

theorem options_eq_some_iff {known arguments : List String} {given : List (String × String)} :
    options known arguments = some given ↔ SpellsOptions known arguments given :=
  ⟨.of_options, SpellsOptions.options_eq⟩

/-! ### One option more or less -/

/-- Some argument names the option, with its value or before it. -/
def Names (option : String) (arguments : List String) : Prop :=
  ∃ argument ∈ arguments, ∃ value, splitOption argument = some (option, value)

/-- The arguments without an option and its value. -/
def withoutOption (option : String) : List String → List String
  | [] => []
  | argument :: rest =>
      match splitOption argument with
      | none => argument :: withoutOption option rest
      | some (name, some _) =>
          if name = option then withoutOption option rest
          else argument :: withoutOption option rest
      | some (name, none) =>
          match rest with
          | [] => [argument]
          | value :: rest =>
              if name = option then withoutOption option rest
              else argument :: value :: withoutOption option rest

theorem splitOption_of_isOrdinary {argument : String} (h : isOrdinary argument = true) :
    splitOption argument = none := by
  rw [isOrdinary, Bool.or_eq_true, decide_eq_true_eq, decide_eq_true_eq] at h
  rcases h with rfl | h
  · rfl
  · rw [splitOption]
    split
    · next hargument => exact absurd (by rw [hargument]; rfl) h
    · rfl

namespace SpellsOptions

variable {known arguments : List String} {given : List (String × String)}

/-- The options that are given are those that arguments name; a value names none. -/
theorem names_iff (h : SpellsOptions known arguments given) {option : String} (hne : option ≠ "") :
    Names option arguments ↔ option ∈ given.map Prod.fst := by
  induction h with
  | nil => simp [Names]
  | terminator =>
    have hsplit : splitOption "--" = some ("", none) := by decide
    simp [Names, hsplit, hne.symm]
  | joined hsplit _ _ ih =>
    rw [List.map_cons, List.mem_cons, ← ih]
    simp [Names, hsplit, eq_comm]
  | separate hsplit _ hordinary _ ih =>
    rw [List.map_cons, List.mem_cons, ← ih]
    simp [Names, hsplit, splitOption_of_isOrdinary hordinary, eq_comm]

theorem withoutOption (h : SpellsOptions known arguments given) (option : String) :
    SpellsOptions known (Command.withoutOption option arguments)
      (given.filter (·.1 ≠ option)) := by
  induction h with
  | nil => exact .nil
  | terminator => exact .terminator
  | joined hsplit hknown _ ih =>
    rw [Command.withoutOption, hsplit]
    dsimp only
    split
    · next hname => rwa [List.filter_cons_of_neg (by simpa using hname)]
    · next hname =>
      rw [List.filter_cons_of_pos (by simpa using hname)]
      exact .joined hsplit hknown ih
  | separate hsplit hknown hordinary _ ih =>
    rw [Command.withoutOption, hsplit]
    dsimp only
    split
    · next hname => rwa [List.filter_cons_of_neg (by simpa using hname)]
    · next hname =>
      rw [List.filter_cons_of_pos (by simpa using hname)]
      exact .separate hsplit hknown hordinary ih

end SpellsOptions

/-! ### Publications -/

theorem wellUsed_iff {given : List (String × String)} :
    wellUsed given = true ↔ (given.map Prod.fst).Nodup ∧ ∀ o ∈ given, o.2 ≠ "" := by
  simp [wellUsed]

theorem publication_eq_some_iff {arguments : List String} {surface : Option SurfaceFilter}
    {out : Option String} : publication arguments = some (surface, out) ↔
      ∃ given, SpellsOptions ["surface", "out"] arguments given ∧ wellUsed given = true ∧
        given.lookup "surface" = surface.map SurfaceFilter.name ∧ given.lookup "out" = out := by
  simp only [publication, Option.bind_eq_bind, Option.bind_eq_some_iff, options_eq_some_iff]
  refine exists_congr fun given => and_congr_right fun _ => ?_
  cases wellUsed given with
  | false => simp
  | true =>
    cases given.lookup "surface" with
    | none => cases surface <;> simp
    | some name =>
      cases surface with
      | none => simp [Option.bind_eq_some_iff]
      | some f =>
        have hname : SurfaceFilter.ofName? name = some f ↔ name = f.name := by
          rw [SurfaceFilter.ofName?_eq_some_iff, eq_comm]
        simp [Option.bind_eq_some_iff, and_left_comm, hname]

section

variable {arguments : List String} {surface : Option SurfaceFilter} {out : Option String}

theorem lookup_isSome_iff_mem {given : List (String × String)} {option : String} :
    (given.lookup option).isSome = true ↔ option ∈ given.map Prod.fst := by
  rw [List.lookup_isSome_iff]
  simp [eq_comm (a := option)]

/-- A surface is asked for exactly if an argument names the option. -/
theorem names_surface_iff (h : publication arguments = some (surface, out)) :
    Names "surface" arguments ↔ surface.isSome = true := by
  obtain ⟨given, hspells, -, hsurface, -⟩ := publication_eq_some_iff.1 h
  rw [hspells.names_iff (by decide), ← lookup_isSome_iff_mem, hsurface, Option.isSome_map]

/-- A surface may be put in front where none is asked for. -/
theorem publication_surface (h : publication arguments = some (none, out)) (f : SurfaceFilter) :
    publication ("--surface" :: f.name :: arguments) = some (some f, out) := by
  obtain ⟨given, hspells, hused, hsurface, hout⟩ := publication_eq_some_iff.1 h
  have hordinary : isOrdinary f.name = true := by cases f <;> decide
  refine publication_eq_some_iff.2 ⟨("surface", f.name) :: given,
    .separate (by decide) (by decide) hordinary hspells, ?_, rfl, hout⟩
  obtain ⟨hnodup, hvalues⟩ := wellUsed_iff.1 hused
  rw [wellUsed_iff, List.map_cons, List.nodup_cons, ← lookup_isSome_iff_mem, hsurface]
  refine ⟨⟨by simp, hnodup⟩, List.forall_mem_cons.2 ⟨?_, hvalues⟩⟩
  cases f <;> decide

theorem lookup_filter_of_ne {given : List (String × String)} {option other : String}
    (h : option ≠ other) : (given.filter (·.1 ≠ other)).lookup option = given.lookup option := by
  induction given with
  | nil => rfl
  | cons o given ih =>
    obtain ⟨name, value⟩ := o
    by_cases hname : name = other
    · subst hname
      rw [List.filter_cons_of_neg (by simp), ih, List.lookup_cons, beq_eq_false_iff_ne.2 h]
    · rw [List.filter_cons_of_pos (by simpa using hname), List.lookup_cons, List.lookup_cons, ih]

/-- Without the output option and its value the same is asked for, on standard output. -/
theorem publication_withoutOption (h : publication arguments = some (surface, out)) :
    publication (withoutOption "out" arguments) = some (surface, none) := by
  obtain ⟨given, hspells, hused, hsurface, -⟩ := publication_eq_some_iff.1 h
  obtain ⟨hnodup, hvalues⟩ := wellUsed_iff.1 hused
  refine publication_eq_some_iff.2 ⟨_, hspells.withoutOption "out", wellUsed_iff.2 ⟨?_, ?_⟩, ?_, ?_⟩
  · exact hnodup.sublist (List.filter_sublist.map _)
  · exact fun o ho => hvalues o (List.mem_filter.1 ho).1
  · rw [lookup_filter_of_ne (by decide), hsurface]
  · rw [List.lookup_eq_none_iff]
    intro o ho
    exact bne_iff_ne.2 (Ne.symm (by simpa using (List.mem_filter.1 ho).2))

end

end PrimitiveAbi.Command
