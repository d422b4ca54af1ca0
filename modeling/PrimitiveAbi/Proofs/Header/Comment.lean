import Mathlib.Data.List.Chain

/-!
# Comments in C text

Read from left to right, a C text is characters and comments. Texts are put together here from
stretches that read as certain pieces whatever comes after them (`Reads`): text without a slash, and
comments whose text does not hold the mark that ends it.
-/

namespace PrimitiveAbi.Comment

/-- A piece of a C text. -/
inductive Piece where
  | code (c : Char)
  /-- A comment, by the text between its marks. -/
  | comment (text : List Char)
  deriving DecidableEq, Repr

/-- The pieces of a text; within a comment, what has been read of it is given. -/
def scan : Option (List Char) → List Char → List Piece
  | none, '/' :: '*' :: rest => scan (some []) rest
  | none, c :: rest => .code c :: scan none rest
  | some text, '*' :: '/' :: rest => .comment text :: scan none rest
  | some text, c :: rest => scan (some (text ++ [c])) rest
  | none, [] => []
  | some text, [] => [.comment text]

/-- The pieces of a text. -/
def pieces (cs : List Char) : List Piece := scan none cs

/-- The character of a piece that is no comment. -/
def Piece.code? : Piece → Option Char
  | code c => some c
  | comment _ => none

/-- What is left when the comments are deleted. -/
def uncomment (ps : List Piece) : List Char := ps.filterMap Piece.code?

@[simp] theorem uncomment_nil : uncomment [] = [] := rfl

@[simp] theorem uncomment_append (ps qs : List Piece) :
    uncomment (ps ++ qs) = uncomment ps ++ uncomment qs :=
  List.filterMap_append

@[simp] theorem uncomment_comment (text : List Char) (ps : List Piece) :
    uncomment (.comment text :: ps) = uncomment ps := rfl

@[simp] theorem uncomment_map_code (cs : List Char) : uncomment (cs.map .code) = cs := by
  rw [uncomment, List.filterMap_map]
  exact List.filterMap_some

/-! ### Texts without the end of a comment -/

/-- The text does not hold the mark that ends a comment. -/
def Unclosed (cs : List Char) : Prop := ¬ ['*', '/'] <:+: cs

theorem unclosed_iff {cs : List Char} :
    Unclosed cs ↔ cs.IsChain fun a b => ¬ (a = '*' ∧ b = '/') := by
  rw [List.isChain_iff_forall_rel_of_append_cons_cons]
  constructor
  · rintro h a b front back rfl ⟨rfl, rfl⟩
    exact h ⟨front, back, by simp⟩
  · rintro h ⟨front, back, rfl⟩
    exact h (show _ = front ++ '*' :: '/' :: back by simp) ⟨rfl, rfl⟩

instance (cs : List Char) : Decidable (Unclosed cs) :=
  decidable_of_iff (cs.IsChain fun a b => ¬ (a = '*' ∧ b = '/')) unclosed_iff.symm

/-- Neither character of the mark that ends a comment. -/
def Quiet (cs : List Char) : Prop := ∀ c ∈ cs, c ≠ '*' ∧ c ≠ '/'

instance (cs : List Char) : Decidable (Quiet cs) :=
  List.decidableBAll (fun c => c ≠ '*' ∧ c ≠ '/') cs

theorem quiet_nil : Quiet [] := fun _ hc => absurd hc List.not_mem_nil

theorem Quiet.unclosed {cs : List Char} (h : Quiet cs) : Unclosed cs := by
  rintro ⟨front, back, rfl⟩
  exact (h '*' (by simp)).1 rfl

theorem Quiet.append {cs cs' : List Char} (h : Quiet cs) (h' : Quiet cs') : Quiet (cs ++ cs') :=
  fun c hc => (List.mem_append.1 hc).elim (h c) (h' c)

/-- Text in between that has neither character keeps two texts apart. -/
theorem Unclosed.around {cs sep cs' : List Char} (hcs : Unclosed cs) (hsep : Quiet sep)
    (hne : sep ≠ []) (hcs' : Unclosed cs') : Unclosed (cs ++ (sep ++ cs')) := by
  rw [unclosed_iff] at hcs hcs' ⊢
  rw [List.isChain_append, List.isChain_append]
  refine ⟨hcs, ⟨unclosed_iff.1 hsep.unclosed, hcs', ?_⟩, ?_⟩
  · rintro a ha b - ⟨rfl, -⟩
    exact (hsep _ (List.mem_of_getLast? ha)).1 rfl
  · rintro a - b hb ⟨-, rfl⟩
    rw [List.head?_append_of_ne_nil _ hne] at hb
    exact (hsep _ (List.mem_of_head? hb)).2 rfl

theorem Unclosed.append_quiet {cs cs' : List Char} (h : Unclosed cs) (h' : Quiet cs') :
    Unclosed (cs ++ cs') := by
  by_cases hne : cs' = []
  · rwa [hne, List.append_nil]
  · rw [← List.append_nil cs']
    exact h.around h' hne quiet_nil.unclosed

theorem Quiet.append_unclosed {cs cs' : List Char} (h : Quiet cs) (h' : Unclosed cs') :
    Unclosed (cs ++ cs') := by
  by_cases hne : cs = []
  · rwa [hne, List.nil_append]
  · exact quiet_nil.unclosed.around h hne h'

theorem Unclosed.intercalate {sep : List Char} {texts : List (List Char)} (hsep : Quiet sep)
    (hne : sep ≠ []) (h : ∀ cs ∈ texts, Unclosed cs) : Unclosed (sep.intercalate texts) := by
  induction texts with
  | nil => exact quiet_nil.unclosed
  | cons cs texts ih =>
    obtain ⟨hcs, htexts⟩ := List.forall_mem_cons.1 h
    cases texts with
    | nil => rwa [List.intercalate_singleton]
    | cons cs' texts =>
      rw [List.intercalate_cons_cons, List.append_assoc]
      exact hcs.around hsep hne (ih htexts)

/-! ### Stretches of text -/

/-- The text reads as these pieces, whatever comes after it. -/
def Reads (cs : List Char) (ps : List Piece) : Prop :=
  ∀ rest, scan none (cs ++ rest) = ps ++ scan none rest

theorem Reads.pieces_eq {cs : List Char} {ps : List Piece} (h : Reads cs ps) : pieces cs = ps := by
  have := h []
  rwa [List.append_nil, scan, List.append_nil] at this

theorem reads_nil : Reads [] [] := fun _ => rfl

theorem Reads.append {cs cs' : List Char} {ps ps' : List Piece} (h : Reads cs ps)
    (h' : Reads cs' ps') : Reads (cs ++ cs') (ps ++ ps') := by
  intro rest
  rw [List.append_assoc, h, h', List.append_assoc]

theorem Reads.flatMap {α : Type} {f : α → List Char} {g : α → List Piece} {as : List α}
    (h : ∀ a ∈ as, Reads (f a) (g a)) : Reads (as.flatMap f) (as.flatMap g) := by
  induction as with
  | nil => exact reads_nil
  | cons a as ih =>
    obtain ⟨ha, has⟩ := List.forall_mem_cons.1 h
    exact ha.append (ih has)

/-- Text without a slash has no comment in it. -/
theorem reads_code {cs : List Char} (h : '/' ∉ cs) : Reads cs (cs.map .code) := by
  intro rest
  induction cs with
  | nil => rfl
  | cons c cs ih =>
    rw [List.mem_cons, not_or] at h
    rw [List.cons_append, scan, ih h.2]
    · rfl
    · exact fun _ hc => absurd hc.symm h.1

theorem Unclosed.of_cons {c : Char} {cs : List Char} (h : Unclosed (c :: cs)) : Unclosed cs :=
  fun hinfix => h (List.infix_cons hinfix)

/-- Within a comment, the mark that ends it is looked for. -/
theorem scan_inside {text cs : List Char} (h : Unclosed cs) (rest : List Char) :
    scan (some text) (cs ++ '*' :: '/' :: rest) = .comment (text ++ cs) :: scan none rest := by
  induction cs generalizing text with
  | nil => rw [List.nil_append, scan, List.append_nil]
  | cons c cs ih =>
    have hmark : ∀ behind, c = '*' → cs ++ '*' :: '/' :: rest = '/' :: behind → False := by
      rintro behind rfl heq
      cases cs with
      | nil => exact absurd (List.cons.inj heq).1 (by decide)
      | cons d cs =>
        obtain rfl : d = '/' := (List.cons.inj heq).1
        exact h ⟨[], cs, rfl⟩
    rw [List.cons_append, scan, ih h.of_cons, List.append_assoc, List.singleton_append]
    exact hmark

/-- A comment ends where its mark stands first. -/
theorem reads_comment {cs : List Char} (h : Unclosed cs) :
    Reads ('/' :: '*' :: (cs ++ ['*', '/'])) [.comment cs] := by
  intro rest
  rw [List.cons_append, List.cons_append, scan, List.append_assoc]
  exact scan_inside h rest

end PrimitiveAbi.Comment
