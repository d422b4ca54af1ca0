import PrimitiveAbi.Header
import PrimitiveAbi.Proofs.Header.Comment

/-!
# The header without its comments

What the header of a manifest says apart from its comments: a fixed preamble, a line for each import,
a prototype for each primitive behind two blank lines, and a fixed trailer
(`Header.uncomment_pieces_render`). This needs the texts that go into comments not to end them, and
the names and types that go into prototypes to be names and types.
-/

namespace PrimitiveAbi

open Comment

namespace Header

/-! ### Manifests that can be written as a header -/

/-- The characters of a C identifier; those beyond ASCII are up to the compiler. -/
def isWordChar (c : Char) : Bool := c.isAlphanum || c = '_' || 128 ≤ c.toNat

/-- All characters of the text are of a class. -/
def OfChars (class? : Char → Bool) (s : String) : Prop := ∀ c ∈ s.toList, class? c = true

instance (class? : Char → Bool) (s : String) : Decidable (OfChars class? s) :=
  List.decidableBAll (fun c => class? c = true) s.toList

/-- The text is a C identifier. -/
structure IsIdentifier (s : String) : Prop where
  nonempty : s.toList ≠ []
  first : ∀ c ∈ s.toList.head?, c.isDigit = false
  word : OfChars isWordChar s

theorem isIdentifier_iff {s : String} : IsIdentifier s ↔
    s.toList ≠ [] ∧ s.toList.head?.all (!·.isDigit) = true ∧ OfChars isWordChar s := by
  have hfirst : s.toList.head?.all (!·.isDigit) = true ↔
      ∀ c ∈ s.toList.head?, c.isDigit = false := by
    simp [Option.all_eq_true]
  rw [hfirst]
  exact ⟨fun h => ⟨h.nonempty, h.first, h.word⟩, fun h => ⟨h.1, h.2.1, h.2.2⟩⟩

instance (s : String) : Decidable (IsIdentifier s) := decidable_of_iff _ isIdentifier_iff.symm

/-- The text is the C text of a type. -/
def IsType (s : String) : Prop := ∃ t : CType, t.text = s

end Header

/-- What is asked of a primitive so that C can be read from its lines. -/
structure Declaration.Printable (d : Declaration) : Prop where
  symbol : Header.IsIdentifier d.symbol
  result : Header.IsType d.result
  params : ∀ p ∈ d.params, Header.IsIdentifier p.name ∧ Header.IsType p.ctype
  names : ∀ n ∈ d.names, Unclosed n.surface.toList ∧ Unclosed n.name.toList

/-- What is asked of a manifest so that C can be read from its header. -/
structure Manifest.Printable (m : Manifest) : Prop where
  version : Unclosed m.version.toList
  runtime : Unclosed m.runtime.toList
  imports : ∀ i ∈ m.imports, Header.IsIdentifier i
  primitives : ∀ d ∈ m.primitives, d.Printable

theorem Primitive.printable_declare {p : Primitive} (hp : p ∈ Catalog.all)
    (filter : SurfaceFilter) : (p.declare filter).Printable where
  symbol := by
    have hsymbols : ∀ p ∈ Catalog.all, Header.IsIdentifier p.symbol := by decide
    exact hsymbols p hp
  result := ⟨p.result, rfl⟩
  params := by
    have hparams : ∀ p ∈ Catalog.all, ∀ param ∈ p.params, Header.IsIdentifier param.name := by
      decide
    exact List.forall_mem_map.2 fun param hparam => ⟨hparams p hp param hparam, param.type, rfl⟩
  names := by
    have hnames : ∀ p ∈ Catalog.all, ∀ n ∈ p.names,
        Unclosed n.1.name.toList ∧ Unclosed n.2.toList := by decide
    exact List.forall_mem_map.2 fun n hn => hnames p hp n (List.mem_of_mem_filter hn)

/-- The manifests of the catalog can be written as headers. -/
theorem Manifest.printable_build (filter : SurfaceFilter) : (Manifest.build filter).Printable where
  version := (by decide : Unclosed Contract.manifestVersion.toList)
  runtime := (by decide : Unclosed Contract.runtime.toList)
  imports := (by decide : ∀ i ∈ [Contract.entry], Header.IsIdentifier i)
  primitives := by
    intro d hd
    obtain ⟨p, hp, rfl⟩ := List.mem_map.1 (List.mem_of_mem_filter hd)
    exact p.printable_declare hp filter

namespace Header

/-! ### Lines and their pieces -/

/-- The text of lines. -/
def text (ls : List String) : List Char := ls.flatMap fun l => l.toList ++ ['\n']

@[simp] theorem text_nil : text [] = [] := rfl

@[simp] theorem text_cons (l : String) (ls : List String) :
    text (l :: ls) = l.toList ++ '\n' :: text ls := by
  simp [text]

@[simp] theorem text_append (ls ls' : List String) : text (ls ++ ls') = text ls ++ text ls' :=
  List.flatMap_append

theorem text_flatMap {α : Type} (f : α → List String) (as : List α) :
    text (as.flatMap f) = as.flatMap fun a => text (f a) := by
  rw [text, List.flatMap_assoc]
  rfl

theorem toList_render (m : Manifest) : (render m).toList = text (lines m) := by
  rw [render, String.toList_join, List.flatMap_map]
  simp [text]

/-- The pieces of lines without comments. -/
def codePieces (ls : List String) : List Piece := (text ls).map .code

theorem codePieces_append (ls ls' : List String) :
    codePieces (ls ++ ls') = codePieces ls ++ codePieces ls' := by
  rw [codePieces, text_append, List.map_append]
  rfl

@[simp] theorem uncomment_codePieces (ls : List String) : uncomment (codePieces ls) = text ls :=
  uncomment_map_code _

theorem reads_text {ls : List String} (h : ∀ l ∈ ls, '/' ∉ l.toList) :
    Reads (text ls) (codePieces ls) := by
  refine reads_code fun hmem => ?_
  obtain ⟨l, hl, hslash⟩ := List.mem_flatMap.1 hmem
  rcases List.mem_append.1 hslash with hslash | hslash
  · exact h l hl hslash
  · exact absurd hslash (by decide)

/-- A line that is a comment. -/
theorem reads_text_comment {l : String} {cs : List Char} (h : Unclosed cs)
    (hl : l.toList = '/' :: '*' :: (cs ++ ['*', '/'])) :
    Reads (text [l]) (.comment cs :: codePieces [""]) := by
  have hnewLine : Reads ['\n'] (codePieces [""]) := reads_code (by decide)
  rw [text_cons, hl]
  exact (reads_comment h).append hnewLine

/-! ### The comments -/

/-- What the first comment says. -/
def titleText (m : Manifest) : List Char :=
  ' ' :: (m.runtime.toList ++ (" runtime ABI (".toList ++ (m.version.toList ++
    (", abi_major ".toList ++ ((toString m.abiMajor).toList ++
      (", surface ".toList ++ m.surface.name.toList ++ "). Generated by doit-abi. ".toList))))))

theorem toList_title (m : Manifest) :
    (title m).toList = '/' :: '*' :: (titleText m ++ ['*', '/']) := by
  simp [title, titleText]

theorem quiet_toString (n : Nat) : Quiet (toString n).toList := by
  intro c hc
  rw [Nat.toString_eq_ofList_toDigits, String.toList_ofList] at hc
  have hdigit := Nat.isDigit_of_mem_toDigits (by decide) (by decide) hc
  constructor
  · rintro rfl
    exact absurd hdigit (by decide)
  · rintro rfl
    exact absurd hdigit (by decide)

theorem quiet_surfaceName (f : SurfaceFilter) : Quiet f.name.toList := by
  cases f <;> decide

theorem unclosed_titleText {m : Manifest} (h : m.Printable) : Unclosed (titleText m) := by
  have hend : Quiet (", abi_major ".toList ++ ((toString m.abiMajor).toList ++
      (", surface ".toList ++ m.surface.name.toList ++ "). Generated by doit-abi. ".toList))) :=
    .append (by decide) (.append (quiet_toString _)
      (.append (.append (by decide) (quiet_surfaceName _)) (by decide)))
  have hversion := h.version.append_quiet hend
  have hopen : Quiet " runtime ABI (".toList := by decide
  have hspace : Quiet [' '] := by decide
  exact hspace.append_unclosed (h.runtime.around hopen (by decide) hversion)

/-- What the comment of a primitive says. -/
def descriptionText (d : Declaration) : List Char := ' ' :: ((description d).toList ++ [' '])

theorem toList_description (d : Declaration) : (description d).toList =
    ", ".toList.intercalate (d.names.map fun n => (mention n).toList) ++
      if d.unchecked then "; unchecked address".toList else [] := by
  rw [description, String.toList_append, String.toList_intercalate, List.map_map]
  split <;> rfl

theorem unclosed_mention {n : PublicName} (hsurface : Unclosed n.surface.toList)
    (hname : Unclosed n.name.toList) : Unclosed (mention n).toList := by
  have hmention : (mention n).toList =
      n.surface.toList ++ (" `".toList ++ (n.name.toList ++ "`".toList)) := by
    simp [mention]
  rw [hmention]
  exact hsurface.around (by decide) (by decide) (hname.append_quiet (by decide))

theorem unclosed_descriptionText {d : Declaration} (h : d.Printable) :
    Unclosed (descriptionText d) := by
  have hnames : Unclosed (", ".toList.intercalate (d.names.map fun n => (mention n).toList)) := by
    refine Unclosed.intercalate (by decide) (by decide) ?_
    rw [List.forall_mem_map]
    exact fun n hn => unclosed_mention (h.names n hn).1 (h.names n hn).2
  have hsuffix : Quiet (if d.unchecked then "; unchecked address".toList else []) := by
    split <;> decide
  have hdescription := hnames.append_quiet hsuffix
  rw [← toList_description] at hdescription
  have hspace : Quiet [' '] := by decide
  exact hspace.append_unclosed (hdescription.append_quiet hspace)

/-! ### The code -/

namespace OfChars

variable {class? : Char → Bool} {s s' : String}

theorem append (h : OfChars class? s) (h' : OfChars class? s') : OfChars class? (s ++ s') := by
  intro c hc
  rw [String.toList_append] at hc
  exact (List.mem_append.1 hc).elim (h c) (h' c)

theorem mono {wider? : Char → Bool} (hwider : ∀ c, class? c = true → wider? c = true)
    (h : OfChars class? s) : OfChars wider? s :=
  fun c hc => hwider c (h c hc)

theorem intercalate {ss : List String} (hsep : OfChars class? s)
    (h : ∀ s ∈ ss, OfChars class? s) : OfChars class? (s.intercalate ss) := by
  induction ss with
  | nil => exact fun c hc => nomatch hc
  | cons t ss ih =>
    obtain ⟨ht, hss⟩ := List.forall_mem_cons.1 h
    cases ss with
    | nil => simpa using ht
    | cons t' ss =>
      rw [String.intercalate_cons_cons]
      exact (ht.append hsep).append (ih hss)

/-- A character of no such class is not in the text. -/
theorem not_mem (h : OfChars class? s) {c : Char} (hc : class? c = false) : c ∉ s.toList := by
  intro hmem
  rw [h c hmem] at hc
  exact nomatch hc

end OfChars

/-- The characters of declarators. -/
def isDeclChar (c : Char) : Bool := isWordChar c || c = ' ' || c = '*'

/-- The characters of lists of declarators. -/
def isListChar (c : Char) : Bool := isDeclChar c || c = ','

/-- The characters of lines that declare. -/
def isCodeChar (c : Char) : Bool := isListChar c || ['(', ')', ';'].contains c

theorem isDeclChar_of_isWordChar (c : Char) (h : isWordChar c = true) : isDeclChar c = true := by
  rw [isDeclChar, h]
  rfl

theorem isListChar_of_isDeclChar (c : Char) (h : isDeclChar c = true) : isListChar c = true := by
  rw [isListChar, h]
  rfl

theorem isCodeChar_of_isListChar (c : Char) (h : isListChar c = true) : isCodeChar c = true := by
  rw [isCodeChar, h]
  rfl

theorem isCodeChar_of_isDeclChar (c : Char) (h : isDeclChar c = true) : isCodeChar c = true :=
  isCodeChar_of_isListChar c (isListChar_of_isDeclChar c h)

theorem IsType.ofChars {s : String} (h : IsType s) : OfChars isDeclChar s := by
  obtain ⟨t, rfl⟩ := h
  cases t <;> decide

theorem ofChars_declarator {ctype name : String} (htype : IsType ctype)
    (hname : IsIdentifier name) : OfChars isDeclChar (declarator ctype name) := by
  have hword := hname.word.mono isDeclChar_of_isWordChar
  rw [declarator]
  split
  · exact htype.ofChars.append hword
  · exact (htype.ofChars.append (by decide)).append hword

theorem ofChars_parameters {ps : List DeclaredParam}
    (h : ∀ p ∈ ps, IsIdentifier p.name ∧ IsType p.ctype) : OfChars isListChar (parameters ps) := by
  rw [parameters.eq_def]
  split
  · decide
  · refine OfChars.intercalate (by decide) (List.forall_mem_map.2 ?_)
    intro p hp
    exact (ofChars_declarator (h p hp).2 (h p hp).1).mono isListChar_of_isDeclChar

theorem ofChars_prototype {d : Declaration} (h : d.Printable) :
    OfChars isCodeChar (prototype d ++ ";") := by
  have hmark : ∀ mark ∈ ["(", ")", ";"], OfChars isCodeChar mark := by decide
  have hhead := (ofChars_declarator h.result h.symbol).mono isCodeChar_of_isDeclChar
  have hopen := hhead.append (hmark "(" (by decide))
  have hparams := (ofChars_parameters h.params).mono isCodeChar_of_isListChar
  exact ((hopen.append hparams).append (hmark ")" (by decide))).append (hmark ";" (by decide))

theorem ofChars_importLine {i : String} (h : IsIdentifier i) :
    OfChars isCodeChar ("void " ++ i ++ "(void);") := by
  have hword := (h.word.mono isDeclChar_of_isWordChar).mono isCodeChar_of_isDeclChar
  exact (OfChars.append (by decide) hword).append (by decide)

/-! ### The lines that are left -/

/-- The lines before the imports. -/
def preamble : List String :=
  ["", "#ifndef DOIT_RT_H", "#define DOIT_RT_H", "", "#include <stdint.h>", "",
   "#ifdef __cplusplus", "extern \"C\" \x7b", "#endif", "", ""]

/-- A line for each import. -/
def importLines (imports : List String) : List String :=
  imports.map fun i => "void " ++ i ++ "(void);"

/-- The lines of a primitive; of its comment a blank line is left. -/
def declarationLines (d : Declaration) : List String := ["", "", prototype d ++ ";"]

/-- The lines after the declarations. -/
def trailer : List String := ["", "#ifdef __cplusplus", "\x7d", "#endif", "", "#endif "]

/-- The lines of the header of a manifest, without the comments. -/
def codeLines (m : Manifest) : List String :=
  preamble ++ importLines m.imports ++ m.primitives.flatMap declarationLines ++ trailer

/-! ### The pieces of the header -/

def titlePieces (m : Manifest) : List Piece := .comment (titleText m) :: codePieces [""]

def openingPieces : List Piece :=
  codePieces opening.dropLast ++
    .comment " Defined by the generated program. ".toList :: codePieces [""]

def primitivePieces (d : Declaration) : List Piece :=
  codePieces [""] ++ .comment (descriptionText d) :: codePieces ["", prototype d ++ ";"]

def endingPieces : List Piece :=
  codePieces ending.dropLast ++ "#endif ".toList.map .code ++
    .comment " DOIT_RT_H ".toList :: codePieces [""]

theorem reads_opening : Reads (text opening) openingPieces := by
  have hcode : ∀ l ∈ opening.dropLast, '/' ∉ l.toList := by decide
  have hcomment : Reads (text ["/* Defined by the generated program. */"])
      (.comment " Defined by the generated program. ".toList :: codePieces [""]) :=
    reads_text_comment (by decide) rfl
  exact (reads_text hcode).append hcomment

theorem reads_imports {m : Manifest} (h : m.Printable) :
    Reads (text (m.imports.map importLine)) (codePieces (importLines m.imports)) := by
  refine reads_text (List.forall_mem_map.2 fun i hi => ?_)
  exact (ofChars_importLine (h.imports i hi)).not_mem (by decide)

theorem reads_primitive {d : Declaration} (h : d.Printable) :
    Reads (text (primitiveLines d)) (primitivePieces d) := by
  have hblank : Reads (text [""]) (codePieces [""]) := reads_text (by decide)
  have hcomment : Reads (text ["/* " ++ description d ++ " */"])
      (.comment (descriptionText d) :: codePieces [""]) :=
    reads_text_comment (unclosed_descriptionText h) (by simp [descriptionText])
  have hprototype : Reads (text [prototype d ++ ";"]) (codePieces [prototype d ++ ";"]) :=
    reads_text (List.forall_mem_singleton.2 ((ofChars_prototype h).not_mem (by decide)))
  have hlines := hblank.append (hcomment.append hprototype)
  rw [← text_append, ← text_append] at hlines
  have hcode : codePieces ["", prototype d ++ ";"] =
      codePieces [""] ++ codePieces [prototype d ++ ";"] := codePieces_append [""] _
  rw [primitivePieces, hcode]
  exact hlines

theorem reads_ending : Reads (text ending) endingPieces := by
  have hcode : ∀ l ∈ ending.dropLast, '/' ∉ l.toList := by decide
  have hguard : Reads "#endif ".toList ("#endif ".toList.map .code) := reads_code (by decide)
  have hcomment : Reads (text ["/* DOIT_RT_H */"])
      (.comment " DOIT_RT_H ".toList :: codePieces [""]) :=
    reads_text_comment (by decide) rfl
  exact ((reads_text hcode).append hguard).append hcomment

/-- The pieces of the header. -/
theorem pieces_render {m : Manifest} (h : m.Printable) :
    pieces (render m).toList = titlePieces m ++ openingPieces ++
      codePieces (importLines m.imports) ++ m.primitives.flatMap primitivePieces ++
      endingPieces := by
  have htitle : Reads (text [title m]) (titlePieces m) :=
    reads_text_comment (unclosed_titleText h) (toList_title m)
  have hprimitives : Reads (text (m.primitives.flatMap primitiveLines))
      (m.primitives.flatMap primitivePieces) := by
    rw [text_flatMap]
    exact Reads.flatMap fun d hd => reads_primitive (h.primitives d hd)
  have hlines := (((htitle.append reads_opening).append (reads_imports h)).append
    hprimitives).append reads_ending
  rw [toList_render, lines]
  simp only [← text_append] at hlines
  exact hlines.pieces_eq

theorem uncomment_flatMap {α : Type} (f : α → List Piece) (as : List α) :
    uncomment (as.flatMap f) = as.flatMap fun a => uncomment (f a) :=
  List.filterMap_flatMap

theorem uncomment_primitivePieces (d : Declaration) :
    uncomment (primitivePieces d) = text (declarationLines d) := by
  rw [primitivePieces, uncomment_append, uncomment_comment, uncomment_codePieces,
    uncomment_codePieces, ← text_append]
  rfl

/-- What is left up to some primitive. -/
theorem uncomment_front {m : Manifest} (ds : List Declaration) :
    uncomment (titlePieces m ++ openingPieces ++ codePieces (importLines m.imports) ++
      ds.flatMap primitivePieces) =
    text (preamble ++ importLines m.imports ++ ds.flatMap declarationLines) := by
  have hpreamble : uncomment (titlePieces m ++ openingPieces) = text preamble := by
    rw [uncomment_append, titlePieces, uncomment_comment, openingPieces]
    rfl
  have hprimitives : uncomment (ds.flatMap primitivePieces) =
      text (ds.flatMap declarationLines) := by
    rw [uncomment_flatMap, text_flatMap]
    simp only [uncomment_primitivePieces]
  rw [uncomment_append, uncomment_append, hpreamble, hprimitives, uncomment_codePieces,
    text_append, text_append]

/-- What is left of the header without its comments. -/
theorem uncomment_pieces_render {m : Manifest} (h : m.Printable) :
    uncomment (pieces (render m).toList) = text (codeLines m) := by
  have htrailer : uncomment endingPieces = text trailer := rfl
  rw [pieces_render h, uncomment_append, uncomment_front, htrailer, codeLines, ← text_append]

end Header

end PrimitiveAbi
