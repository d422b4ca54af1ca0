import PrimitiveAbi.Proofs.Header.Layout
import PrimitiveAbi.Proofs.Spans

/-!
# Declarations read from a header

The lines of a header that are left without its comments are read as C declares: the name of a
declarator is the word at its end, and its type is what stands before. What is read are the imports
and the signatures of the manifest (`Header.read_text_codeLines`), so no two manifests with one
header differ in them; and the comment before a prototype tells whether the primitive is unchecked.
-/

namespace PrimitiveAbi

/-- What C is told of a primitive. -/
structure Signature where
  symbol : String
  result : String
  params : List DeclaredParam
  deriving DecidableEq, Repr

def Declaration.signature (d : Declaration) : Signature := ⟨d.symbol, d.result, d.params⟩

namespace Header

open Comment Text

/-! ### The reader -/

/-- A name with its type: the word at the end, and what stands before it less one space. -/
def readDeclarator (cs : List Char) : DeclaredParam :=
  let type := cs.rdropWhile isWordChar
  { name := String.ofList (cs.rtakeWhile isWordChar)
    ctype := String.ofList (if type.getLast? = some ' ' then type.dropLast else type) }

/-- The parameters of a prototype, from between its parentheses. -/
def readParameters (cs : List Char) : List DeclaredParam :=
  if cs = "void".toList then []
  else (cs.splitOn ',').map fun p => readDeclarator (p.dropWhile (· = ' '))

/-- The signature that a prototype declares. -/
def readPrototype (cs : List Char) : Signature :=
  let function := readDeclarator (cs.takeWhile (· ≠ '('))
  let behind := (cs.dropWhile (· ≠ '(')).tail
  { symbol := function.name
    result := function.ctype
    params := readParameters (behind.takeWhile (· ≠ ')')) }

/-- The imports and the signatures of a header without its comments. Up to a blank line there are
imports; of the lines behind, those that end with a semicolon declare primitives. -/
def read (code : List Char) : List String × List Signature :=
  let ls := (code.splitOn '\n').drop preamble.length
  (((ls.takeWhile (· ≠ [])).map fun l => (readPrototype l).symbol),
    ((ls.dropWhile (· ≠ [])).filter (·.getLast? = some ';')).map readPrototype)

/-! ### Declarators -/

/-- Any type reads back, as long as the name is a word. -/
theorem readDeclarator_declarator {ctype name : String} (h : OfChars isWordChar name) :
    readDeclarator (declarator ctype name).toList = ⟨name, ctype⟩ := by
  by_cases hstar : ctype.toList.getLast? = some '*'
  · have hspan : (ctype.toList ++ name.toList).rtakeWhile isWordChar = name.toList ∧
        (ctype.toList ++ name.toList).rdropWhile isWordChar = ctype.toList :=
      rtakeWhile_append_stop (by rw [hstar]; rintro _ ⟨⟩; decide) h
    rw [declarator, if_pos hstar, String.toList_append, readDeclarator, hspan.1, hspan.2, hstar,
      if_neg (by decide), String.ofList_toList, String.ofList_toList]
  · have hspan : ((ctype.toList ++ [' ']) ++ name.toList).rtakeWhile isWordChar = name.toList ∧
        ((ctype.toList ++ [' ']) ++ name.toList).rdropWhile isWordChar = ctype.toList ++ [' '] :=
      rtakeWhile_append_stop (by rw [List.getLast?_concat]; rintro _ ⟨⟩; decide) h
    have htext : (ctype ++ " " ++ name).toList = (ctype.toList ++ [' ']) ++ name.toList := by simp
    rw [declarator, if_neg hstar, htext, readDeclarator, hspan.1, hspan.2, List.getLast?_concat,
      if_pos rfl, List.dropLast_concat, String.ofList_toList, String.ofList_toList]

/-- A declarator does not begin with a space. -/
theorem dropWhile_declarator {ctype : String} (h : IsType ctype) (name : String) :
    (declarator ctype name).toList.dropWhile (· = ' ') = (declarator ctype name).toList := by
  obtain ⟨c, cs, hc, hne⟩ : ∃ c cs, ctype.toList = c :: cs ∧ c ≠ ' ' := by
    obtain ⟨t, rfl⟩ := h
    cases t <;> exact ⟨_, _, rfl, by decide⟩
  have hdecl : ∃ rest, (declarator ctype name).toList = c :: rest := by
    rw [declarator]
    split <;> simp [hc]
  obtain ⟨rest, hrest⟩ := hdecl
  rw [hrest, List.dropWhile_cons_of_neg (by simpa using hne)]

/-- A declarator has a space or a star in it. -/
theorem exists_mem_declarator (ctype name : String) :
    ∃ c ∈ (declarator ctype name).toList, c = ' ' ∨ c = '*' := by
  rw [declarator]
  split
  · next hstar => exact ⟨'*', by simp [List.mem_of_getLast? hstar], .inr rfl⟩
  · exact ⟨' ', by simp, .inl rfl⟩

/-! ### Prototypes -/

theorem splitOn_intercalate_comma {cs : List Char} {css : List (List Char)}
    (h : ∀ l ∈ cs :: css, ',' ∉ l) :
    (", ".toList.intercalate (cs :: css)).splitOn ',' = cs :: css.map (' ' :: ·) := by
  induction css generalizing cs with
  | nil =>
    rw [List.intercalate_singleton, splitOn_of_not_mem (h cs List.mem_cons_self)]
    rfl
  | cons ds css ih =>
    obtain ⟨hcs, hds, hcss⟩ : ',' ∉ cs ∧ ',' ∉ ds ∧ ∀ l ∈ css, ',' ∉ l := by simpa using h
    -- the space behind the comma goes to the text after it
    have hspace : ' ' :: ", ".toList.intercalate (ds :: css) =
        ", ".toList.intercalate ((' ' :: ds) :: css) := by
      cases css <;> simp [List.intercalate_cons_cons]
    have hjoin : ", ".toList.intercalate (cs :: ds :: css) =
        cs ++ ',' :: ", ".toList.intercalate ((' ' :: ds) :: css) := by
      rw [← hspace, List.intercalate_cons_cons]
      simp
    rw [hjoin, splitOn_append_cons hcs, ih (by simpa [hds] using hcss)]
    rfl

theorem toList_parameters_cons (p : DeclaredParam) (ps : List DeclaredParam) :
    (parameters (p :: ps)).toList = ", ".toList.intercalate
      ((p :: ps).map fun q => (declarator q.ctype q.name).toList) := by
  rw [parameters, String.toList_intercalate, List.map_map]
  · rfl
  · exact List.cons_ne_nil p ps

theorem parameters_cons_ne_void (p : DeclaredParam) (ps : List DeclaredParam) :
    (parameters (p :: ps)).toList ≠ "void".toList := by
  intro hvoid
  obtain ⟨c, hc, hmark⟩ := exists_mem_declarator p.ctype p.name
  have hmem : c ∈ (parameters (p :: ps)).toList := by
    rw [toList_parameters_cons]
    cases ps with
    | nil => simpa using hc
    | cons q ps =>
      rw [List.map_cons, List.map_cons, List.intercalate_cons_cons]
      exact List.mem_append_left _ (List.mem_append_left _ hc)
  rw [hvoid] at hmem
  rcases hmark with rfl | rfl
  · exact absurd hmem (by decide)
  · exact absurd hmem (by decide)

theorem readParameters_parameters {ps : List DeclaredParam}
    (h : ∀ p ∈ ps, IsIdentifier p.name ∧ IsType p.ctype) :
    readParameters (parameters ps).toList = ps := by
  cases ps with
  | nil => rfl
  | cons p ps =>
    have hcomma : ∀ l ∈ (p :: ps).map fun q => (declarator q.ctype q.name).toList, ',' ∉ l := by
      rw [List.forall_mem_map]
      intro q hq
      exact (ofChars_declarator (h q hq).2 (h q hq).1).not_mem (by decide)
    have hread : ∀ q ∈ p :: ps, readDeclarator
        ((declarator q.ctype q.name).toList.dropWhile (· = ' ')) = q := by
      intro q hq
      rw [dropWhile_declarator (h q hq).2, readDeclarator_declarator (h q hq).1.word]
    obtain ⟨hp, hps⟩ := List.forall_mem_cons.1 hread
    rw [readParameters, if_neg (parameters_cons_ne_void p ps), toList_parameters_cons,
      List.map_cons, splitOn_intercalate_comma hcomma, List.map_cons, hp, List.map_map,
      List.map_map]
    -- the space after a comma is dropped
    exact congrArg _ ((List.map_congr_left fun q hq => hps q hq).trans (List.map_id ps))

theorem readPrototype_eq {ctype name params : String} (hname : OfChars isWordChar name)
    (hhead : '(' ∉ (declarator ctype name).toList) (hparams : ')' ∉ params.toList) :
    readPrototype (declarator ctype name ++ "(" ++ params ++ ")" ++ ";").toList =
      ⟨name, ctype, readParameters params.toList⟩ := by
  have htext : (declarator ctype name ++ "(" ++ params ++ ")" ++ ";").toList =
      (declarator ctype name).toList ++ '(' :: (params.toList ++ [')', ';']) := by simp
  have hopen : ((declarator ctype name).toList ++ '(' :: (params.toList ++ [')', ';'])).takeWhile
        (· ≠ '(') = (declarator ctype name).toList ∧
      ((declarator ctype name).toList ++ '(' :: (params.toList ++ [')', ';'])).dropWhile
        (· ≠ '(') = '(' :: (params.toList ++ [')', ';']) :=
    takeWhile_append_stop (fun c hc => by simpa using fun heq : c = '(' => hhead (heq ▸ hc))
      (by simp)
  have hclose : (params.toList ++ [')', ';']).takeWhile (· ≠ ')') = params.toList :=
    (takeWhile_append_stop (fun c hc => by simpa using fun heq : c = ')' => hparams (heq ▸ hc))
      (by simp)).1
  rw [htext, readPrototype, hopen.1, hopen.2, List.tail_cons, hclose,
    readDeclarator_declarator hname]

theorem readPrototype_prototype {d : Declaration} (h : d.Printable) :
    readPrototype (prototype d ++ ";").toList = d.signature := by
  rw [prototype, readPrototype_eq h.symbol.word
    ((ofChars_declarator h.result h.symbol).not_mem (by decide))
    ((ofChars_parameters h.params).not_mem (by decide)), readParameters_parameters h.params]
  rfl

/-- An import is declared as a function without parameters and without a result. -/
theorem readPrototype_importLine {i : String} (h : IsIdentifier i) :
    (readPrototype ("void " ++ i ++ "(void);").toList).symbol = i := by
  have hvoid : IsType "void" := ⟨.void, rfl⟩
  have hline : ("void " ++ i ++ "(void);").toList =
      (declarator "void" i ++ "(" ++ "void" ++ ")" ++ ";").toList := by
    simp [declarator]
  rw [hline, readPrototype_eq h.word ((ofChars_declarator hvoid h).not_mem (by decide))
    (by decide)]

/-! ### Headers -/

theorem splitOn_text {ls : List String} (h : ∀ l ∈ ls, '\n' ∉ l.toList) :
    (text ls).splitOn '\n' = ls.map String.toList ++ [[]] := by
  induction ls with
  | nil => rfl
  | cons l ls ih =>
    obtain ⟨hl, hls⟩ := List.forall_mem_cons.1 h
    rw [text_cons, splitOn_append_cons hl, ih hls]
    rfl

theorem newLine_not_mem_codeLines {m : Manifest} (h : m.Printable) :
    ∀ l ∈ codeLines m, '\n' ∉ l.toList := by
  have hpreamble : ∀ l ∈ preamble, '\n' ∉ l.toList := by decide
  have himports : ∀ l ∈ importLines m.imports, '\n' ∉ l.toList := by
    refine List.forall_mem_map.2 fun i hi => ?_
    exact (ofChars_importLine (h.imports i hi)).not_mem (by decide)
  have hprimitives : ∀ l ∈ m.primitives.flatMap declarationLines, '\n' ∉ l.toList := by
    intro l hl
    obtain ⟨d, hd, hl⟩ := List.mem_flatMap.1 hl
    have hline := (ofChars_prototype (h.primitives d hd)).not_mem (c := '\n') (by decide)
    rw [declarationLines] at hl
    simp only [List.mem_cons, List.not_mem_nil, or_false] at hl
    rcases hl with rfl | rfl | rfl
    · decide
    · decide
    · exact hline
  have htrailer : ∀ l ∈ trailer, '\n' ∉ l.toList := by decide
  simp only [codeLines, List.forall_mem_append]
  exact ⟨⟨⟨hpreamble, himports⟩, hprimitives⟩, htrailer⟩

/-- The lines of primitives and those after them. -/
def restLines (ds : List Declaration) : List (List Char) :=
  (ds.flatMap declarationLines ++ trailer).map String.toList ++ [[]]

/-- Of the lines after the imports, the prototypes end with a semicolon. -/
theorem filter_restLines (ds : List Declaration) :
    (restLines ds).filter (·.getLast? = some ';') = ds.map fun d => (prototype d ++ ";").toList := by
  induction ds with
  | nil => rfl
  | cons d ds ih =>
    have hrest : restLines (d :: ds) =
        [] :: [] :: (prototype d ++ ";").toList :: restLines ds := by
      simp [restLines, declarationLines]
    rw [hrest, List.filter_cons_of_neg (by simp), List.filter_cons_of_neg (by simp),
      List.filter_cons_of_pos (by simp), ih]
    rfl

/-- What is read from the lines is what the manifest holds. -/
theorem read_text_codeLines {m : Manifest} (h : m.Printable) :
    read (text (codeLines m)) = (m.imports, m.primitives.map Declaration.signature) := by
  have hlines : ((text (codeLines m)).splitOn '\n').drop preamble.length =
      (importLines m.imports).map String.toList ++ restLines m.primitives := by
    rw [splitOn_text (newLine_not_mem_codeLines h), codeLines, List.append_assoc,
      List.append_assoc, List.map_append, List.append_assoc,
      List.drop_left' (List.length_map _), List.map_append, List.append_assoc]
    rfl
  have hnonempty : ∀ l ∈ (importLines m.imports).map String.toList, decide (l ≠ []) = true := by
    simp [importLines]
  have hblank : ∀ l ∈ (restLines m.primitives).head?, decide (l ≠ []) = false := by
    have hhead : (restLines m.primitives).head? = some [] := by cases m.primitives <;> rfl
    rw [hhead]
    decide
  have hspan := takeWhile_append_stop hnonempty hblank
  have himports : ((importLines m.imports).map String.toList).map
      (fun l => (readPrototype l).symbol) = m.imports := by
    rw [importLines, List.map_map, List.map_map]
    exact (List.map_congr_left fun i hi => readPrototype_importLine (h.imports i hi)).trans
      (List.map_id _)
  have hsignatures : (m.primitives.map fun d => (prototype d ++ ";").toList).map readPrototype =
      m.primitives.map Declaration.signature := by
    rw [List.map_map]
    exact List.map_congr_left fun d hd => readPrototype_prototype (h.primitives d hd)
  rw [read, hlines, hspan.1, hspan.2, filter_restLines, himports, hsignatures]

/-! ### Comments before prototypes -/

/-- The names in a comment end with a quote. -/
theorem getLast?_mentions (ns : List PublicName) :
    (' ' :: ", ".toList.intercalate (ns.map fun n => (mention n).toList)).getLast? ≠ some 's' := by
  by_cases hne : ns.map (fun n => (mention n).toList) = []
  · rw [hne]
    decide
  · have hquote : ∀ cs ∈ ns.map fun n => (mention n).toList, cs.getLast? = some '\x60' := by
      rw [List.forall_mem_map]
      intro n _
      rw [mention, String.toList_append]
      exact List.getLast?_concat
    rw [List.getLast?_cons, getLast?_intercalate hne hquote]
    decide

/-- The comment of a primitive ends with the remark exactly if the primitive is unchecked. -/
theorem suffix_descriptionText_iff (d : Declaration) :
    "; unchecked address ".toList <:+ descriptionText d ↔ d.unchecked = true := by
  rw [descriptionText, toList_description]
  constructor
  · intro hsuffix
    by_contra hunchecked
    rw [if_neg hunchecked, List.append_nil] at hsuffix
    obtain ⟨front, hfront⟩ := hsuffix
    have hspace : (front ++ "; unchecked address".toList) ++ [' '] =
        (' ' :: ", ".toList.intercalate (d.names.map fun n => (mention n).toList)) ++ [' '] := by
      simpa using hfront
    refine getLast?_mentions d.names ?_
    rw [← List.append_cancel_right hspace, List.getLast?_append]
    rfl
  · intro hunchecked
    rw [if_pos hunchecked]
    exact ⟨' ' :: ", ".toList.intercalate (d.names.map fun n => (mention n).toList), by simp⟩

end Header

open Comment Header in
/-- The header says what the manifest says. Its comments deleted, the preamble is left, a line for
each import, a prototype for each primitive, and the trailer. The imports and the signatures of the
primitives are read back from these lines, so manifests with the same header agree in them. And the
comment right before a prototype ends with the remark exactly if the primitive is unchecked. -/
theorem header_says_manifest (m : Manifest) (h : m.Printable) :
    uncomment (pieces (render m).toList) = text (codeLines m) ∧
    read (text (codeLines m)) = (m.imports, m.primitives.map Declaration.signature) ∧
    (∀ m' : Manifest, m'.Printable → render m' = render m → m'.imports = m.imports ∧
      m'.primitives.map Declaration.signature = m.primitives.map Declaration.signature) ∧
    ∀ before d behind, m.primitives = before ++ d :: behind →
      ∃ head comment tail, pieces (render m).toList =
          head ++ .comment comment :: codePieces ["", prototype d ++ ";"] ++ tail ∧
        uncomment head = text (preamble ++ importLines m.imports ++
          before.flatMap declarationLines ++ [""]) ∧
        ("; unchecked address ".toList <:+ comment ↔ d.unchecked = true) := by
  refine ⟨uncomment_pieces_render h, read_text_codeLines h, ?_, ?_⟩
  · intro m' h' hrender
    have hcode : text (codeLines m') = text (codeLines m) := by
      rw [← uncomment_pieces_render h', hrender, uncomment_pieces_render h]
    have hread := read_text_codeLines h'
    rw [hcode, read_text_codeLines h] at hread
    exact ⟨(Prod.mk.inj hread).1.symm, (Prod.mk.inj hread).2.symm⟩
  · intro before d behind hsplit
    refine ⟨titlePieces m ++ openingPieces ++ codePieces (importLines m.imports) ++
      before.flatMap primitivePieces ++ codePieces [""], descriptionText d,
      behind.flatMap primitivePieces ++ endingPieces, ?_, ?_, suffix_descriptionText_iff d⟩
    · rw [pieces_render h, hsplit]
      simp [primitivePieces]
    · rw [uncomment_append, uncomment_front, uncomment_codePieces, ← text_append]

open Comment Header in
theorem header_says_manifest_catalog :
    (Manifest.build .all).Printable ∧
    read (uncomment (pieces (render (Manifest.build .all)).toList)) =
      ([Contract.entry], Catalog.all.map fun p => (p.declare .all).signature) ∧
    ∃ head comment tail, pieces (render (Manifest.build .all)).toList =
        head ++ .comment comment :: codePieces ["", "intptr_t peek(const intptr_t *addr);"] ++ tail ∧
      "; unchecked address ".toList <:+ comment := by
  obtain ⟨hcode, hread, -, hcomments⟩ :=
    header_says_manifest (Manifest.build .all) (Manifest.printable_build .all)
  obtain ⟨head, comment, tail, hpieces, -, hremark⟩ :=
    hcomments (Catalog.checked.map (·.declare .all)) _ _ rfl
  refine ⟨Manifest.printable_build .all, ?_, head, comment, tail, hpieces, hremark.2 rfl⟩
  rw [hcode, hread]
  rfl

end PrimitiveAbi
