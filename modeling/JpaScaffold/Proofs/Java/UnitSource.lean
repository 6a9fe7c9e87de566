import JpaScaffold.Proofs.Java.Rendering
import JpaScaffold.Proofs.Layout.Sources

/-!
# Units are laid out

The text of a regular unit is a source in sections: its package, its imports, its comment and its
type. So every layout accepts it, and changes nothing but the order of the imports.
-/
namespace JpaScaffold.Java

open Layout (Balanced Content IsImport Loose Options Sections Sheet Spells Tidy format importLE
  laidComment mark page said sortedImports spells_mark unlines)
open Text (isBlank)

variable {cs word : List Char} {name : String} {w : List Content} {u : CompilationUnit}

/-! ## Import statements -/

/-- The statement that imports a name. -/
def importLine (name : String) : List Char := ("import " ++ name ++ ";").toList

theorem importLine_eq (name : String) :
    importLine name = "import".toList ++ ' ' :: name.toList ++ [';'] := by
  simp [importLine, String.toList_append]

theorem importLine_injective : Function.Injective importLine := by
  intro a b h
  rw [importLine_eq, importLine_eq] at h
  simpa [String.toList_inj] using h

theorem contents_ended (h : Spells .contents Loose cs w) :
    contents (cs ++ [';']) = some (w ++ [mark ';']) := by
  have hended : Spells .contents AtGap (cs ++ [';']) (w ++ [mark ';']) :=
    h.append (spells_mark (by decide)) fun _ _ => Layout.loose_of_mem (by decide) _
  have hall := hended.contents_eq atLineEnd_nil.atGap
  simpa using hall

theorem exists_spelled_keyword (hne : word ≠ []) (hw : ∀ c ∈ word, isWordChar c = true)
    (h : isQualifiedName name.toList = true) : ∃ ws, Balanced ws ∧
      Spells .contents Loose (word ++ ' ' :: name.toList) ((.word, word) :: ws) := by
  obtain ⟨ws, hname, hb, -⟩ := phrase_qualifiedName (A := True) h
  have hword : Spells .contents Loose word [(.word, word)] :=
    Layout.spells_of_reads fun _ hn => Layout.reads_word hne hw hn
  exact ⟨ws, hb, hword.append (hname.blank (by decide)) fun _ _ => Layout.loose_of_mem (by decide) _⟩

theorem mem_intercalate {c d : Char} {parts : List (List Char)} (h : c ∈ [d].intercalate parts) :
    c = d ∨ ∃ p ∈ parts, c ∈ p := by
  induction parts with
  | nil => cases h
  | cons p parts ih =>
    by_cases hne : parts = []
    · rw [hne, List.intercalate_singleton] at h
      exact .inr ⟨p, List.mem_cons_self, h⟩
    · rw [List.intercalate_cons_of_ne_nil hne, List.append_assoc, List.mem_append, List.mem_append,
        List.mem_singleton] at h
      rcases h with h | h | h
      · exact .inr ⟨p, List.mem_cons_self, h⟩
      · exact .inl h
      · exact (ih h).imp_right fun ⟨q, hq, hc⟩ => ⟨q, List.mem_cons_of_mem _ hq, hc⟩

theorem isBlank_of_isQualifiedName (h : isQualifiedName cs = true) : ∀ c ∈ cs, isBlank c = false := by
  intro c hc
  have hjoin : ['.'].intercalate (cs.splitOnP (· == '.')) = cs := List.intercalate_splitOn '.'
  rw [← hjoin] at hc
  rcases mem_intercalate hc with rfl | ⟨s, hs, hmem⟩
  · decide
  · rcases simple_or_star_of_isQualifiedName h s hs with hsimple | rfl
    · exact isBlank_eq_false_of_isWordChar (isWordChar_of_isSimpleName hsimple c hmem)
    · rw [List.mem_singleton.1 hmem]
      decide

theorem tidy_append {ds : List Char} (h : ∀ c ∈ cs, isBlank c = false) (hd : Tidy ds = true) :
    Tidy (cs ++ ds) = true := by
  induction cs with
  | nil => exact hd
  | cons c cs ih =>
    obtain ⟨hc, hcs⟩ := List.forall_mem_cons.1 h
    rw [List.cons_append]
    cases hrest : cs ++ ds with
    | nil => simp [Tidy, hc]
    | cons d rest => rw [Tidy, hc, ← hrest, ih hcs, Bool.not_false, Bool.true_or, Bool.true_and]

theorem isImport_importLine (h : isQualifiedName name.toList = true) : IsImport (importLine name) := by
  obtain ⟨ws, hb, hspells⟩ := @exists_spelled_keyword "import".toList _ (by decide)
    (List.all_eq_true.1 (by decide +kernel)) h
  obtain ⟨c, rest, hname, -⟩ := exists_cons_of_isQualifiedName h
  have hblank := isBlank_of_isQualifiedName h
  have hstart : isBlank c = false := hblank c (hname ▸ List.mem_cons_self)
  have htidy : Tidy (name.toList ++ [';']) = true := tidy_append hblank (by decide)
  have hbehind : Tidy (' ' :: (name.toList ++ [';'])) = true := by
    rw [hname] at htidy ⊢
    rw [List.cons_append] at htidy ⊢
    rw [Tidy, hstart, htidy]
    decide
  rw [importLine_eq, List.append_assoc]
  have hkeyword : "import".toList.all (fun c => !isBlank c) = true := by decide +kernel
  refine ⟨⟨ws, ?_, hb⟩, tidy_append (by simpa using hkeyword) hbehind, 'i', _, rfl, by decide⟩
  simpa using contents_ended hspells

/-! ## The lines of a unit -/

def docText (lines : List String) : List Char := page ((Item.doc lines).lines.map String.toList)

/-- The lines, as a doc comment, are one block comment, which a layout leaves as it is. -/
structure IsDoc (lines : List String) : Prop where
  reads : Reads .blockComment (docText lines) []
  laid : laidComment 0 (docText lines) = docText lines

/-- The names in the unit are names, its doc comment is a comment, and its type is regular. -/
structure CompilationUnit.Regular (u : CompilationUnit) : Prop where
  package : isQualifiedName u.package.toList = true
  imports : ∀ n ∈ u.imports, isQualifiedName n.toList = true
  nodup : u.imports.Nodup
  doc : ∃ lines, u.doc = some lines ∧ IsDoc lines
  decl : u.decl.Regular
  comments : u.comments = []

theorem TypeDecl.lines_ne_nil (d : TypeDecl) : d.lines ≠ [] := by
  cases d with
  | classDecl c => simp [TypeDecl.lines, ClassDecl.lines, braced]
  | interfaceDecl i => simp [TypeDecl.lines, InterfaceDecl.lines, braced]

theorem unlines_join (front : List (List Char)) {lines : List (List Char)} (h : lines ≠ [])
    (more : List (List Char)) :
    unlines (front ++ page lines :: more) = unlines (front ++ (lines ++ more)) := by
  have hlines := Layout.unlines_eq_page h
  simp only [unlines, List.flatMap_append, List.flatMap_cons] at hlines ⊢
  rw [hlines]

/-- The text of a unit, section by section. -/
theorem CompilationUnit.text_eq {lines : List String} (hdoc : u.doc = some lines)
    (hcomments : u.comments = []) : u.text.toList =
      unlines (("package " ++ u.package ++ ";").toList ::
        (u.imports.map importLine ++ docText lines :: u.decl.lines.map String.toList)) := by
  have hlines : u.lines = ("package " ++ u.package ++ ";") ::
      (u.imports.map (fun n => "import " ++ n ++ ";") ++
        ((Item.doc lines).lines ++ u.decl.lines)) := by
    rw [CompilationUnit.lines_eq, CompilationUnit.items, hdoc, hcomments]
    simp [Item.lines, List.flatMap_map, ← List.map_eq_flatMap]
  have hunlines : u.text.toList = unlines (u.lines.map String.toList) := by
    rw [CompilationUnit.text, String.toList_join, unlines, List.flatMap_map, List.flatMap_map]
    exact List.flatMap_congr fun line _ => String.toList_append
  have hne : (Item.doc lines).lines.map String.toList ≠ [] := by simp [Item.lines]
  have hjoin := unlines_join (("package " ++ u.package ++ ";").toList :: u.imports.map importLine)
    hne (u.decl.lines.map String.toList)
  rw [List.cons_append] at hjoin
  have himport : importLine = fun n => ("import " ++ n ++ ";").toList := rfl
  rw [hunlines, hlines, docText, hjoin, himport]
  simp [Function.comp_def]

/-! ## The layout of a unit -/

/-- The second text says what the first one says, with the statements of the given imports put in
order among themselves. -/
def ImportsOrdered (imports : List (List Char)) (before behind : List Content) : Prop :=
  ∃ (front rest : List Content) (ordered : List (List Char)),
    ordered.Perm imports ∧ ordered.Pairwise (fun a b => importLE a b = true) ∧
    before = front ++ imports.flatMap said ++ rest ∧ behind = front ++ ordered.flatMap said ++ rest

theorem CompilationUnit.Regular.sections (h : u.Regular) {lines : List String} (hdoc : IsDoc lines) :
    ∃ clause w, Sections ("package " ++ u.package ++ ";").toList (u.imports.map importLine)
      (docText lines) (u.decl.lines.map String.toList) clause w := by
  obtain ⟨ws, hb, hspells⟩ := @exists_spelled_keyword "package".toList _ (by decide)
    (List.all_eq_true.1 (by decide +kernel)) h.package
  obtain ⟨w, hdecl, hmembers⟩ := h.decl.sheet
  refine ⟨(.word, "package".toList) :: ws, w, ?_, ?_, ?_, hdoc.reads, hdoc.laid, hdecl, hmembers, ?_⟩
  · simpa [String.toList_append] using contents_ended hspells
  · exact ⟨.plain (.inl rfl) hb, "package".toList, ws, rfl, by decide, by decide⟩
  · intro line hline
    obtain ⟨n, hn, rfl⟩ := List.mem_map.1 hline
    exact isImport_importLine (h.imports n hn)
  · simpa using u.decl.lines_ne_nil

theorem CompilationUnit.Regular.exists_format (h : u.Regular) (o : Options) :
    ∃ text ts ts', format o u.text.toList = .ok text ∧ tokenize u.text.toList = .ok ts ∧
      tokenize text = .ok ts' ∧
      ImportsOrdered (u.imports.map importLine) (ts.map Token.content) (ts'.map Token.content) := by
  obtain ⟨lines, hlines, hdoc⟩ := h.doc
  obtain ⟨clause, w, hsections⟩ := h.sections hdoc
  obtain ⟨text, hformat, hbefore, hbehind⟩ := hsections.exists_format o
  rw [← CompilationUnit.text_eq hlines h.comments] at hformat hbefore
  obtain ⟨ts, hts, hsource⟩ := contents_eq_some_iff.1 hbefore
  obtain ⟨ts', hts', htext⟩ := contents_eq_some_iff.1 hbehind
  have hnodup : (u.imports.map importLine).Nodup := h.nodup.map importLine_injective
  exact ⟨text, ts, ts', hformat, hts, hts', _, _, _, Layout.sortedImports_perm hnodup,
    (Layout.pairwise_sortedImports _).imp And.left, hsource, htext⟩

end JpaScaffold.Java
