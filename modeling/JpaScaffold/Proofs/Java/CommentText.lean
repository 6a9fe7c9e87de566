import JpaScaffold.Proofs.Java.Shape
import JpaScaffold.Proofs.Java.UnitSource
import JpaScaffold.Proofs.Layout.Preservation

/-!
# The text of comments and the code of a unit

A reader of a source stands in code or in a block comment. The text of a line takes it from one to
the other, or cannot be read on, and which of these happens does not depend on the text behind the
line. A comment that holds no closing mark leaves the reader in code and adds no code. So units that
differ in the text of such comments only have the same code.
-/
namespace JpaScaffold.Java

open Layout (Content codeOf codeOf_append page page_cons page_singleton unlines unlines_eq_page)
open Text (isBlank)

/-- The code of a source: what its tokens say that are no comments. -/
def codeTokens (source : List Char) : Option (List Content) :=
  (tokenize source).toOption.map fun ts => codeOf (ts.map Token.content)

theorem codeTokens_eq (cs : List Char) : codeTokens cs = (contents cs).map codeOf := by
  rw [codeTokens, contents, ← scan_of_tokensFrom 1 false cs, Option.map_map, Option.map_map]
  simp only [Function.comp_def, List.map_map]
  rfl

theorem codeTokens_blank {c : Char} {cs : List Char} (h : isBlank c = true) :
    codeTokens (c :: cs) = codeTokens cs := by
  rw [codeTokens_eq, contents_blank h, codeTokens_eq]

theorem codeTokens_append {kind : TokenKind} {text next : List Char} (h : Reads kind text next) :
    codeTokens (text ++ next) = (codeTokens next).map (codeOf [(kind, text)] ++ ·) := by
  rw [codeTokens_eq, contents_append h, codeTokens_eq, Option.map_map, Option.map_map]
  congr 1
  funext w
  exact codeOf_append [(kind, text)] w

theorem codeTokens_fault {c : Char} {cs : List Char} {fault : SourceFault} (hb : isBlank c = false)
    (h : lexeme c cs = .error fault) : codeTokens (c :: cs) = none := by
  rw [codeTokens, tokenize, tokensFrom_fault hb h]
  rfl

/-! ## Lexemes that a text leaves open -/

theorem commentTail_some_append {cs t r : List Char} (h : commentTail cs = some (t, r))
    (next : List Char) : commentTail (cs ++ next) = some (t, r ++ next) := by
  rw [← commentTail_append h, List.append_assoc]
  exact commentTail_append_right h _

theorem unclosed_of_commentTail {cs : List Char} (h : commentTail cs = none) : Unclosed cs := by
  fun_induction commentTail cs with
  | case1 => exact fun hi => absurd hi.length_le (by decide)
  | case2 => cases h
  | case3 c rest hne ih =>
    refine unclosed_cons.2 ⟨fun hc r hr => hne r hc hr, ih ?_⟩
    exact Option.map_eq_none_iff.1 h

/-- A literal that a text leaves open cannot be read, unless a backslash at the end of the text takes
the line feed behind it. -/
theorem literalTail_open {quote : Char} {cs : List Char} (h : literalTail quote cs = none)
    (hs : ¬ ['\\'] <:+ cs) (next : List Char) : literalTail quote (cs ++ '\n' :: next) = none := by
  fun_induction literalTail quote cs with
  | case1 => rfl
  | case2 => rfl
  | case3 => exact absurd (List.suffix_refl _) hs
  | case4 c rest ih =>
    have hrest : ¬ ['\\'] <:+ rest := fun hi =>
      hs (hi.trans ((List.suffix_cons c rest).trans (List.suffix_cons '\\' (c :: rest))))
    rw [List.cons_append, List.cons_append, literalTail, ih (Option.map_eq_none_iff.1 h) hrest]
    rfl
  | case5 => cases h
  | case6 c rest h1 h2 h3 hq ih =>
    have hrest : ¬ ['\\'] <:+ rest := fun hi => hs (hi.trans (List.suffix_cons c rest))
    have hc : c ≠ '\\' := by
      rintro rfl
      cases rest with
      | nil => exact hs (List.suffix_refl _)
      | cons d tail => exact h3 d tail rfl rfl
    rw [List.cons_append, literalTail, ih (Option.map_eq_none_iff.1 h) hrest, if_neg hq]
    · rfl
    · exact h1
    · exact fun h' _ => hc h'
    · exact fun _ _ h' _ => hc h'

/-- What cannot be cut off in front of a text: a block comment that is left open, or a literal. -/
theorem open_of_lexeme {c : Char} {rest : List Char} {fault : SourceFault}
    (h : lexeme c rest = .error fault) :
    (c = '/' ∧ ∃ more, rest = '*' :: more ∧ commentTail more = none) ∨
      ((c = '"' ∨ c = '\'') ∧ literalTail c rest = none) := by
  have hliteral {quote : Char} {f : SourceFault} {cs : List Char}
      (hl : literal quote f cs = .error fault) : literalTail quote cs = none := by
    unfold literal at hl
    split at hl
    · cases hl
    · assumption
  unfold lexeme at h
  split at h
  · cases h
  · next more =>
    split at h
    · cases h
    · next hopen => exact .inl ⟨rfl, more, rfl, hopen⟩
  · exact .inr ⟨.inl rfl, hliteral h⟩
  · exact .inr ⟨.inr rfl, hliteral h⟩
  · split at h
    · cases h
    · cases h

theorem atLineEnd_of_lexeme {c : Char} {rest : List Char} {l : Lexeme} (h : lexeme c rest = .ok l)
    (hk : l.kind = .lineComment) : AtLineEnd l.rest := by
  have hcuts := cuts_of_lexeme h
  cases hcuts with
  | lineComment more => exact atLineEnd_dropWhile more
  | blockComment => cases hk
  | literal => cases hk
  | word => cases hk
  | mark =>
    rw [operator_kind] at hk
    cases hk

/-! ## What a text does to its reader -/

/-- Where the reader of a source stands: in code, or in a block comment. -/
inductive Mode where
  | code
  | comment
  deriving DecidableEq

/-- The code in the text in front of a reader, if the text can be read. -/
def Mode.read : Mode → List Char → Option (List Content)
  | code, cs => codeTokens cs
  | comment, cs => (commentTail cs).bind fun p => codeTokens p.2

/-- What the text of a line does to a reader: it stops it, or takes it to another mode with some
code read. The text behind the line makes no difference. -/
def Takes (m : Mode) (cs : List Char) (effect : Option (Mode × List Content)) : Prop :=
  ∀ next, m.read (cs ++ '\n' :: next) = effect.bind fun p => (p.1.read next).map (p.2 ++ ·)

theorem takes_nil : Takes .code [] (some (.code, [])) := by
  intro next
  simp [Mode.read, codeTokens_blank (c := '\n') (by decide)]

theorem takes_unclosed {cs : List Char} (h : Unclosed cs) :
    Takes .comment cs (some (.comment, [])) := by
  intro next
  simp only [Mode.read, commentTail_unclosed h, Option.bind_some, List.nil_append, Option.map_id',
    Option.bind_map]
  rfl

theorem takes_open {cs : List Char} (h : Unclosed cs) :
    Takes .code ('/' :: '*' :: cs) (some (.comment, [])) := by
  intro next
  have htail := commentTail_unclosed h next
  simp only [Mode.read, List.cons_append, Option.bind_some, List.nil_append, Option.map_id']
  cases ht : commentTail next with
  | none =>
    rw [ht] at htail
    exact codeTokens_fault (by decide) (by simp [lexeme, htail]; rfl)
  | some p =>
    rw [ht] at htail
    have hcomment : Reads .blockComment ('/' :: '*' :: (cs ++ '\n' :: p.1)) p.2 := by
      refine ⟨'/', _, rfl, by decide, lexeme_of_cuts (.blockComment ?_)⟩
      simpa using commentTail_append_right htail p.2
    have hcode := codeTokens_append hcomment
    have happ := commentTail_append ht
    simp only [List.cons_append, List.append_assoc, happ] at hcode
    simp [hcode, codeOf]

theorem reads_of_lexeme {c : Char} {rest : List Char} {l : Lexeme} (hb : isBlank c = false)
    (hx : lexeme c rest = .ok l) (next : List Char) :
    Reads l.kind l.text (l.rest ++ '\n' :: next) := by
  refine .of_lexeme hb hx (looser_append_gap (atLineEnd_cons next).atGap _) fun hk => ?_
  have hend := atLineEnd_of_lexeme hx hk
  cases hl : l.rest with
  | nil => exact atLineEnd_cons next
  | cons d more =>
    rw [hl] at hend
    rw [hend d rfl]
    exact atLineEnd_cons _

/-- The first token of a text is read in front of what the text behind it does to the reader. -/
theorem takes_lexeme {c : Char} {rest : List Char} {l : Lexeme} {effect : Option (Mode × List Content)}
    (hb : isBlank c = false) (hx : lexeme c rest = .ok l) (h : Takes .code l.rest effect) :
    Takes .code (c :: rest) (effect.map fun p => (p.1, codeOf [(l.kind, l.text)] ++ p.2)) := by
  intro next
  have hcode := codeTokens_append (reads_of_lexeme hb hx next)
  rw [← List.append_assoc, lexeme_append hx] at hcode
  have hnext : codeTokens (l.rest ++ '\n' :: next) = _ := h next
  simp only [Mode.read, hcode, hnext]
  cases effect with
  | none => rfl
  | some p => simp [Function.comp_def]

/-- Whatever it is, a text whose last character is no backslash does the same to a reader in front
of every text. -/
theorem exists_takes {cs : List Char} (hs : ¬ ['\\'] <:+ cs) (m : Mode) :
    ∃ effect, Takes m cs effect := by
  -- a comment or a token is taken off the front, and the reader goes on in code behind it
  induction hn : cs.length using Nat.strong_induction_on generalizing cs m with
  | _ n ih =>
  subst hn
  cases m with
  | comment =>
    cases ht : commentTail cs with
    | none => exact ⟨_, takes_unclosed (unclosed_of_commentTail ht)⟩
    | some p =>
      have happ := commentTail_append ht
      have hlt : p.2.length < cs.length := by
        rw [← happ, List.length_append]
        have := List.length_pos_iff.2 (commentTail_ne_nil ht)
        omega
      obtain ⟨effect, he⟩ := ih _ hlt (fun hi => hs (hi.trans ⟨p.1, happ⟩)) .code rfl
      refine ⟨effect, fun next => ?_⟩
      rw [← he next]
      simp [Mode.read, commentTail_some_append ht]
  | code =>
    cases cs with
    | nil => exact ⟨_, takes_nil⟩
    | cons c rest =>
      have hrest : ¬ ['\\'] <:+ rest := fun hi => hs (hi.trans (List.suffix_cons c rest))
      cases hb : isBlank c with
      | true =>
        obtain ⟨effect, he⟩ := ih _ (Nat.lt_succ_self _) hrest .code rfl
        exact ⟨effect, fun next => (codeTokens_blank hb).trans (he next)⟩
      | false =>
        cases hx : lexeme c rest with
        | ok l =>
          obtain ⟨effect, he⟩ := ih _ (lexeme_rest_lt hx)
            (fun hi => hs (hi.trans ⟨l.text, lexeme_append hx⟩)) .code rfl
          exact ⟨_, takes_lexeme hb hx he⟩
        | error fault =>
          rcases open_of_lexeme hx with ⟨rfl, more, rfl, hopen⟩ | ⟨hc, hopen⟩
          · exact ⟨_, takes_open (unclosed_of_commentTail hopen)⟩
          · refine ⟨none, fun next => ?_⟩
            have hfault := lexeme_of_open_literal hc (literalTail_open hopen hrest next)
            exact codeTokens_fault hb hfault

/-- Two texts do the same to a reader. -/
def SameEffect (m : Mode) (as bs : List Char) : Prop :=
  ∃ effect, Takes m as effect ∧ Takes m bs effect

theorem SameEffect.append {m : Mode} {as bs as' bs' : List Char} (h : SameEffect m as bs)
    (h' : ∀ m, SameEffect m as' bs') : SameEffect m (as ++ '\n' :: as') (bs ++ '\n' :: bs') := by
  choose f ha' hb' using h'
  obtain ⟨effect, ha, hb⟩ := h
  refine ⟨effect.bind fun p => (f p.1).map fun q => (q.1, p.2 ++ q.2), fun next => ?_, fun next => ?_⟩
  · rw [List.append_assoc, List.cons_append, ha]
    cases effect with
    | none => rfl
    | some p => simp [ha' p.1 next, Option.map_bind, Function.comp_def, Option.bind_map]
  · rw [List.append_assoc, List.cons_append, hb]
    cases effect with
    | none => rfl
    | some p => simp [hb' p.1 next, Option.map_bind, Function.comp_def, Option.bind_map]

theorem sameEffect_page {as bs : List (List Char)} (hne : as ≠ [])
    (h : List.Forall₂ (fun a b => ∀ m, SameEffect m a b) as bs) (m : Mode) :
    SameEffect m (page as) (page bs) := by
  induction h generalizing m with
  | nil => exact absurd rfl hne
  | @cons a b as bs hab h ih =>
    cases h with
    | nil => simpa using hab m
    | cons hab' h =>
      rw [page_cons (List.cons_ne_nil _ _), page_cons (List.cons_ne_nil _ _)]
      exact (hab m).append (ih (List.cons_ne_nil _ _))

/-! ## Comments -/

theorem closesComment_mark : ClosesComment [' ', '*', '/'] := by rfl

/-- A text of lines closes a comment if its last line does and no other line holds a closing
mark. -/
theorem closesComment_page {lines : List (List Char)} {last : List Char} (h : ClosesComment last) :
    ClosesComment (page (lines ++ [last])) ↔ ∀ l ∈ lines, Unclosed l := by
  induction lines with
  | nil => simpa using h
  | cons l lines ih =>
    rw [List.cons_append, page_cons (by simp), closesComment_line, ih, List.forall_mem_cons]

/-- The lines of a comment between its marks: the first line opens it and goes on with `mark`. -/
def commentPage (mark : List Char) (lines : List (List Char)) : List Char :=
  page (('/' :: '*' :: mark) :: lines ++ [[' ', '*', '/']])

theorem commentPage_eq (mark : List Char) (lines : List (List Char)) :
    commentPage mark lines = '/' :: '*' :: page (mark :: lines ++ [[' ', '*', '/']]) := by
  rw [commentPage, List.cons_append, Layout.page_cons_cons, Layout.page_cons_cons, List.cons_append]

theorem reads_commentPage {mark : List Char} (hm : Unclosed mark) {lines : List (List Char)} :
    Reads .blockComment (commentPage mark lines) [] ↔ ∀ l ∈ lines, Unclosed l := by
  rw [commentPage_eq]
  have hpage : ClosesComment (page (mark :: lines ++ [[' ', '*', '/']])) ↔ ∀ l ∈ lines, Unclosed l := by
    rw [closesComment_page closesComment_mark, List.forall_mem_cons, and_iff_right hm]
  rw [← hpage]
  constructor
  · intro h
    obtain ⟨cs, hcs, hclose⟩ := closesComment_of_reads h
    simp only [List.cons.injEq, true_and] at hcs
    rwa [hcs]
  · exact fun h => reads_blockComment h []

theorem takes_commentPage {mark : List Char} (hm : Unclosed ('/' :: '*' :: mark))
    {lines : List (List Char)} (h : ∀ l ∈ lines, Unclosed l) (m : Mode) :
    Takes m (commentPage mark lines) (some (.code, [])) := by
  have hm' : Unclosed mark := (unclosed_cons.1 (unclosed_cons.1 hm).2).2
  intro next
  have hblank : codeTokens ('\n' :: next) = codeTokens next := codeTokens_blank (by decide)
  cases m with
  | code =>
    have hreads := (reads_commentPage hm').2 h
    have hfar : Reads .blockComment (commentPage mark lines) ('\n' :: next) :=
      hreads.of_looser (by decide) (atLineEnd_cons next).atGap.looser
    have hcode := codeTokens_append hfar
    simp [Mode.read, hcode, hblank, codeOf]
  | comment =>
    have hclose : ClosesComment (commentPage mark lines) :=
      (closesComment_page closesComment_mark).2 (List.forall_mem_cons.2 ⟨hm, h⟩)
    simp [Mode.read, commentTail_append_right hclose, hblank]

theorem blank_space : ∀ c ∈ [' '], isBlank c = true :=
  List.forall_mem_singleton.2 (by decide)

theorem unclosed_docLine (line : String) :
    Unclosed (Text.mapChars Text.trimEnd (" * " ++ line)).toList ↔ Unclosed line.toList := by
  have hline : Unclosed (' ' :: line.toList) ↔ Unclosed line.toList := unclosed_blanks blank_space
  have hstar : Unclosed ([' '] ++ '*' :: ' ' :: line.toList) ↔ Unclosed ('*' :: ' ' :: line.toList) :=
    unclosed_blanks blank_space
  rw [Text.mapChars, String.toList_ofList, unclosed_trimEnd, String.toList_append]
  rw [show " * ".toList ++ line.toList = [' '] ++ '*' :: ' ' :: line.toList from rfl, hstar,
    unclosed_cons, hline]
  exact and_iff_right fun _ r hr => absurd hr (by simp)

theorem unclosed_blockLine (line : String) :
    Unclosed (" " ++ line).toList ↔ Unclosed line.toList := by
  rw [String.toList_append]
  exact unclosed_blanks blank_space

/-- The lines of an item as one text. -/
def Item.page (i : Item) : List Char := Layout.page (i.lines.map String.toList)

theorem Item.page_doc (lines : List String) : (Item.doc lines).page = commentPage ['*']
    (lines.map fun l => (Text.mapChars Text.trimEnd (" * " ++ l)).toList) := by
  simp [Item.page, Item.lines, commentPage, Function.comp_def]

theorem Item.page_blockComment (lines : List String) : (Item.blockComment lines).page =
    commentPage [] (lines.map fun l => (" " ++ l).toList) := by
  simp [Item.page, Item.lines, commentPage, Function.comp_def]

theorem Item.page_lineComment (text : String) :
    (Item.lineComment text).page = '/' :: '/' :: ' ' :: text.toList := by
  simp [Item.page, Item.lines, String.toList_append]

/-- An item that is a comment holds no text that ends it early: a block comment no closing mark, a
line comment no line feed. -/
def Item.Contained : Item → Prop
  | .doc lines | .blockComment lines => ∀ l ∈ lines, Unclosed l.toList
  | .lineComment text => '\n' ∉ text.toList
  | _ => True

theorem reads_doc (lines : List String) :
    Reads .blockComment (Item.doc lines).page [] ↔ (Item.doc lines).Contained := by
  have hmark : Unclosed ['*'] := fun hi => absurd hi.length_le (by decide)
  rw [Item.page_doc, reads_commentPage hmark]
  simp only [List.forall_mem_map, unclosed_docLine, Item.Contained]

theorem reads_blockItem (lines : List String) :
    Reads .blockComment (Item.blockComment lines).page [] ↔ (Item.blockComment lines).Contained := by
  have hmark : Unclosed [] := fun hi => absurd hi.length_le (by decide)
  rw [Item.page_blockComment, reads_commentPage hmark]
  simp only [List.forall_mem_map, unclosed_blockLine, Item.Contained]

theorem mem_of_mem_blank {cs : List Char} (h : '\n' ∈ ' ' :: cs) : '\n' ∈ cs :=
  (List.mem_cons.1 h).resolve_left (by decide)

theorem reads_lineItem (text : String) :
    Reads .lineComment (Item.lineComment text).page [] ↔ (Item.lineComment text).Contained := by
  rw [Item.page_lineComment]
  constructor
  · intro h
    obtain ⟨more, hmore, hfeed⟩ := lineComment_of_reads h
    simp only [List.cons.injEq, true_and] at hmore
    exact fun hmem => hfeed (hmore ▸ List.mem_cons_of_mem _ hmem)
  · exact fun h => reads_lineComment (mt mem_of_mem_blank h) atLineEnd_nil

/-! ## Units -/

/-- The comment without its text. -/
def Comment.emptied : Comment → Comment
  | .line _ => .line ""
  | .block _ => .block []

/-- The unit without the text of its comments. -/
def CompilationUnit.emptied (u : CompilationUnit) : CompilationUnit :=
  { u with doc := u.doc.map fun _ => [], comments := u.comments.map Comment.emptied }

/-- The unit without the comments behind its declaration. -/
def CompilationUnit.declared (u : CompilationUnit) : CompilationUnit := { u with comments := [] }

/-- The text of a comment ends it neither early nor, should the declarations of the unit leave a
block comment open, that one. -/
structure CompilationUnit.Contained (u : CompilationUnit) : Prop where
  items : ∀ i ∈ u.items, i.Contained
  opened : codeTokens u.declared.text.toList = none →
    ∀ text, Comment.line text ∈ u.comments → Unclosed text.toList

theorem CompilationUnit.items_eq (u : CompilationUnit) :
    u.items = u.declared.items ++ u.comments.map Comment.item := by
  simp [CompilationUnit.items, CompilationUnit.declared]

theorem Item.lines_ne_nil (i : Item) : i.lines ≠ [] := by
  cases i with
  | typeDecl d => exact d.lines_ne_nil
  | packageDecl | importDecl | doc | lineComment | blockComment => simp [Item.lines]

theorem Item.text_eq (i : Item) : i.text.toList = i.page ++ ['\n'] := by
  have hne : i.lines.map String.toList ≠ [] := by simpa using i.lines_ne_nil
  rw [Item.page, ← unlines_eq_page hne, Item.text, String.toList_join, unlines, List.flatMap_map,
    List.flatMap_map]
  exact List.flatMap_congr fun line _ => String.toList_append

theorem CompilationUnit.text_eq_items (u : CompilationUnit) :
    u.text.toList = unlines (u.items.map Item.page) := by
  rw [CompilationUnit.text_of_items, String.toList_join, unlines, List.flatMap_map, List.flatMap_map]
  exact List.flatMap_congr fun i _ => i.text_eq

theorem not_suffix_concat (front : List Char) {c : Char} (hc : c ≠ '\\') :
    ¬ ['\\'] <:+ front ++ [c] := by
  rintro ⟨more, he⟩
  have hlast := (List.append_inj' he rfl).2
  rw [List.cons.injEq] at hlast
  exact hc hlast.1.symm

theorem exists_lines_of_typeDecl (d : TypeDecl) : ∃ lines, d.lines = lines ++ ["\x7d"] := by
  cases d with
  | classDecl c => exact ⟨_ ++ _ :: _, by simp [TypeDecl.lines, ClassDecl.lines, braced]; rfl⟩
  | interfaceDecl i => exact ⟨_ ++ _ :: _, by simp [TypeDecl.lines, InterfaceDecl.lines, braced]; rfl⟩

/-- The item is no comment. -/
def Item.IsDeclaration : Item → Prop
  | .packageDecl _ | .importDecl _ | .typeDecl _ => True
  | _ => False

/-- A declaration ends with a semicolon or a brace, so it does the same to a reader everywhere. -/
theorem sameEffect_declaration {i : Item} (h : i.IsDeclaration) (m : Mode) :
    SameEffect m i.page i.page := by
  have hend : ¬ ['\\'] <:+ i.page := by
    cases i with
    | packageDecl name =>
      have hpage : (Item.packageDecl name).page = ("package " ++ name).toList ++ [';'] := by
        simp [Item.page, Item.lines, String.toList_append]
      exact hpage ▸ not_suffix_concat _ (by decide)
    | importDecl name =>
      have hpage : (Item.importDecl name).page = ("import " ++ name).toList ++ [';'] := by
        simp [Item.page, Item.lines, String.toList_append]
      exact hpage ▸ not_suffix_concat _ (by decide)
    | typeDecl d =>
      obtain ⟨lines, hlines⟩ := exists_lines_of_typeDecl d
      have hpage : (Item.typeDecl d).page = page (lines.map String.toList ++ [[]]) ++ ['\x7d'] := by
        rw [← Layout.page_concat, Item.page, Item.lines, hlines, List.map_append]
        rfl
      exact hpage ▸ not_suffix_concat _ (by decide)
    | doc => exact h.elim
    | lineComment => exact h.elim
    | blockComment => exact h.elim
  obtain ⟨effect, he⟩ := exists_takes hend m
  exact ⟨effect, he, he⟩

theorem takes_doc {lines : List String} (h : (Item.doc lines).Contained) (m : Mode) :
    Takes m (Item.doc lines).page (some (.code, [])) := by
  have hmark : Unclosed ['/', '*', '*'] := by
    simp [Unclosed, closeMark, List.infix_cons_iff]
  rw [Item.page_doc]
  refine takes_commentPage hmark (List.forall_mem_map.2 fun l hl => ?_) m
  exact (unclosed_docLine l).2 (h l hl)

theorem takes_blockComment {lines : List String} (h : (Item.blockComment lines).Contained) (m : Mode) :
    Takes m (Item.blockComment lines).page (some (.code, [])) := by
  have hmark : Unclosed ['/', '*'] := by
    simp [Unclosed, closeMark, List.infix_cons_iff]
  rw [Item.page_blockComment]
  refine takes_commentPage hmark (List.forall_mem_map.2 fun l hl => ?_) m
  exact (unclosed_blockLine l).2 (h l hl)

theorem takes_lineComment {text : String} (h : (Item.lineComment text).Contained) {m : Mode}
    (ho : m = .comment → Unclosed text.toList) :
    Takes m (Item.lineComment text).page (some (m, [])) := by
  rw [Item.page_lineComment]
  cases m with
  | code =>
    intro next
    have hcode := codeTokens_append (reads_lineComment (mt mem_of_mem_blank h) (atLineEnd_cons next))
    simpa [Mode.read, codeTokens_blank (c := '\n') (by decide), codeOf] using hcode
  | comment =>
    refine takes_unclosed ?_
    have hslash {cs : List Char} (hcs : Unclosed cs) : Unclosed ('/' :: cs) :=
      unclosed_cons.2 ⟨fun hc => absurd hc (by decide), hcs⟩
    exact hslash (hslash ((unclosed_blanks blank_space).2 (ho rfl)))

def Comment.leaves (m : Mode) : Comment → Mode
  | .line _ => m
  | .block _ => .code

theorem takes_comment {c : Comment} (h : c.item.Contained) {m : Mode}
    (ho : m = .comment → ∀ text, c = .line text → Unclosed text.toList) :
    Takes m c.item.page (some (c.leaves m, [])) := by
  cases c with
  | line text => exact takes_lineComment h fun hm => ho hm text rfl
  | block lines => exact takes_blockComment h m

theorem read_comments {cs : List Comment} (h : ∀ c ∈ cs, c.item.Contained) {m : Mode}
    (ho : m = .comment → ∀ text, Comment.line text ∈ cs → Unclosed text.toList) :
    m.read (unlines (cs.map fun c => c.item.page)) = (cs.foldl Comment.leaves m).read [] := by
  induction cs generalizing m with
  | nil => rfl
  | cons c cs ih =>
    obtain ⟨hc, hcs⟩ := List.forall_mem_cons.1 h
    have hline := takes_comment hc fun hm text he => ho hm text (he ▸ List.mem_cons_self)
    have hunlines : unlines ((c :: cs).map fun c => c.item.page) =
        c.item.page ++ '\n' :: unlines (cs.map fun c => c.item.page) := by simp [unlines]
    have hrest : c.leaves m = .comment → ∀ text, Comment.line text ∈ cs → Unclosed text.toList := by
      intro hm text hmem
      cases c with
      | line => exact ho hm text (List.mem_cons_of_mem _ hmem)
      | block => cases hm
    rw [hunlines, hline, List.foldl_cons, ← ih hcs hrest]
    simp

theorem foldl_leaves_emptied (cs : List Comment) (m : Mode) :
    (cs.map Comment.emptied).foldl Comment.leaves m = cs.foldl Comment.leaves m := by
  rw [List.foldl_map]
  congr 1
  funext m c
  cases c <;> rfl

/-- Units that differ in the text of contained comments only do the same to a reader in front of
the comments behind their declarations. -/
theorem sameEffect_declared {u v : CompilationUnit} (h : u.emptied = v.emptied)
    (hu : ∀ i ∈ u.items, i.Contained) (hv : ∀ i ∈ v.items, i.Contained) (m : Mode) :
    SameEffect m (page (u.declared.items.map Item.page)) (page (v.declared.items.map Item.page)) := by
  obtain ⟨package, imports, doc, decl, comments⟩ := u
  obtain ⟨package', imports', doc', decl', comments'⟩ := v
  simp only [CompilationUnit.emptied, CompilationUnit.mk.injEq] at h
  obtain ⟨rfl, rfl, hdoc, rfl, -⟩ := h
  have hdecl : List.Forall₂ (fun a b => ∀ m, SameEffect m a b) [(Item.typeDecl decl).page]
      [(Item.typeDecl decl).page] := .cons (sameEffect_declaration trivial) .nil
  have hdocs : List.Forall₂ (fun a b => ∀ m, SameEffect m a b)
      ((doc.map Item.doc).toList.map Item.page) ((doc'.map Item.doc).toList.map Item.page) := by
    cases doc with
    | none =>
      cases doc' with
      | none => exact .nil
      | some lines' => cases hdoc
    | some lines =>
      cases doc' with
      | none => cases hdoc
      | some lines' =>
        have hlines : (Item.doc lines).Contained := hu _ (by simp [CompilationUnit.items])
        have hlines' : (Item.doc lines').Contained := hv _ (by simp [CompilationUnit.items])
        exact .cons (fun m => ⟨_, takes_doc hlines m, takes_doc hlines' m⟩) .nil
  have himports : List.Forall₂ (fun a b => ∀ m, SameEffect m a b)
      ((imports.map Item.importDecl).map Item.page) ((imports.map Item.importDecl).map Item.page) := by
    refine List.forall₂_same.2 fun p hp => ?_
    obtain ⟨name, -, rfl⟩ : ∃ name ∈ imports, (Item.importDecl name).page = p := by simpa using hp
    exact sameEffect_declaration trivial
  refine sameEffect_page (by simp [CompilationUnit.items]) ?_ m
  simp only [CompilationUnit.items, CompilationUnit.declared, List.map_append, List.map_cons,
    List.map_nil, List.cons_append, List.append_assoc]
  exact .cons (sameEffect_declaration trivial)
    (List.rel_append himports (List.rel_append hdocs hdecl))

theorem CompilationUnit.text_eq_declared (u : CompilationUnit) : u.text.toList =
    page (u.declared.items.map Item.page) ++
      '\n' :: unlines (u.comments.map fun c => c.item.page) := by
  have hne : u.declared.items.map Item.page ≠ [] := by simp [CompilationUnit.items]
  have happ (lines more : List (List Char)) :
      unlines (lines ++ more) = unlines lines ++ unlines more := List.flatMap_append
  rw [CompilationUnit.text_eq_items, u.items_eq, List.map_append, happ, unlines_eq_page hne]
  simp [Function.comp_def]

/-- The comments behind the declarations of a unit, read where the declarations leave a reader. -/
theorem CompilationUnit.Contained.read_comments {u : CompilationUnit} (hu : u.Contained)
    {p : Mode × List Content} (h : Takes .code (page (u.declared.items.map Item.page)) (some p)) :
    p.1.read (unlines (u.comments.map fun c => c.item.page)) =
      ((u.comments.map Comment.emptied).foldl Comment.leaves p.1).read [] := by
  rw [foldl_leaves_emptied]
  refine Java.read_comments (fun c hc => hu.items _ ?_) fun hm => hu.opened ?_
  · rw [u.items_eq]
    exact List.mem_append_right _ (List.mem_map_of_mem hc)
  · have htext : u.declared.text.toList = page (u.declared.items.map Item.page) ++ ['\n'] :=
      u.declared.text_eq_declared
    have hread : codeTokens u.declared.text.toList = (p.1.read []).map (p.2 ++ ·) := by
      rw [htext]
      exact h []
    rw [hread, hm]
    rfl

/-- Units that differ in the text of contained comments only have the same code: both can be read,
with the same tokens apart from the comments, or neither can. -/
theorem codeTokens_text {u v : CompilationUnit} (h : u.emptied = v.emptied) (hu : u.Contained)
    (hv : v.Contained) : codeTokens u.text.toList = codeTokens v.text.toList := by
  have hcomments : u.comments.map Comment.emptied = v.comments.map Comment.emptied :=
    congrArg CompilationUnit.comments h
  obtain ⟨effect, ht, ht'⟩ := sameEffect_declared h hu.items hv.items .code
  have hread : codeTokens u.text.toList = effect.bind _ := u.text_eq_declared ▸ ht _
  have hread' : codeTokens v.text.toList = effect.bind _ := v.text_eq_declared ▸ ht' _
  rw [hread, hread']
  cases effect with
  | none => rfl
  | some p => simp only [Option.bind_some, hu.read_comments ht, hv.read_comments ht', hcomments]

def commented (doc : List String) (comments : List Comment) : CompilationUnit where
  package := "demo"
  imports := ["demo.base.Row"]
  doc := some doc
  decl := .interfaceDecl ⟨"Rows", [.publicAccess], [], [], []⟩
  comments := comments

theorem codeTokens_text_of_commented :
    codeTokens (commented ["@author a /* b"] [.line "\" \x7b '", .block ["\x7d", "// * /"]]).text.toList =
      codeTokens (commented ["* a", ""] [.line "", .block []]).text.toList := by
  refine codeTokens_text rfl ⟨?_, ?_⟩ ⟨?_, ?_⟩
  · simp [commented, CompilationUnit.items, Item.Contained, Comment.item, Unclosed, closeMark, List.infix_cons_iff]
  · simp [commented, Unclosed, closeMark, List.infix_cons_iff]
  · simp [commented, CompilationUnit.items, Item.Contained, Comment.item, Unclosed, closeMark, List.infix_cons_iff]
  · simp [commented, Unclosed, closeMark]

end JpaScaffold.Java
