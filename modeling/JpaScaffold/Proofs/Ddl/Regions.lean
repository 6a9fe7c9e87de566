import JpaScaffold.Proofs.Ddl.Keywords
import JpaScaffold.Proofs.Ddl.Mask
import JpaScaffold.Proofs.Java.Comment

/-!
# The regions of a script

A script is read from left to right as characters of code, strings, quoted names and comments. What
the scan marks as code is what such a reading has outside of its regions, unless a block comment
starts with a mark whose star serves in the closing mark too. Keywords and semicolons are seen in
code only.
-/
namespace JpaScaffold.Ddl

open Java (Unclosed unclosed_cons)
open Text (utf8)

/-- A piece of a script: a character of code or a region, which may lack its end. -/
inductive Piece where
  | code (c : Char)
  | string (body : List Char) (closed : Bool)
  | name (body : List Char) (closed : Bool)
  | lineComment (body : List Char)
  | blockComment (body : List Char) (closed : Bool)

namespace Piece

/-- The characters of a piece. -/
def text : Piece → List Char
  | code c => [c]
  | string body closed => '\'' :: (body ++ if closed then ['\''] else [])
  | name body closed => '"' :: (body ++ if closed then ['"'] else [])
  | lineComment body => '-' :: '-' :: body
  | blockComment body closed => '/' :: '*' :: (body ++ if closed then ['*', '/'] else [])

def isCode : Piece → Bool
  | code _ => true
  | _ => false

/-- The characters of a piece with their marks. -/
def marks (p : Piece) : List Marked := p.text.map fun c => ⟨c, p.isCode⟩

/-- The marks of the bytes of a piece. -/
def byteMarks (p : Piece) : List Bool :=
  p.text.flatMap fun c => List.replicate c.utf8Size p.isCode

/-- A block comment in which a slash follows the opening mark, whose star then closes it for a scan
that does not step over that mark. -/
def sharesStar : Piece → Bool
  | blockComment ('/' :: _) _ => true
  | _ => false

end Piece

/-- A region opens in front of the text. -/
def Opens (cs : List Char) : Prop :=
  ∃ opener ∈ [['\''], ['"'], ['-', '-'], ['/', '*']], opener <+: cs

/-- Every single quote stands in a pair. -/
inductive Doubled : List Char → Prop
  | nil : Doubled []
  | char {c : Char} {cs : List Char} (hc : c ≠ '\'') (h : Doubled cs) : Doubled (c :: cs)
  | pair {cs : List Char} (h : Doubled cs) : Doubled ('\'' :: '\'' :: cs)

/-- The piece is what is read first where the text behind it is `rest`. A region without its end
takes the text to its end. -/
inductive Stands : Piece → List Char → Prop
  | code {c : Char} {rest : List Char} (h : ¬Opens (c :: rest)) : Stands (.code c) rest
  | string {body rest : List Char} (h : Doubled body) (hr : rest.head? ≠ some '\'') :
    Stands (.string body true) rest
  | openString {body : List Char} (h : Doubled body) : Stands (.string body false) []
  | name {body rest : List Char} (h : '"' ∉ body) : Stands (.name body true) rest
  | openName {body : List Char} (h : '"' ∉ body) : Stands (.name body false) []
  | lineComment {body rest : List Char} (h : '\n' ∉ body) (hr : rest = [] ∨ rest.head? = some '\n') :
    Stands (.lineComment body) rest
  | blockComment {body rest : List Char} (h : Unclosed (body ++ ['*'])) :
    Stands (.blockComment body true) rest
  | openBlockComment {body : List Char} (h : Unclosed body) : Stands (.blockComment body false) []

/-- The pieces of a script. -/
inductive Reading : List Char → List Piece → Prop
  | nil : Reading [] []
  | cons {p : Piece} {rest : List Char} {ps : List Piece} (hp : Stands p rest) (h : Reading rest ps) :
    Reading (p.text ++ rest) (p :: ps)

/-! ## Every script has a reading -/

variable {body rest cs : List Char} {c : Char} {p : Piece} {ps : List Piece}

theorem Stands.string_cons {closed : Bool} (h : Stands (.string body closed) rest) (hc : c ≠ '\'') :
    Stands (.string (c :: body) closed) rest := by
  cases h with
  | string h hr => exact .string (.char hc h) hr
  | openString h => exact .openString (.char hc h)

theorem Stands.string_pair {closed : Bool} (h : Stands (.string body closed) rest) :
    Stands (.string ('\'' :: '\'' :: body) closed) rest := by
  cases h with
  | string h hr => exact .string (.pair h) hr
  | openString h => exact .openString (.pair h)

theorem exists_string : (cs : List Char) → ∃ body closed rest,
    Stands (.string body closed) rest ∧ cs = body ++ (if closed then ['\''] else []) ++ rest
  | [] => ⟨[], false, [], .openString .nil, rfl⟩
  | c :: cs => by
    by_cases hc : c = '\''
    · rw [hc]
      match cs with
      | [] => exact ⟨[], true, [], .string .nil (by simp), rfl⟩
      | d :: cs =>
        by_cases hd : d = '\''
        · obtain ⟨body, closed, rest, h, rfl⟩ := exists_string cs
          rw [hd]
          exact ⟨_, closed, rest, h.string_pair, rfl⟩
        · have hnext : (d :: cs).head? ≠ some '\'' := fun h => hd (Option.some.inj h)
          exact ⟨[], true, d :: cs, .string .nil hnext, rfl⟩
    · obtain ⟨body, closed, rest, h, rfl⟩ := exists_string cs
      exact ⟨_, closed, rest, h.string_cons hc, rfl⟩

theorem exists_name (cs : List Char) : ∃ body closed rest,
    Stands (.name body closed) rest ∧ cs = body ++ (if closed then ['"'] else []) ++ rest := by
  induction cs with
  | nil => exact ⟨[], false, [], .openName (by simp), rfl⟩
  | cons c cs ih =>
    by_cases hc : c = '"'
    · rw [hc]
      exact ⟨[], true, cs, .name (by simp), rfl⟩
    · obtain ⟨body, closed, rest, h, rfl⟩ := ih
      refine ⟨c :: body, closed, rest, ?_, rfl⟩
      cases h with
      | name h => exact .name (List.not_mem_cons_of_ne_of_not_mem (Ne.symm hc) h)
      | openName h => exact .openName (List.not_mem_cons_of_ne_of_not_mem (Ne.symm hc) h)

theorem exists_lineComment (cs : List Char) : ∃ body rest,
    Stands (.lineComment body) rest ∧ cs = body ++ rest := by
  induction cs with
  | nil => exact ⟨[], [], .lineComment (by simp) (.inl rfl), rfl⟩
  | cons c cs ih =>
    by_cases hc : c = '\n'
    · exact ⟨[], c :: cs, .lineComment (by simp) (.inr (by rw [hc]; rfl)), rfl⟩
    · obtain ⟨body, rest, h, rfl⟩ := ih
      refine ⟨c :: body, rest, ?_, rfl⟩
      cases h with
      | lineComment h hr =>
        exact .lineComment (List.not_mem_cons_of_ne_of_not_mem (Ne.symm hc) h) hr

theorem exists_blockComment (cs : List Char) : ∃ body closed rest,
    Stands (.blockComment body closed) rest ∧
      cs = body ++ (if closed then ['*', '/'] else []) ++ rest := by
  induction cs with
  | nil => exact ⟨[], false, [], .openBlockComment fun h => absurd h.length_le (by decide), rfl⟩
  | cons c cs ih =>
    by_cases hclose : c = '*' ∧ ∃ rest, cs = '/' :: rest
    · obtain ⟨rfl, rest, rfl⟩ := hclose
      exact ⟨[], true, rest, .blockComment fun h => absurd h.length_le (by decide), rfl⟩
    · obtain ⟨body, closed, rest, h, hcs⟩ := ih
      refine ⟨c :: body, closed, rest, ?_, by rw [hcs]; rfl⟩
      -- The closing mark does not start with this character: the text behind it starts with no slash.
      have hslash (hc : c = '*') (r : List Char) : body ≠ '/' :: r := by
        rintro rfl
        exact hclose ⟨hc, _, hcs⟩
      cases h with
      | blockComment h =>
        refine .blockComment (unclosed_cons.2 ⟨fun hc r hr => ?_, h⟩)
        cases body with
        | nil => cases hr
        | cons d body =>
          cases hr
          exact hslash hc body rfl
      | openBlockComment h => exact .openBlockComment (unclosed_cons.2 ⟨hslash, h⟩)

theorem exists_stands (h : cs ≠ []) : ∃ p rest, Stands p rest ∧ cs = p.text ++ rest := by
  by_cases hopens : Opens cs
  · obtain ⟨opener, hopener, more, rfl⟩ := hopens
    simp only [List.mem_cons, List.not_mem_nil, or_false] at hopener
    rcases hopener with rfl | rfl | rfl | rfl
    · obtain ⟨body, closed, rest, hp, rfl⟩ := exists_string more
      exact ⟨_, rest, hp, by simp [Piece.text]⟩
    · obtain ⟨body, closed, rest, hp, rfl⟩ := exists_name more
      exact ⟨_, rest, hp, by simp [Piece.text]⟩
    · obtain ⟨body, rest, hp, rfl⟩ := exists_lineComment more
      exact ⟨_, rest, hp, by simp [Piece.text]⟩
    · obtain ⟨body, closed, rest, hp, rfl⟩ := exists_blockComment more
      exact ⟨_, rest, hp, by simp [Piece.text]⟩
  · cases cs with
    | nil => exact absurd rfl h
    | cons c cs => exact ⟨_, cs, .code hopens, rfl⟩

theorem Piece.text_ne_nil (p : Piece) : p.text ≠ [] := by
  cases p <;> simp [Piece.text]

theorem exists_reading (cs : List Char) : ∃ ps, Reading cs ps := by
  induction hn : cs.length using Nat.strongRecOn generalizing cs with
  | _ n ih =>
    by_cases h : cs = []
    · rw [h]
      exact ⟨[], .nil⟩
    · obtain ⟨p, rest, hp, rfl⟩ := exists_stands h
      have hshorter : rest.length < n := by
        rw [← hn, List.length_append]
        have hpos := List.length_pos_iff.2 p.text_ne_nil
        omega
      obtain ⟨ps, hps⟩ := ih _ hshorter rest rfl
      exact ⟨p :: ps, .cons hp hps⟩

/-! ## The marks of a reading -/

def hidden (cs : List Char) : List Marked := cs.map fun c => ⟨c, false⟩

theorem mark_code (h : ¬Opens (c :: rest)) :
    mark .code (c :: rest) = ⟨c, true⟩ :: mark .code rest := by
  have hopener (opener : List Char) (ho : opener ∈ [['\''], ['"'], ['-', '-'], ['/', '*']])
      (more : List Char) : c :: rest ≠ opener ++ more := fun heq => h ⟨opener, ho, more, heq.symm⟩
  rw [mark]
  · rintro rfl
    exact hopener ['\''] (by simp) rest rfl
  · rintro rfl
    exact hopener ['"'] (by simp) rest rfl
  · rintro more rfl rfl
    exact hopener ['-', '-'] (by simp) more rfl
  · rintro more rfl rfl
    exact hopener ['/', '*'] (by simp) ('/' :: more) rfl
  · rintro more rfl rfl
    exact hopener ['/', '*'] (by simp) more rfl

theorem mark_single (h : Doubled body) (rest : List Char) :
    mark .single (body ++ rest) = hidden body ++ mark .single rest := by
  induction h with
  | nil => rfl
  | char hc _ ih =>
    rw [List.cons_append, mark, ih]
    · rfl
    · exact fun _ h => absurd h hc
    · exact hc
  | pair _ ih =>
    rw [List.cons_append, List.cons_append, mark, ih]
    rfl

theorem mark_double (h : '"' ∉ body) (rest : List Char) :
    mark .double (body ++ rest) = hidden body ++ mark .double rest := by
  induction body with
  | nil => rfl
  | cons c body ih =>
    rw [List.cons_append, mark, ih (List.not_mem_of_not_mem_cons h)]
    · rfl
    · exact fun hc => List.ne_of_not_mem_cons h hc.symm

theorem mark_line (h : '\n' ∉ body) (rest : List Char) :
    mark .line (body ++ rest) = hidden body ++ mark .line rest := by
  induction body with
  | nil => rfl
  | cons c body ih =>
    rw [List.cons_append, mark, ih (List.not_mem_of_not_mem_cons h)]
    · rfl
    · exact fun hc => List.ne_of_not_mem_cons h hc.symm

theorem mark_block (h : Unclosed (body ++ ['*'])) (rest : List Char) :
    mark .block (body ++ '*' :: '/' :: rest) = hidden (body ++ ['*', '/']) ++ mark .code rest := by
  induction body with
  | nil => rfl
  | cons c body ih =>
    obtain ⟨hc, hbody⟩ := unclosed_cons.1 h
    rw [List.cons_append, mark, ih hbody]
    · rfl
    · rintro more rfl hmore
      cases body with
      | nil => cases hmore
      | cons d body =>
        cases hmore
        exact hc rfl _ rfl

theorem mark_openBlock (h : Unclosed body) : mark .block body = hidden body := by
  induction body with
  | nil => rfl
  | cons c body ih =>
    obtain ⟨hc, hbody⟩ := unclosed_cons.1 h
    rw [mark, ih hbody]
    · rfl
    · exact fun more h => hc h more

/-- A scan that stands in code marks the piece in front as it is read, and then stands in code. -/
theorem mark_stands (h : Stands p rest) (hs : p.sharesStar = false) :
    mark .code (p.text ++ rest) = p.marks ++ mark .code rest := by
  cases h with
  | code h => exact mark_code h
  | @string body _ h hr =>
    have hclosed : mark .single ('\'' :: rest) = ⟨'\'', false⟩ :: mark .code rest := by
      rw [mark]
      rintro more rfl
      exact hr rfl
    have hmark := mark_single h ('\'' :: rest)
    rw [hclosed] at hmark
    simp [Piece.text, Piece.marks, Piece.isCode, mark, hmark, hidden]
  | openString h =>
    have hmark := mark_single h []
    rw [List.append_nil] at hmark
    simp [Piece.text, Piece.marks, Piece.isCode, mark, hmark, hidden]
  | name h =>
    have hmark := mark_double h ('"' :: rest)
    simp [Piece.text, Piece.marks, Piece.isCode, mark, hmark, hidden]
  | openName h =>
    have hmark := mark_double h []
    rw [List.append_nil] at hmark
    simp [Piece.text, Piece.marks, Piece.isCode, mark, hmark, hidden]
  | lineComment h hr =>
    have hmark := mark_line h rest
    have hrest : mark .line rest = mark .code rest := by
      cases rest with
      | nil => rfl
      | cons c rest =>
        obtain rfl : c = '\n' := by simpa using hr
        rfl
    rw [hrest] at hmark
    simp [Piece.text, Piece.marks, Piece.isCode, mark, hmark, hidden]
  | @blockComment body _ h =>
    have hopen : mark .code ('/' :: '*' :: (body ++ '*' :: '/' :: rest)) =
        ⟨'/', false⟩ :: ⟨'*', false⟩ :: mark .block (body ++ '*' :: '/' :: rest) := by
      rw [mark]
      rintro more hmore
      cases body with
      | nil => cases hmore
      | cons c body =>
        cases hmore
        cases hs
    have hmark := mark_block h rest
    simp [Piece.text, Piece.marks, Piece.isCode, hopen, hmark, hidden]
  | @openBlockComment body h =>
    have hopen : mark .code ('/' :: '*' :: body) =
        ⟨'/', false⟩ :: ⟨'*', false⟩ :: mark .block body := by
      rw [mark]
      rintro more rfl
      cases hs
    simp [Piece.text, Piece.marks, Piece.isCode, mark, hopen, mark_openBlock h, hidden]

theorem marked_of_reading (h : Reading cs ps) (hs : ∀ p ∈ ps, p.sharesStar = false) :
    marked cs = ps.flatMap Piece.marks := by
  induction h with
  | nil => rfl
  | @cons p rest ps hp _ ih =>
    obtain ⟨hps, hrest⟩ := List.forall_mem_cons.1 hs
    rw [marked, mark_stands hp hps, List.flatMap_cons, ← ih hrest]
    rfl

theorem codeMask_of_reading (h : Reading cs ps) (hs : ∀ p ∈ ps, p.sharesStar = false) :
    codeMask (utf8 cs) = ps.flatMap Piece.byteMarks := by
  rw [codeMask, byteMask_utf8]
  change (marked cs).flatMap _ = _
  rw [marked_of_reading h hs, List.flatMap_assoc]
  refine List.flatMap_congr fun p _ => ?_
  rw [Piece.marks, List.flatMap_map]
  rfl

/-! ## What is seen -/

/-- What is found in a script with these marks is found in its code: the keywords and the semicolons
of its statements, the keywords in front of its name, and those of its partition clause. -/
structure SeenInCode (source : String) (ms : List Marked) : Prop where
  statements : ∀ statements, splitStatements source = .ok statements →
    ∀ s ∈ statements, IsStatement ms s.toList
  name : ∀ name, declaredName source = .ok (some name) → ∃ before keywords after,
    ms = before ++ (keywords ++ after) ∧ Spelled createTable keywords ∧
      name.toList = bareName (writtenName (skipIfNotExists after))
  partition : ∀ sql, stripPartition source = .ok (sql, true) → ∃ before keywords after,
    ms = before ++ (keywords ++ after) ∧ Spelled partitionBy keywords ∧
      sql.toList = Text.trimEnd (unmark before)

theorem seenInCode_marked (source : String) : SeenInCode source (marked source.toList) where
  statements := by
    intro statements h s hs
    unfold splitStatements at h
    obtain ⟨texts, htexts, rfl⟩ := map_eq_ok.1 h
    obtain ⟨text, htext, rfl⟩ := List.mem_map.1 hs
    rw [String.toList_ofList]
    exact isStatement_of_splitMarked htexts text htext
  name := by
    intro name h
    unfold declaredName at h
    obtain ⟨found, hseek, hname⟩ := map_eq_ok.1 h
    obtain ⟨f, rfl, hbare⟩ := Option.bind_eq_some_iff.1 hname
    obtain ⟨hms, keywords, hstart, hkeywords, -⟩ := found_of_seek (by decide) hseek
    refine ⟨f.before, keywords, f.after, by rw [hms, hstart], hkeywords, ?_⟩
    dsimp only at hbare
    split at hbare
    · cases hbare
    · cases hbare
      rw [String.toList_ofList]
  partition := by
    intro sql h
    unfold stripPartition at h
    obtain ⟨found, hseek, hsql⟩ := map_eq_ok.1 h
    cases found with
    | none => cases hsql
    | some f =>
      obtain ⟨hms, keywords, hstart, hkeywords, -⟩ := found_of_seek (by decide) hseek
      cases hsql
      exact ⟨f.before, keywords, f.after, by rw [hms, hstart], hkeywords, String.toList_ofList⟩

/-- Every script has a reading. The bytes that are code are those outside of its regions, and nothing
inside of a region is seen, if no block comment starts with a mark whose star serves in the closing
mark too. -/
theorem code_lies_outside_regions (source : String) :
    (∃ ps, Reading source.toList ps) ∧
      ∀ ps, Reading source.toList ps → (∀ p ∈ ps, p.sharesStar = false) →
        codeMask (utf8 source.toList) = ps.flatMap Piece.byteMarks ∧
          SeenInCode source (ps.flatMap Piece.marks) := by
  refine ⟨exists_reading _, fun ps h hs => ⟨codeMask_of_reading h hs, ?_⟩⟩
  rw [← marked_of_reading h hs]
  exact seenInCode_marked source

theorem not_opens_of_plain (h : c ∉ ['\'', '"', '-', '/']) (rest : List Char) : ¬Opens (c :: rest) := by
  rintro ⟨opener, hopener, hstands⟩
  refine h ?_
  simp only [List.mem_cons, List.not_mem_nil, or_false] at hopener
  rcases hopener with rfl | rfl | rfl | rfl <;> simp [(List.cons_prefix_cons.1 hstands).1.symm]

theorem reading_of_plain {cs rest : List Char} (h : ∀ c ∈ cs, c ∉ ['\'', '"', '-', '/'])
    (hr : Reading rest ps) : Reading (cs ++ rest) (cs.map .code ++ ps) := by
  induction cs with
  | nil => exact hr
  | cons c cs ih =>
    obtain ⟨hc, hcs⟩ := List.forall_mem_cons.1 h
    exact .cons (p := .code c) (.code (not_opens_of_plain hc _)) (ih hcs)

def commentedStatement : List Piece :=
  .blockComment [';'] true :: "create table a;".toList.map .code

theorem code_lies_outside_regions_of_comment :
    Reading "/*;*/create table a;".toList commentedStatement ∧
      (∀ p ∈ commentedStatement, p.sharesStar = false) ∧
      codeMask (utf8 "/*;*/create table a;".toList) =
        List.replicate 5 false ++ List.replicate 15 true ∧
      splitStatements "/*;*/create table a;" = .ok ["create table a;"] ∧
      IsStatement (commentedStatement.flatMap Piece.marks) "create table a;".toList := by
  have hread : Reading "/*;*/create table a;".toList commentedStatement := by
    have hunclosed : Unclosed ([';'] ++ ['*']) := by
      intro h
      have heq := h.eq_of_length rfl
      cases heq
    have hall : "create table a;".toList.all fun c => decide (c ∉ ['\'', '"', '-', '/']) := by decide
    have hplain : ∀ c ∈ "create table a;".toList, c ∉ ['\'', '"', '-', '/'] :=
      fun c hc => of_decide_eq_true (List.all_eq_true.1 hall c hc)
    have hcode := reading_of_plain hplain .nil
    rw [List.append_nil, List.append_nil] at hcode
    exact .cons (.blockComment hunclosed) hcode
  have hshares : ∀ p ∈ commentedStatement, p.sharesStar = false := by
    refine List.forall_mem_cons.2 ⟨rfl, fun p hp => ?_⟩
    obtain ⟨c, -, rfl⟩ := List.mem_map.1 hp
    rfl
  have hsplit : splitStatements "/*;*/create table a;" = .ok ["create table a;"] := by decide +kernel
  obtain ⟨hmask, hseen⟩ := (code_lies_outside_regions "/*;*/create table a;").2 _ hread hshares
  refine ⟨hread, hshares, ?_, hsplit, hseen.statements _ hsplit _ (by simp)⟩
  rw [hmask]
  decide

end JpaScaffold.Ddl
