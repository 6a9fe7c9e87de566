import JpaScaffold.Proofs.Ddl.Ends
import JpaScaffold.Proofs.Sql.TableName

/-!
# The heading of a statement

A heading runs from the begin of a statement to the end of the name of its table. Where it is written
plainly, the name is found without parsing the statement: no part of the name holds a character at which
a written name is cut, and no comment stands between the words.
-/
namespace JpaScaffold.Ddl

open Java (Unclosed)
open Sql (NamePart pointedText)
open Text (isBlank isForeign)

variable {c : Char} {cs lead rest behind : List Char} {ms ns : List Marked} {words : List (List Char)}

/-! ## What stands in front of a statement -/

/-- Blanks, semicolons and comments in front of a statement. A comment holds no mark of another one. -/
inductive Lead : List Char → Prop
  | nil : Lead []
  | blank {c : Char} {cs : List Char} (hc : isBlank c = true) (hascii : isForeign c = false)
    (h : Lead cs) : Lead (c :: cs)
  | semicolon {cs : List Char} (h : Lead cs) : Lead (';' :: cs)
  | lineComment {body cs : List Char} (hbody : ∀ c ∈ body, c ≠ '\n' ∧ c ≠ '\r') (h : Lead cs) :
    Lead ('-' :: '-' :: (body ++ '\n' :: cs))
  | blockComment {body cs : List Char} (hbody : Unclosed (body ++ ['*']))
    (hinner : ¬['/', '*'] <:+: body ++ ['*']) (hstar : body.head? ≠ some '/') (h : Lead cs) :
    Lead ('/' :: '*' :: (body ++ '*' :: '/' :: cs))

/-- No character of code belongs to a word, and none stops a search. -/
def Wordless (ms : List Marked) : Prop :=
  ∀ m ∈ ms, m.isCode = true → isWordChar m.char = false ∧ isForeign m.char = false

theorem wordless_hidden (cs : List Char) : Wordless (hidden cs) := by
  intro m hm hcode
  obtain ⟨c, -, rfl⟩ := List.mem_map.1 hm
  cases hcode

/-- The marks hold no word of code, and no word goes on behind them. -/
structure Silent (ms : List Marked) : Prop where
  wordless : Wordless ms
  last : lastInWord ms = false

theorem Silent.append (h : Silent ms) (hns : Silent ns) : Silent (ms ++ ns) where
  wordless := List.forall_mem_append.2 ⟨h.wordless, hns.wordless⟩
  last := by
    by_cases hnil : ns = []
    · rw [hnil, List.append_nil]
      exact h.last
    · rw [lastInWord, List.getLast?_append_of_ne_nil ms hnil]
      exact hns.last

theorem Wordless.silent (h : Wordless ms) {m : Marked} (hword : isWordChar m.char = false)
    (hascii : isForeign m.char = false) : Silent (ms ++ [m]) where
  wordless := List.forall_mem_append.2 ⟨h, List.forall_mem_singleton.2 fun _ => ⟨hword, hascii⟩⟩
  last := by rw [lastInWord_concat, hword]

theorem silent_singleton (hword : isWordChar c = false) (hascii : isForeign c = false) :
    Silent [⟨c, true⟩] :=
  Wordless.silent (m := ⟨c, true⟩) (List.forall_mem_nil _) hword hascii

def inCode (cs : List Char) : List Marked := cs.map fun c => ⟨c, true⟩

theorem mark_plain (h : ∀ c ∈ cs, c ∉ ['\'', '"', '-', '/']) (rest : List Char) :
    mark .code (cs ++ rest) = inCode cs ++ mark .code rest := by
  induction cs with
  | nil => rfl
  | cons c cs ih =>
    obtain ⟨hc, hcs⟩ := List.forall_mem_cons.1 h
    rw [List.cons_append, mark_code (not_opens_of_plain hc _), ih hcs]
    rfl

theorem plain_of_isBlank (h : isBlank c = true) : c ∉ ['\'', '"', '-', '/'] := by
  have hplain := Java.forall_blank (p := fun c => decide (c ∉ ['\'', '"', '-', '/'])) (by decide +kernel) h
  exact of_decide_eq_true hplain

theorem Lead.marks (h : Lead lead) (rest : List Char) :
    ∃ ms, mark .code (lead ++ rest) = ms ++ mark .code rest ∧ Silent ms := by
  -- a comment is one piece of its reading, and the scan stands in code again behind it
  induction h with
  | nil => exact ⟨[], rfl, List.forall_mem_nil _, rfl⟩
  | @blank c cs hc hascii h ih =>
    obtain ⟨ms, hms, hsilent⟩ := ih
    refine ⟨[⟨c, true⟩] ++ ms, ?_, (silent_singleton (isWordChar_of_isBlank hc) hascii).append hsilent⟩
    rw [List.cons_append, mark_code (not_opens_of_plain (plain_of_isBlank hc) _), hms]
    rfl
  | @semicolon cs h ih =>
    obtain ⟨ms, hms, hsilent⟩ := ih
    refine ⟨[⟨';', true⟩] ++ ms, ?_, (silent_singleton (by decide) (by decide)).append hsilent⟩
    rw [List.cons_append, mark_code (not_opens_of_plain (by decide) _), hms]
    rfl
  | @lineComment body cs hbody h ih =>
    obtain ⟨ms, hms, hsilent⟩ := ih
    have hfeed : '\n' ∉ body := fun hmem => (hbody _ hmem).1 rfl
    have hstands : Stands (.lineComment body) ('\n' :: (cs ++ rest)) := .lineComment hfeed (.inr rfl)
    have hmark := mark_stands hstands rfl
    have hwordless := wordless_hidden ('-' :: '-' :: body)
    refine ⟨hidden ('-' :: '-' :: body) ++ [⟨'\n', true⟩] ++ ms, ?_,
      (hwordless.silent (m := ⟨'\n', true⟩) (by decide) (by decide)).append hsilent⟩
    have hfeedMark : mark .code ('\n' :: (cs ++ rest)) = ⟨'\n', true⟩ :: mark .code (cs ++ rest) :=
      mark_code (not_opens_of_plain (by decide) _)
    rw [hfeedMark, hms] at hmark
    simp only [List.cons_append, List.append_assoc, List.nil_append]
    exact hmark
  | @blockComment body cs hbody hinner hstar h ih =>
    obtain ⟨ms, hms, hsilent⟩ := ih
    have hstands : Stands (.blockComment body true) (cs ++ rest) := .blockComment hbody
    have hshares : (Piece.blockComment body true).sharesStar = false := by
      cases body with
      | nil => rfl
      | cons c body =>
        have hslash : c ≠ '/' := by simpa using hstar
        unfold Piece.sharesStar
        split
        · next heq =>
          cases heq
          exact absurd rfl hslash
        · rfl
    have hmark := mark_stands hstands hshares
    rw [hms] at hmark
    have hwordless := wordless_hidden ('/' :: '*' :: (body ++ ['*']))
    refine ⟨hidden ('/' :: '*' :: (body ++ ['*'])) ++ [⟨'/', false⟩] ++ ms, ?_,
      (hwordless.silent (m := ⟨'/', false⟩) (by decide) (by decide)).append hsilent⟩
    have hmarks : (Piece.blockComment body true).marks =
        hidden ('/' :: '*' :: (body ++ ['*'])) ++ [⟨'/', false⟩] := by
      simp [Piece.marks, Piece.text, Piece.isCode, hidden]
    have htext : (Piece.blockComment body true).text ++ (cs ++ rest) =
        '/' :: '*' :: (body ++ '*' :: '/' :: (cs ++ rest)) := by
      simp [Piece.text]
    rw [hmarks, htext] at hmark
    simp only [List.cons_append, List.append_assoc, List.nil_append] at hmark ⊢
    exact hmark

/-- The letter is no character of code, in either case. -/
def Without (w : Char) (ms : List Marked) : Prop :=
  ∀ m ∈ ms, m.isCode = true → m.char.toLower ≠ w

theorem Wordless.without {w : Char} (h : Wordless ms) (hw : isWordChar w = true) :
    Without w ms := by
  intro m hm hcode
  rintro rfl
  rw [isWordChar_toLower, (h m hm hcode).1] at hw
  cases hw

theorem Wordless.any_foreign (h : Wordless ms) : ms.any Marked.isForeignCode = false := by
  rw [List.any_eq_false]
  intro m hm hforeign
  obtain ⟨hcode, hforeign⟩ := Bool.and_eq_true_iff.1 hforeign
  rw [(h m hm hcode).2] at hforeign
  cases hforeign

theorem Spelled.head_letter {w : Char} (h : Spelled words ms) (hws : AreKeywords words)
    (hw : words.flatten.head? = some w) : ∃ m ms', ms = m :: ms' ∧ m.char.toLower = w := by
  obtain ⟨m, ms', hms, -⟩ := h.head hws
  refine ⟨m, ms', hms, ?_⟩
  have hfirst {word : List Char} {words : List (List Char)} {first gap : List Marked}
      (hfirst : SpelledWord word first) (hne : word ≠ []) (hms : first ++ gap = m :: ms')
      (hw : (word :: words).flatten.head? = some w) : m.char.toLower = w := by
    cases first with
    | nil => exact absurd hfirst.text.symm hne
    | cons m' first =>
      obtain ⟨rfl, -⟩ := List.cons.inj hms
      rw [← hfirst.text] at hw
      exact Option.some.inj hw
  cases h with
  | last h =>
    exact hfirst h (hws.word_ne_nil _ List.mem_cons_self) ((List.append_nil _).trans hms) hw
  | more h => exact hfirst h (hws.word_ne_nil _ List.mem_cons_self) hms hw

/-- A search passes over what is without the first letter of its keywords, or it stops there. -/
theorem seek_without {w : Char} (hws : AreKeywords words) (hw : words.flatten.head? = some w)
    (pre : List Marked) (hms : Without w ms) :
    seek words (lastInWord pre) (ms ++ ns) =
      if ms.any Marked.isForeignCode then .error .foreignCharacter
      else (seek words (lastInWord (pre ++ ms)) ns).map
        (Option.map fun f => { f with before := ms ++ f.before }) := by
  -- keywords would begin with the letter that no character of code is
  induction ms generalizing pre with
  | nil =>
    rw [List.nil_append, List.append_nil, List.any_nil, if_neg (by decide)]
    cases seek words (lastInWord pre) ns with
    | error fault => rfl
    | ok found => cases found <;> rfl
  | cons m ms ih =>
    obtain ⟨hm, hrest⟩ := List.forall_mem_cons.1 hms
    rcases seek_cons hws pre m (ms ++ ns) with ⟨p, hfront, -⟩ | ⟨-, hseek⟩
    · obtain ⟨hcode, -⟩ := p.head_code hws hfront
      obtain ⟨m', keywords, hkeywords, hletter⟩ := p.spelled.head_letter hws hw
      have htext := p.text
      rw [hfront, List.nil_append, hkeywords, List.cons_append, List.cons.injEq] at htext
      rw [← htext.1] at hletter
      exact absurd hletter (hm hcode)
    · rw [List.cons_append, hseek, List.any_cons, ih (pre ++ [m]) hrest, List.append_assoc,
        List.singleton_append]
      cases m.isForeignCode with
      | true => rfl
      | false =>
        cases ms.any Marked.isForeignCode with
        | true => rfl
        | false =>
          cases seek words (lastInWord (pre ++ m :: ms)) ns with
          | error fault => rfl
          | ok found => cases found <;> rfl

theorem seek_createTable {keywords after : List Marked} (h : Silent ms)
    (hkeywords : Spelled createTable keywords) (hends : endsWord after = true) :
    seek createTable false (ms ++ (keywords ++ after)) =
      .ok (some ⟨ms, keywords ++ after, after⟩) := by
  have hws := areKeywords_createTable
  have hseek : seek createTable false (keywords ++ after) =
      .ok (some ⟨[], keywords ++ after, after⟩) := by
    have hmatch := (matchKeywords_iff hws).2 ⟨keywords, rfl, hkeywords, hends⟩
    obtain ⟨m, keywords', rfl, -⟩ := hkeywords.head hws
    have hcode := hkeywords.code m List.mem_cons_self
    rw [List.cons_append] at hmatch ⊢
    rw [seek, if_pos hcode, hmatch]
  have hwithout : Without 'c' ms := h.wordless.without (by decide)
  have hpass := @seek_without ms (keywords ++ after) _ _ hws rfl [] hwithout
  rw [List.nil_append, h.last, hseek, h.wordless.any_foreign, if_neg (by decide)] at hpass
  refine hpass.trans ?_
  simp [Except.map]

/-! ## Headings -/

/-- A blank, a parenthesis or a semicolon: a written name ends in front of it. -/
def endsName (c : Char) : Bool := isBlank c || c == '(' || c == ';'

/-- The text from the begin of a statement to the end of the name of its table. -/
structure Heading where
  lead : List Char
  /-- `CREATE TABLE` -/
  keywords : List Char
  /-- `IF NOT EXISTS`, with the blanks in front of it. -/
  condition : Option (List Char × List Char)
  space : List Char
  first : NamePart
  more : List NamePart

namespace Heading

variable {h : Heading}

def conditionText (h : Heading) : List Char :=
  match h.condition with
  | none => []
  | some (gap, words) => gap ++ words

def nameText (h : Heading) : List Char := h.first.text ++ pointedText h.more

def text (h : Heading) : List Char :=
  h.lead ++ (h.keywords ++ (h.conditionText ++ (h.space ++ h.nameText)))

/-- The last part of the name. -/
def name (h : Heading) : NamePart := h.more.getLast?.getD h.first

/-- The name may be taken for the first word of `IF NOT EXISTS`. -/
def IsIf (h : Heading) : Prop :=
  h.condition = none ∧ h.more = [] ∧ h.first.token.isKeyword "IF" = true

/-- The end of the name may be taken for the first word of `PARTITION BY`. -/
def IsPartition (h : Heading) : Prop :=
  "partition".toList <:+ h.nameText.map Char.toLower

/-- The elements of a table stand in front of the text, maybe behind blanks. -/
def StartsElements (rest : List Char) : Prop :=
  ∃ gap tail, rest = gap ++ '(' :: tail ∧ ∀ c ∈ gap, isBlank c = true

/-- The heading is plainly written. -/
structure Plain (h : Heading) : Prop where
  lead : Lead h.lead
  keywords : Spelled createTable (inCode h.keywords)
  condition : ∀ gap words, h.condition = some (gap, words) →
    gap ≠ [] ∧ (∀ c ∈ gap, isBlank c = true) ∧ Spelled ifNotExists (inCode words)
  space : ∀ c ∈ h.space, isBlank c = true
  apart : h.space ≠ [] ∨ ∃ cs, h.first = .quoted cs
  parts : ∀ p ∈ h.first :: h.more, p.Written ∧ ∀ c ∈ p.value, endsName c = false
  last : h.name.value ≠ [] ∧ '.' ∉ h.name.value

/-- The text starts with the heading, and the name ends with it. -/
structure Begins (h : Heading) (cs rest : List Char) : Prop where
  text : cs = h.text ++ rest
  ends : ∀ c ∈ rest.head?, endsName c = true
  /-- No further part of the name is read behind blanks or comments. -/
  closed : ∀ front ts, front <+: rest → Sql.tokenize front = some ts →
    ts.head? ≠ some (.operator ".")
  /-- A name that may be taken for a keyword stands in front of the elements. -/
  elements : h.IsIf ∨ h.IsPartition → StartsElements rest

/-! ## The written name -/

theorem ne_of_continuesWord {d : Char} (h : Sql.continuesWord c = true)
    (hd : Sql.continuesWord d = false) : c ≠ d := by
  rintro rfl
  rw [h] at hd
  cases hd

theorem endsName_of_continuesWord (h : Sql.continuesWord c = true) : endsName c = false := by
  have hblank : isBlank c = false := by
    by_contra hb
    have hword := Java.forall_blank (p := fun c => !Sql.continuesWord c) (by decide +kernel)
      (Bool.eq_true_of_not_eq_false hb)
    rw [h] at hword
    cases hword
  have hparen : c ≠ '(' := ne_of_continuesWord h (by decide +kernel)
  have hsemicolon : c ≠ ';' := ne_of_continuesWord h (by decide +kernel)
  simp [endsName, hblank, hparen, hsemicolon]

theorem mem_text {p : NamePart} (hc : c ∈ p.text) : c ∈ p.value ∨ c = '"' := by
  cases p with
  | word cs => exact .inl hc
  | quoted cs => 
    simp only [NamePart.text, List.mem_cons, List.mem_append, List.not_mem_nil, or_false] at hc
    rcases hc with rfl | hc | rfl
    · exact .inr rfl
    · exact .inl hc
    · exact .inr rfl

theorem Plain.endsName_nameText (hplain : h.Plain) : ∀ c ∈ h.nameText, endsName c = false := by
  have hpart : ∀ p ∈ h.first :: h.more, ∀ c ∈ p.text, endsName c = false := by
    intro p hp c hc
    rcases mem_text hc with hc | rfl
    · exact (hplain.parts p hp).2 c hc
    · decide
  intro c hc
  rcases List.mem_append.1 hc with hc | hc
  · exact hpart _ List.mem_cons_self c hc
  · obtain ⟨p, hp, hc⟩ := List.mem_flatMap.1 hc
    rcases List.mem_cons.1 hc with rfl | hc
    · decide
    · exact hpart p (List.mem_cons_of_mem _ hp) c hc

theorem takeWhile_endsName {name : List Char} (hname : ∀ c ∈ name, endsName c = false)
    (hends : ∀ c ∈ rest.head?, endsName c = true) :
    (name ++ rest).takeWhile (fun c => !endsName c) = name := by
  rw [List.takeWhile_append_of_pos]
  · cases rest with
    | nil => simp
    | cons c rest =>
      have hc := hends c rfl
      simp [hc]
  · intro c hc
    rw [hname c hc]
    rfl

theorem Plain.writtenName_eq (hplain : h.Plain) (hends : ∀ c ∈ rest.head?, endsName c = true)
    (hms : unmark ms = h.nameText ++ rest) : writtenName ms = h.nameText := by
  have hp : (fun c : Char => !isBlank c && c != '(' && c != ';') = fun c => !endsName c := by
    funext c
    simp [endsName, bne]
  rw [writtenName, hms, hp, takeWhile_endsName hplain.endsName_nameText hends]

theorem dropQuotes_eq_self (hc : '"' ∉ cs) : cs.dropWhile (· == '"') = cs := by
  cases cs with
  | nil => rfl
  | cons c cs =>
    have hne := List.ne_of_not_mem_cons hc
    rw [List.dropWhile_cons_of_neg (by simpa using hne.symm)]

/-- The quotes around a part are taken off. -/
theorem dropQuotes_text {p : NamePart} (hp : p.Written) (hne : p.value ≠ []) :
    Text.dropEndWhile (· == '"') (p.text.dropWhile (· == '"')) = p.value := by
  unfold Text.dropEndWhile
  cases p with
  | word cs =>
    obtain ⟨c, more, rfl, hc, hmore⟩ := hp
    have hquote : '"' ∉ c :: more := by
      intro hmem
      have hcontinues : ∀ d ∈ c :: more, Sql.continuesWord d = true :=
        List.forall_mem_cons.2 ⟨Sql.continuesWord_of_startsWord hc, hmore⟩
      exact ne_of_continuesWord (hcontinues _ hmem) (by decide +kernel) rfl
    rw [NamePart.text, NamePart.value, dropQuotes_eq_self hquote,
      dropQuotes_eq_self (mt List.mem_reverse.1 hquote), List.reverse_reverse]
  | quoted cs =>
    have hquote : '"' ∉ cs := hp
    have hfront : (NamePart.quoted cs).text.dropWhile (· == '"') = cs ++ ['"'] := by
      rw [NamePart.text, List.dropWhile_cons_of_pos (by decide)]
      cases cs with
      | nil => exact absurd rfl hne
      | cons c cs =>
        have hc := List.ne_of_not_mem_cons hquote
        rw [List.cons_append, List.dropWhile_cons_of_neg (by simpa using hc.symm)]
    rw [hfront, List.reverse_concat, List.dropWhile_cons_of_pos (by decide),
      dropQuotes_eq_self (mt List.mem_reverse.1 hquote), List.reverse_reverse]
    rfl

theorem Plain.bareName_eq (hplain : h.Plain) : bareName h.nameText = h.name.value := by
  have hpoint : ∀ c ∈ h.name.text, (c == '.') = false := by
    intro c hc
    rcases mem_text hc with hc | rfl
    · rw [beq_eq_false_iff_ne]
      rintro rfl
      exact hplain.last.2 hc
    · decide
  have hlast : (h.nameText.splitOnP (· == '.')).getLast?.getD [] = h.name.text := by
    rcases List.eq_nil_or_concat h.more with hmore | ⟨init, p, hmore⟩
    · have hname : h.name = h.first := by rw [Heading.name, hmore]; rfl
      rw [hname] at hpoint ⊢
      rw [nameText, hmore, pointedText, List.flatMap_nil, List.append_nil,
        List.splitOnP_eq_singleton hpoint]
      rfl
    · have hname : h.name = p := by rw [Heading.name, hmore]; simp
      rw [hname] at hpoint ⊢
      have htext : h.nameText = (h.first.text ++ pointedText init) ++ '.' :: p.text := by
        simp [nameText, pointedText, hmore]
      rw [htext, List.splitOnP_append_cons _ _ (by decide), List.splitOnP_eq_singleton hpoint]
      simp
  have hmem : h.name ∈ h.first :: h.more := by
    rw [Heading.name]
    cases hlast : h.more.getLast? with
    | none => exact List.mem_cons_self
    | some p => exact List.mem_cons_of_mem _ (List.mem_of_getLast? hlast)
  rw [bareName, hlast]
  exact dropQuotes_text (hplain.parts _ hmem).1 hplain.last.1

/-! ## The text behind the keywords -/

theorem plain_of_spelled (h : Spelled words (inCode cs)) (hws : AreKeywords words) :
    ∀ c ∈ cs, c ∉ ['\'', '"', '-', '/'] := by
  intro c hc hmem
  have hchar := h.char hws ⟨c, true⟩ (List.mem_map_of_mem hc)
  revert hchar
  simp only [List.mem_cons, List.not_mem_nil, or_false] at hmem
  rcases hmem with rfl | rfl | rfl | rfl <;> decide

theorem head_mark (r : Region) (cs : List Char) :
    (mark r cs).head?.map Marked.char = cs.head? := by
  rw [← List.head?_map]
  exact congrArg List.head? (unmark_mark r cs)

theorem skipBlanks_append (hcs : ∀ c ∈ cs, isBlank c = true)
    (hms : ∀ m ∈ ms.head?, isBlank m.char = false) : skipBlanks (inCode cs ++ ms) = ms := by
  unfold skipBlanks
  rw [List.dropWhile_append_of_pos]
  · cases ms with
    | nil => rfl
    | cons m ms => rw [List.dropWhile_cons_of_neg (by simpa using hms m rfl)]
  · intro m hm
    obtain ⟨c, hc, rfl⟩ := List.mem_map.1 hm
    exact hcs c hc

theorem Plain.head_nameText (hplain : h.Plain) :
    ∃ c cs, h.nameText = c :: cs ∧ isBlank c = false := by
  have hne : ∃ c cs, h.nameText = c :: cs := by
    obtain ⟨hwritten, -⟩ := hplain.parts h.first List.mem_cons_self
    unfold nameText
    cases hfirst : h.first with
    | word cs =>
      rw [hfirst] at hwritten
      obtain ⟨c, more, rfl, -⟩ := hwritten
      exact ⟨c, more ++ _, rfl⟩
    | quoted cs => exact ⟨'"', _, rfl⟩
  obtain ⟨c, cs, hname⟩ := hne
  refine ⟨c, cs, hname, ?_⟩
  have hc := hplain.endsName_nameText c (by rw [hname]; exact List.mem_cons_self)
  simp only [endsName, Bool.or_eq_false_iff] at hc
  exact hc.1.1

theorem Plain.mark_behind (hplain : h.Plain) (rest : List Char) :
    mark .code (h.conditionText ++ (h.space ++ (h.nameText ++ rest))) =
      inCode h.conditionText ++ (inCode h.space ++ mark .code (h.nameText ++ rest)) := by
  have hcondition : ∀ c ∈ h.conditionText, c ∉ ['\'', '"', '-', '/'] := by
    intro c hc
    unfold conditionText at hc
    cases hcond : h.condition with
    | none => simp [hcond] at hc
    | some found =>
      obtain ⟨gap, words⟩ := found
      obtain ⟨-, hgap, hwords⟩ := hplain.condition gap words hcond
      rw [hcond] at hc
      rcases List.mem_append.1 hc with hc | hc
      · exact plain_of_isBlank (hgap c hc)
      · exact plain_of_spelled hwords areKeywords_ifNotExists c hc
  have hspace : ∀ c ∈ h.space, c ∉ ['\'', '"', '-', '/'] :=
    fun c hc => plain_of_isBlank (hplain.space c hc)
  rw [mark_plain hcondition, mark_plain hspace]

theorem isBlank_of_isKeywordBlank (h : isKeywordBlank c = true) : isBlank c = true := by
  cases hc : isForeign c with
  | true =>
    rw [isKeywordBlank_of_foreign hc] at h
    cases h
  | false =>
    exact forall_ascii (P := fun c => isKeywordBlank c = true → isBlank c = true) (by decide) hc h

theorem Spelled.exists_first {word next : List Char} (h : Spelled (word :: next :: words) ms) :
    ∃ first gap more, ms = first ++ (gap ++ more) ∧ SpelledWord word first ∧ Blanks gap ∧
      Spelled (next :: words) more := by
  cases h with
  | more hw hg hnext => exact ⟨_, _, _, rfl, hw, hg, hnext⟩

theorem wordToken_of_toLower {word : List Char} (h : cs.map Char.toLower = word)
    (hword : word.all Char.isLower = true) :
    Sql.wordToken cs = .word (String.ofList cs) (String.ofList (word.map Char.toUpper)) := by
  have hupper : cs.flatMap Text.upperForm = word.map Char.toUpper := by
    subst h
    induction cs with
    | nil => rfl
    | cons c cs ih =>
      obtain ⟨hc, hcs⟩ := Bool.and_eq_true_iff.1 hword
      rw [List.flatMap_cons, ih hcs, (Sql.startsWord_of_isLower hc).2]
      rfl
  rw [Sql.wordToken, hupper]

theorem startsWord_of_toLower {word : List Char} (h : cs.map Char.toLower = word)
    (hword : word.all Char.isLower = true) : ∀ c ∈ cs, Sql.startsWord c = true := by
  intro c hc
  subst h
  exact (Sql.startsWord_of_isLower (List.all_eq_true.1 hword _ (List.mem_map_of_mem hc))).1

theorem nameText_eq_word (hpoint : '.' ∉ h.nameText) (hquote : '"' ∉ h.nameText) :
    h.more = [] ∧ h.first = .word h.nameText := by
  have hmore : h.more = [] := by
    rw [nameText] at hpoint
    cases hmore : h.more with
    | nil => rfl
    | cons p more => simp [hmore, pointedText] at hpoint
  refine ⟨hmore, ?_⟩
  rw [nameText, hmore, pointedText, List.flatMap_nil, List.append_nil] at hquote ⊢
  cases hfirst : h.first with
  | word cs => rfl
  | quoted cs => simp [hfirst, NamePart.text] at hquote

theorem endsName_of_isWordChar (h : isWordChar c = true) : endsName c = false := by
  have hblank : isBlank c = false := by
    by_contra hb
    rw [isWordChar_of_isBlank (eq_true_of_ne_false hb)] at h
    cases h
  have hparen : c ≠ '(' := by
    rintro rfl
    cases h
  have hsemicolon : c ≠ ';' := by
    rintro rfl
    cases h
  simp [endsName, hblank, hparen, hsemicolon]

/-- Keywords that begin in a name take the whole of it for the first one, and no elements stand behind
it. -/
theorem name_of_spelled {word next name : List Char} {keywords after : List Marked}
    (hws : AreKeywords (word :: next :: words)) (h : Spelled (word :: next :: words) keywords)
    (hname : ∀ c ∈ name, endsName c = false) (hends : ∀ c ∈ rest.head?, endsName c = true)
    (htext : unmark (keywords ++ after) = name ++ rest) :
    name.map Char.toLower = word ∧ ¬StartsElements rest := by
  obtain ⟨first, gap, more, rfl, hfirst, hgap, hmore⟩ := Spelled.exists_first h
  obtain ⟨g, gap, rfl⟩ := List.exists_cons_of_ne_nil hgap.ne_nil
  obtain ⟨m, more, rfl, hm⟩ := hmore.head hws.tail
  have hblank := isBlank_of_isKeywordBlank (hgap.blank g List.mem_cons_self)
  have hcut : unmark first ++ g.char :: (unmark gap ++ m.char :: unmark (more ++ after)) =
      name ++ rest := by
    rw [← htext]
    simp only [unmark, List.map_append, List.map_cons, List.append_assoc, List.cons_append]
  have hword : ∀ c ∈ unmark first, (!endsName c) = true := by
    intro c hc
    obtain ⟨b, hb, rfl⟩ := List.mem_map.1 hc
    rw [endsName_of_isWordChar (hfirst.isWordChar (hws.wordChars _ List.mem_cons_self) b hb)]
    rfl
  have hstop : endsName g.char = true := by simp [endsName, hblank]
  have hfirst' : unmark first = name := by
    have htake := congrArg (List.takeWhile fun c => !endsName c) hcut
    rw [takeWhile_endsName hname hends, List.takeWhile_append_of_pos hword,
      List.takeWhile_cons_of_neg (by simp [hstop]), List.append_nil] at htake
    exact htake
  refine ⟨?_, ?_⟩
  · rw [← hfirst', ← hfirst.text]
    exact List.map_map
  · rintro ⟨gap', tail, rfl, hgap'⟩
    rw [hfirst'] at hcut
    have hrest := List.append_cancel_left hcut
    have hgaps : ∀ c ∈ g.char :: unmark gap, isBlank c = true := by
      refine List.forall_mem_cons.2 ⟨hblank, fun c hc => ?_⟩
      obtain ⟨b, hb, rfl⟩ := List.mem_map.1 hc
      exact isBlank_of_isKeywordBlank (hgap.blank b (List.mem_cons_of_mem _ hb))
    have hletter : isBlank m.char = false := by
      by_contra hm'
      rw [isWordChar_of_isBlank (eq_true_of_ne_false hm')] at hm
      cases hm
    have hdrop := congrArg (List.dropWhile isBlank) hrest
    rw [← List.cons_append, List.dropWhile_append_of_pos hgap',
      List.dropWhile_append_of_pos hgaps, List.dropWhile_cons_of_neg (by simp [hletter]),
      List.dropWhile_cons_of_neg (by decide)] at hdrop
    obtain ⟨hparen, -⟩ := List.cons.inj hdrop
    rw [hparen] at hm
    cases hm

/-- A name is no condition, unless it is the word `IF` and no elements stand behind it. -/
theorem Plain.matchKeywords_name {cs : List Char} (hplain : h.Plain) (hcondition : h.condition = none)
    (hbegins : h.Begins cs rest) (inWord : Bool) :
    matchKeywords ifNotExists inWord (mark .code (h.nameText ++ rest)) = none := by
  have hws := areKeywords_ifNotExists
  by_contra hmatch
  obtain ⟨after, hmatch⟩ := Option.ne_none_iff_exists'.1 hmatch
  have hinWord : inWord = false := by
    cases inWord with
    | false => rfl
    | true => cases hmatch
  rw [hinWord, matchKeywords_iff hws] at hmatch
  obtain ⟨keywords, hms, hspelled, -⟩ := hmatch
  have htext := congrArg unmark hms
  rw [unmark_mark] at htext
  obtain ⟨hlower, hno⟩ :=
    name_of_spelled hws hspelled hplain.endsName_nameText hbegins.ends htext.symm
  have hstarts := startsWord_of_toLower hlower (by decide)
  have hnot {c : Char} (hc : Sql.startsWord c = false) : c ∉ h.nameText := by
    intro hmem
    rw [hstarts c hmem] at hc
    cases hc
  obtain ⟨hmore, hfirst⟩ := nameText_eq_word (hnot (by decide +kernel)) (hnot (by decide +kernel))
  have hif : h.IsIf := by
    refine ⟨hcondition, hmore, ?_⟩
    rw [hfirst, NamePart.token, wordToken_of_toLower hlower (by decide)]
    rfl
  exact hno (hbegins.elements (.inl hif))

theorem endsWord_blanks {gap : List Char} (hne : gap ≠ []) (hgap : ∀ c ∈ gap, isBlank c = true)
    (ms : List Marked) : endsWord (inCode gap ++ ms) = true := by
  obtain ⟨c, more, rfl⟩ := List.exists_cons_of_ne_nil hne
  have hc := isWordChar_of_isBlank (hgap c List.mem_cons_self)
  change (!isWordChar c) = true
  rw [hc]
  rfl

theorem Plain.endsWord_space (hplain : h.Plain) (rest : List Char) :
    endsWord (inCode h.space ++ mark .code (h.nameText ++ rest)) = true := by
  by_cases hspace : h.space = []
  · obtain ⟨cs, hfirst⟩ : ∃ cs, h.first = .quoted cs := by simpa [hspace] using hplain.apart
    rw [hspace, nameText, hfirst]
    simp [inCode, NamePart.text, mark, endsWord, isWordChar]
  · exact endsWord_blanks hspace hplain.space _

theorem Plain.endsWord_behind (hplain : h.Plain) (rest : List Char) :
    endsWord (mark .code (h.conditionText ++ (h.space ++ (h.nameText ++ rest)))) = true := by
  rw [hplain.mark_behind]
  cases hcondition : h.condition with
  | none =>
    have hnone : inCode h.conditionText = [] := by rw [conditionText, hcondition]; rfl
    rw [hnone]
    exact hplain.endsWord_space rest
  | some found =>
    obtain ⟨gap, words⟩ := found
    obtain ⟨hne, hgap, -⟩ := hplain.condition gap words hcondition
    have hsome : inCode h.conditionText = inCode gap ++ inCode words := by
      rw [conditionText, hcondition]
      exact List.map_append
    rw [hsome, List.append_assoc]
    exact endsWord_blanks hne hgap _

theorem Plain.unmark_skipIfNotExists {cs : List Char} (hplain : h.Plain) (hbegins : h.Begins cs rest) :
    unmark (skipIfNotExists (mark .code (h.conditionText ++ (h.space ++ (h.nameText ++ rest))))) =
      h.nameText ++ rest := by
  have hhead : ∀ m ∈ (mark .code (h.nameText ++ rest)).head?, isBlank m.char = false := by
    obtain ⟨c, cs, hname, hc⟩ := hplain.head_nameText
    intro m hm
    have hchar := head_mark .code (h.nameText ++ rest)
    rw [hm, hname] at hchar
    cases hchar
    exact hc
  have hname := skipBlanks_append hplain.space hhead
  rw [hplain.mark_behind]
  cases hcondition : h.condition with
  | none =>
    have hnone : inCode h.conditionText = [] := by rw [conditionText, hcondition]; rfl
    have hmatch := hplain.matchKeywords_name hcondition hbegins
    simp only [skipIfNotExists, hnone, List.nil_append, hname, hmatch]
    exact unmark_mark _ _
  | some found =>
    obtain ⟨gap, words⟩ := found
    obtain ⟨hne, hgap, hwords⟩ := hplain.condition gap words hcondition
    have hsome : inCode h.conditionText = inCode gap ++ inCode words := by
      rw [conditionText, hcondition]
      exact List.map_append
    have hhead : ∀ m ∈ (inCode words ++ (inCode h.space ++
        mark .code (h.nameText ++ rest))).head?, isBlank m.char = false := by
      obtain ⟨m, more, hm, hword⟩ := hwords.head areKeywords_ifNotExists
      rw [hm]
      rintro _ ⟨⟩
      by_contra hblank
      rw [isWordChar_of_isBlank (eq_true_of_ne_false hblank)] at hword
      cases hword
    have hstart := skipBlanks_append hgap hhead
    have hmatch := (matchKeywords_iff areKeywords_ifNotExists).2
      ⟨inCode words, rfl, hwords, hplain.endsWord_space rest⟩
    have hlength : ((inCode words ++ (inCode h.space ++ mark .code (h.nameText ++ rest))).length ==
        (inCode gap ++ (inCode words ++ (inCode h.space ++
          mark .code (h.nameText ++ rest)))).length) = false := by
      have hpos := List.length_pos_iff.2 hne
      simp [inCode]
      omega
    rw [hsome, List.append_assoc]
    simp only [skipIfNotExists, hstart, hlength, hmatch, hname]
    exact unmark_mark _ _

theorem Plain.exists_marks (hplain : h.Plain) (rest : List Char) :
    ∃ ms, Silent ms ∧ unmark ms = h.lead ∧ mark .code (h.text ++ rest) =
      ms ++ (inCode h.keywords ++
        mark .code (h.conditionText ++ (h.space ++ (h.nameText ++ rest)))) := by
  obtain ⟨ms, hlead, hsilent⟩ := hplain.lead.marks
    (h.keywords ++ (h.conditionText ++ (h.space ++ (h.nameText ++ rest))))
  have hunmark := congrArg unmark hlead
  rw [unmark_mark, unmark, List.map_append, ← unmark, ← unmark, unmark_mark] at hunmark
  refine ⟨ms, hsilent, (List.append_cancel_right hunmark).symm, ?_⟩
  rw [mark_plain (plain_of_spelled hplain.keywords areKeywords_createTable)] at hlead
  rw [← hlead]
  simp [text]

theorem Plain.declaredName_eq {ddl : String} (hplain : h.Plain)
    (hbegins : h.Begins ddl.toList rest) :
    declaredName ddl = .ok (some (String.ofList h.name.value)) := by
  obtain ⟨ms, hsilent, -, hmarks⟩ := hplain.exists_marks rest
  have hwritten := hplain.writtenName_eq hbegins.ends (hplain.unmark_skipIfNotExists hbegins)
  rw [declaredName, marked, hbegins.text, hmarks,
    seek_createTable hsilent hplain.keywords (hplain.endsWord_behind rest)]
  dsimp only [Except.map, Option.bind]
  rw [hwritten, hplain.bareName_eq]
  simp [hplain.last.1]

end Heading

end JpaScaffold.Ddl
