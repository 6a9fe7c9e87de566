import Mathlib
import JpaScaffold.Proofs.Ddl.Heading
import JpaScaffold.Proofs.Text.Trim
import JpaScaffold.Table.Reading

/-!
# The name of a table that is read

The name of a table is read twice: the parser takes it from the tokens of the statement, and a search
takes it from the text behind the keywords. Both readings agree on a statement whose heading is written
plainly.
-/
namespace JpaScaffold.Ddl

open Sql (EndsWord Lexes NamePart Token pointedText pointedTokens)
open Text (isBlank)

variable {cs lead rest : List Char} {ms : List Marked} {words : List (List Char)} {t : Token}

/-! ## The tokens of a heading -/

theorem Lead.lexes (h : Lead lead) (rest : List Char) :
    ∃ semicolons, (∀ t ∈ semicolons, t = .operator ";") ∧ Lexes lead semicolons rest := by
  induction h with
  | nil => exact ⟨[], List.forall_mem_nil _, Sql.lexes_nil rest⟩
  | @blank c cs hc _ _ ih =>
    obtain ⟨semicolons, hall, hlexes⟩ := ih
    have hblank : Lexes [c] [] (cs ++ rest) :=
      Sql.lexes_blanks (List.forall_mem_singleton.2 hc) _
    exact ⟨semicolons, hall, hblank.append hlexes⟩
  | @semicolon cs _ ih =>
    obtain ⟨semicolons, hall, hlexes⟩ := ih
    have hsemicolon : Lexes [';'] [.operator ";"] (cs ++ rest) :=
      Sql.lexes_punctuation (.inl rfl) _
    exact ⟨.operator ";" :: semicolons, List.forall_mem_cons.2 ⟨rfl, hall⟩,
      hsemicolon.append hlexes⟩
  | @lineComment body cs hbody _ ih =>
    obtain ⟨semicolons, hall, hlexes⟩ := ih
    have hcomment := (Sql.lexes_line hbody (cs ++ rest)).append hlexes
    refine ⟨semicolons, hall, ?_⟩
    simpa only [List.cons_append, List.append_assoc, List.nil_append] using hcomment
  | @blockComment body cs hbody hinner _ _ ih =>
    obtain ⟨semicolons, hall, hlexes⟩ := ih
    have hcomment := (Sql.lexes_block hbody hinner (cs ++ rest)).append hlexes
    refine ⟨semicolons, hall, ?_⟩
    simpa only [List.cons_append, List.append_assoc, List.nil_append] using hcomment

theorem unmark_inCode (cs : List Char) : unmark (inCode cs) = cs := by
  rw [unmark, inCode, List.map_map]
  exact List.map_id' cs

theorem endsWord_of_endsName (h : ∀ c ∈ rest.head?, endsName c = true) : EndsWord rest := by
  intro c hc
  have hends := h c hc
  refine ⟨?_, ?_, ?_⟩
  · by_contra hword
    rw [Heading.endsName_of_continuesWord (eq_true_of_ne_false hword)] at hends
    cases hends
  · rintro rfl
    cases hends
  · rintro rfl
    cases hends

theorem endsWord_of_gap {gap : List Char} (hne : gap ≠ []) (hgap : ∀ c ∈ gap, isBlank c = true)
    (rest : List Char) : EndsWord (gap ++ rest) := by
  apply endsWord_of_endsName
  obtain ⟨c, gap, rfl⟩ := List.exists_cons_of_ne_nil hne
  have hc := hgap c List.mem_cons_self
  rintro _ ⟨⟩
  simp [endsName, hc]

/-- The token is the keyword with these letters, in any case. -/
def IsWord (word : List Char) (t : Token) : Prop :=
  ∃ written, t = .word written (String.ofList (word.map Char.toUpper))

/-- Keywords of small letters are read as these keywords. -/
theorem Spelled.lexes (h : Spelled words ms) (hws : AreKeywords words)
    (hletters : ∀ word ∈ words, word.all Char.isLower = true) (hrest : EndsWord rest) :
    ∃ ts, Lexes (unmark ms) ts rest ∧ List.Forall₂ IsWord words ts := by
  have hword {word : List Char} {ms : List Marked} {rest : List Char} (h : SpelledWord word ms)
      (hne : word ≠ []) (hletters : word.all Char.isLower = true) (hrest : EndsWord rest) :
      ∃ t, Lexes (unmark ms) [t] rest ∧ IsWord word t := by
    have hlower : (unmark ms).map Char.toLower = word := by
      rw [← h.text]
      exact List.map_map
    have hstarts := Heading.startsWord_of_toLower hlower hletters
    refine ⟨Sql.wordToken (unmark ms), ?_, _, Heading.wordToken_of_toLower hlower hletters⟩
    cases ms with
    | nil => exact absurd h.text.symm hne
    | cons m ms =>
      obtain ⟨hm, hms⟩ := List.forall_mem_cons.1 hstarts
      exact Sql.lexes_word hm (fun c hc => Sql.continuesWord_of_startsWord (hms c hc)) hrest
  induction h with
  | last h =>
    obtain ⟨t, ht, hisWord⟩ := hword h (hws.word_ne_nil _ List.mem_cons_self)
      (hletters _ List.mem_cons_self) hrest
    exact ⟨[t], ht, .cons hisWord .nil⟩
  | @more word next words ms gap more h hgap hmore ih =>
    obtain ⟨ts, hts, hwords⟩ := ih hws.tail (List.forall_mem_cons.1 hletters).2
    have hblanks : ∀ c ∈ unmark gap, isBlank c = true := by
      intro c hc
      obtain ⟨m, hm, rfl⟩ := List.mem_map.1 hc
      exact Heading.isBlank_of_isKeywordBlank (hgap.blank m hm)
    have hne : unmark gap ≠ [] := by simpa [unmark] using hgap.ne_nil
    obtain ⟨t, ht, hisWord⟩ := hword h (hws.word_ne_nil _ List.mem_cons_self)
      (hletters _ List.mem_cons_self) (endsWord_of_gap hne hblanks (unmark more ++ rest))
    refine ⟨t :: ts, ?_, .cons hisWord hwords⟩
    have hlexes := (ht.append (Sql.lexes_blanks hblanks _)).append hts
    simpa only [unmark, List.map_append, List.append_assoc, List.append_nil, List.singleton_append]
      using hlexes

namespace Heading

variable {h : Heading}

theorem Plain.endsWord_name (hplain : h.Plain) (rest : List Char) :
    EndsWord (h.space ++ (h.nameText ++ rest)) := by
  by_cases hspace : h.space = []
  · obtain ⟨cs, hfirst⟩ : ∃ cs, h.first = .quoted cs := by simpa [hspace] using hplain.apart
    rw [hspace, nameText, hfirst]
    intro c hc
    obtain rfl : '"' = c := by simpa [NamePart.text] using hc
    exact ⟨by decide +kernel, by decide, by decide⟩
  · exact endsWord_of_gap hspace hplain.space _

theorem Plain.lexes_condition (hplain : h.Plain) (rest : List Char) :
    ∃ condition, Lexes h.conditionText condition (h.space ++ (h.nameText ++ rest)) ∧
      (h.condition = none ∧ condition = [] ∨ List.Forall₂ IsWord ifNotExists condition) := by
  unfold conditionText
  cases hcondition : h.condition with
  | none => exact ⟨[], Sql.lexes_nil _, .inl ⟨rfl, rfl⟩⟩
  | some found =>
    obtain ⟨gap, words⟩ := found
    obtain ⟨-, hgap, hwords⟩ := hplain.condition gap words hcondition
    obtain ⟨ts, hts, hall⟩ := hwords.lexes areKeywords_ifNotExists (by decide)
      (hplain.endsWord_name rest)
    rw [unmark_inCode] at hts
    exact ⟨ts, (Sql.lexes_blanks hgap _).append hts, .inr hall⟩

theorem Plain.endsWord_behind' (hplain : h.Plain) (rest : List Char) :
    EndsWord (h.conditionText ++ (h.space ++ (h.nameText ++ rest))) := by
  unfold conditionText
  cases hcondition : h.condition with
  | none => exact hplain.endsWord_name rest
  | some found =>
    obtain ⟨gap, words⟩ := found
    obtain ⟨hne, hgap, -⟩ := hplain.condition gap words hcondition
    dsimp only
    rw [List.append_assoc]
    exact endsWord_of_gap hne hgap _

/-- The tokens of a text that starts with a plain heading. -/
theorem Plain.lexes (hplain : h.Plain) (hends : ∀ c ∈ rest.head?, endsName c = true) :
    ∃ semicolons create table condition,
      Lexes h.text (semicolons ++ .word create "CREATE" :: .word table "TABLE" ::
        (condition ++ h.first.token :: pointedTokens h.more)) rest ∧
      (∀ t ∈ semicolons, t = .operator ";") ∧
      (h.condition = none ∧ condition = [] ∨ List.Forall₂ IsWord ifNotExists condition) := by
  have hrest : NamePart.Ends rest := by
    refine ⟨endsWord_of_endsName hends, ?_⟩
    intro hquote
    have hc := hends '"' hquote
    cases hc
  obtain ⟨hfirst, hmore⟩ := List.forall_mem_cons.1 hplain.parts
  have hname : Lexes h.nameText (h.first.token :: pointedTokens h.more) rest := by
    have hpart := hfirst.1.lexes (Sql.ends_pointedText h.more hrest)
    exact hpart.append (Sql.lexes_pointed h.more (fun p hp => (hmore p hp).1) hrest)
  have hspace := Sql.lexes_blanks hplain.space (h.nameText ++ rest)
  obtain ⟨condition, hcondition, hwords⟩ := hplain.lexes_condition rest
  obtain ⟨ts, hts, hkeywords⟩ := hplain.keywords.lexes areKeywords_createTable (by decide)
    (hplain.endsWord_behind' rest)
  obtain ⟨create, table, rfl⟩ : ∃ create table, ts = [.word create "CREATE", .word table "TABLE"] := by
    cases hkeywords with
    | cons hcreate hmore =>
      cases hmore with
      | cons htable hnil =>
        cases hnil
        obtain ⟨create, rfl⟩ := hcreate
        obtain ⟨table, rfl⟩ := htable
        exact ⟨create, table, rfl⟩
  rw [unmark_inCode] at hts
  obtain ⟨semicolons, hsemicolons, hlead⟩ := hplain.lead.lexes
    (h.keywords ++ (h.conditionText ++ (h.space ++ (h.nameText ++ rest))))
  refine ⟨semicolons, create, table, condition, ?_, hsemicolons, hwords⟩
  have hspaced : Lexes (h.space ++ h.nameText) (h.first.token :: pointedTokens h.more) rest :=
    hspace.append hname
  have hbehind : Lexes (h.conditionText ++ (h.space ++ h.nameText))
      (condition ++ h.first.token :: pointedTokens h.more) rest :=
    Lexes.append (by simpa only [List.append_assoc] using hcondition) hspaced
  have hstart : Lexes (h.keywords ++ (h.conditionText ++ (h.space ++ h.nameText)))
      (.word create "CREATE" :: .word table "TABLE" ::
        (condition ++ h.first.token :: pointedTokens h.more)) rest :=
    Lexes.append (by simpa only [List.append_assoc] using hts) hbehind
  exact Lexes.append (by simpa only [List.append_assoc] using hlead) hstart

theorem tryKeywords_operator (t : Token) (operator : String) (ts : List Token) :
    Sql.Parser.tryKeywords ["IF", "NOT", "EXISTS"] (t :: .operator operator :: ts) =
      some (false, t :: .operator operator :: ts) := by
  simp [Sql.Parser.tryKeywords, Sql.Parser.startsWith, Token.isKeyword]

/-- `IF NOT EXISTS` is taken exactly where the heading has it. -/
theorem Begins.tryKeywords {cs : List Char} {condition ts : List Token}
    (hbegins : h.Begins cs rest) (hts : Sql.tokenize rest = some ts)
    (hcondition : h.condition = none ∧ condition = [] ∨
      List.Forall₂ IsWord ifNotExists condition) :
    Sql.Parser.tryKeywords ["IF", "NOT", "EXISTS"]
      (condition ++ h.first.token :: (pointedTokens h.more ++ ts)) =
        some (!condition.isEmpty, h.first.token :: (pointedTokens h.more ++ ts)) := by
  rcases hcondition with ⟨hnone, rfl⟩ | hwords
  · by_cases hif : h.first.token.isKeyword "IF" = true
    · cases hmore : h.more with
      | nil =>
        -- The name is the word `IF`, and a parenthesis stands behind it.
        obtain ⟨gap, tail, rfl, hgap⟩ := hbegins.elements (.inl ⟨hnone, hmore, hif⟩)
        have hparen : Lexes ['('] [.operator "("] tail := Sql.lexes_punctuation (.inr rfl) tail
        have hlexes := (Sql.lexes_blanks hgap _).append hparen
        rw [Lexes, List.append_assoc, List.singleton_append, hts] at hlexes
        obtain ⟨ts', -, htokens⟩ := Option.map_eq_some_iff.1 hlexes.symm
        rw [← htokens]
        exact tryKeywords_operator _ _ _
      | cons p more => exact tryKeywords_operator _ _ _
    · simp [Sql.Parser.tryKeywords, Sql.Parser.startsWith, hif]
  · cases hwords with
    | cons hif hwords =>
      cases hwords with
      | cons hnot hwords =>
        cases hwords with
        | cons hexists hnil =>
          cases hnil
          obtain ⟨_, rfl⟩ := hif
          obtain ⟨_, rfl⟩ := hnot
          obtain ⟨_, rfl⟩ := hexists
          rfl

theorem Plain.name_of_statements {cs : List Char} {s : Sql.CreateTable} {more : List Sql.Statement}
    (hplain : h.Plain) (hbegins : h.Begins cs rest)
    (hparse : (Sql.tokenize cs).bind Sql.Parser.statements = some (.createTable s :: more)) :
    s.name.value = String.ofList h.name.value := by
  obtain ⟨semicolons, create, table, condition, hlexes, hsemicolons, hcondition⟩ :=
    hplain.lexes hbegins.ends
  obtain ⟨tokens, htokens, hstatements⟩ := Option.bind_eq_some_iff.1 hparse
  rw [hbegins.text, hlexes] at htokens
  obtain ⟨ts, hts, rfl⟩ := Option.map_eq_some_iff.1 htokens
  have hpoint := hbegins.closed rest ts List.prefix_rfl hts
  have hname := Sql.Parser.name_of_statements hsemicolons (hbegins.tryKeywords hts hcondition)
    hpoint (by simpa only [List.append_assoc, List.cons_append] using hstatements)
  rw [hname, NamePart.value_ident]
  rfl

/-- A heading with the elements behind it begins the text. -/
theorem begins_of_startsElements (h : Heading) (helements : StartsElements rest) :
    h.Begins (h.text ++ rest) rest where
  text := rfl
  ends := by
    obtain ⟨gap, tail, rfl, hgap⟩ := helements
    intro c hc
    cases gap with
    | nil =>
      cases hc
      rfl
    | cons d gap =>
      cases hc
      simp [endsName, hgap c List.mem_cons_self]
  closed := by
    obtain ⟨gap, tail, rfl, hgap⟩ := helements
    intro front ts hfront hts
    have hblanks {cs : List Char} (hcs : ∀ c ∈ cs, isBlank c = true)
        (hts : Sql.tokenize cs = some ts) : ts.head? ≠ some (.operator ".") := by
      have hlexes := Sql.lexes_blanks hcs []
      rw [Lexes, List.append_nil, Sql.tokenize, hts] at hlexes
      cases hlexes
      simp
    obtain ⟨more, hmore⟩ := hfront
    rcases List.append_eq_append_iff.1 hmore with ⟨gap', rfl, -⟩ | ⟨front, rfl, hbehind⟩
    · exact hblanks (fun c hc => hgap c (List.mem_append_left _ hc)) hts
    · cases front with
      | nil =>
        rw [List.append_nil] at hts
        exact hblanks hgap hts
      | cons d front =>
        obtain ⟨rfl, -⟩ := List.cons.inj hbehind
        have hparen : Lexes ['('] [.operator "("] front := Sql.lexes_punctuation (.inr rfl) front
        have hlexes := (Sql.lexes_blanks hgap _).append hparen
        rw [Lexes, List.append_assoc, List.singleton_append, hts] at hlexes
        obtain ⟨ts', -, rfl⟩ := Option.map_eq_some_iff.1 hlexes.symm
        simp
  elements := fun _ => helements

/-! ## The text in front of the partition clause -/

theorem Spelled.without {w : Char} (h : Spelled words ms) (hw : ∀ word ∈ words, w ∉ word)
    (hblank : isKeywordBlank w = false) : Without w ms := by
  have hword {word : List Char} {ms : List Marked} (h : SpelledWord word ms) (hw : w ∉ word) :
      Without w ms := by
    intro m hm _
    rintro rfl
    apply hw
    rw [← h.text]
    exact List.mem_map_of_mem hm
  induction h with
  | last h => exact hword h (hw _ List.mem_cons_self)
  | more h hgap _ ih =>
    obtain ⟨hfirst, hnext⟩ := List.forall_mem_cons.1 hw
    refine List.forall_mem_append.2 ⟨hword h hfirst,
      List.forall_mem_append.2 ⟨fun m hm _ => ?_, ih hnext⟩⟩
    rintro rfl
    rw [isKeywordBlank_toLower, hgap.blank m hm] at hblank
    cases hblank

theorem without_blanks {gap : List Char} {w : Char} (hgap : ∀ c ∈ gap, isBlank c = true)
    (hw : isWordChar w = true) : Without w (inCode gap) := by
  intro m hm _
  obtain ⟨c, hc, rfl⟩ := List.mem_map.1 hm
  rintro rfl
  rw [isWordChar_toLower, isWordChar_of_isBlank (hgap c hc)] at hw
  cases hw

/-- In front of its name a plain heading is without the first letter of `PARTITION BY`. -/
theorem Plain.exists_front (hplain : h.Plain) (rest : List Char) :
    ∃ front, Without 'p' front ∧ h.text = unmark front ++ h.nameText ∧
      mark .code (h.text ++ rest) = front ++ mark .code (h.nameText ++ rest) := by
  obtain ⟨ms, hsilent, hlead, hmarks⟩ := hplain.exists_marks rest
  have hcondition : Without 'p' (inCode h.conditionText) := by
    unfold conditionText
    cases hcond : h.condition with
    | none => exact List.forall_mem_nil _
    | some found =>
      obtain ⟨gap, words⟩ := found
      obtain ⟨-, hgap, hwords⟩ := hplain.condition gap words hcond
      have hjoin : inCode (gap ++ words) = inCode gap ++ inCode words := List.map_append
      rw [hjoin]
      exact List.forall_mem_append.2
        ⟨without_blanks hgap (by decide), Spelled.without hwords (by decide) (by decide)⟩
  refine ⟨ms ++ (inCode h.keywords ++ (inCode h.conditionText ++ inCode h.space)), ?_, ?_, ?_⟩
  · refine List.forall_mem_append.2 ⟨hsilent.wordless.without (by decide), ?_⟩
    refine List.forall_mem_append.2 ⟨Spelled.without hplain.keywords (by decide) (by decide), ?_⟩
    exact List.forall_mem_append.2 ⟨hcondition, without_blanks hplain.space (by decide)⟩
  · have hunmark (cs : List Char) : List.map Marked.char (inCode cs) = cs := unmark_inCode cs
    rw [unmark] at hlead
    simp only [text, unmark, List.map_append, hunmark, hlead, List.append_assoc]
  · rw [hmarks, hplain.mark_behind]
    simp only [List.append_assoc]

/-- `PARTITION BY` begins behind the name. -/
theorem Plain.before_partition {cs : List Char} {f : Found} (hplain : h.Plain)
    (hbegins : h.Begins cs rest) (hseek : seek partitionBy false (marked cs) = .ok (some f)) :
    ∃ front, unmark f.before = h.text ++ front ∧ rest = front ++ unmark f.start := by
  have hws := areKeywords_partitionBy
  obtain ⟨pre, hwithout, htext, hmarks⟩ := hplain.exists_front rest
  have hpass := @seek_without pre (mark .code (h.nameText ++ rest)) _ _ hws rfl [] hwithout
  rw [marked, hbegins.text, hmarks] at hseek
  have hfound := hpass.symm.trans hseek
  split at hfound
  · cases hfound
  · obtain ⟨found, hname, hmap⟩ := map_eq_ok.1 hfound
    obtain ⟨g, rfl, rfl⟩ := Option.map_eq_some_iff.1 hmap
    obtain ⟨hsplit, keywords, hstart, hspelled, -⟩ := found_of_seek hws.ne_nil hname
    have hunmark := congrArg unmark hsplit
    rw [unmark_mark, unmark, List.map_append, ← unmark, ← unmark] at hunmark
    rcases List.append_eq_append_iff.1 hunmark with ⟨front, hfront, hrest⟩ | ⟨name, hcut, hbehind⟩
    · refine ⟨front, ?_, hrest⟩
      rw [unmark, List.map_append, ← unmark, ← unmark, hfront, htext, List.append_assoc]
    · -- A name in which `PARTITION BY` begins ends with its first word, and no elements follow.
      exfalso
      have hends : ∀ c ∈ name, endsName c = false := by
        intro c hc
        apply hplain.endsName_nameText c
        rw [hcut]
        exact List.mem_append_right _ hc
      rw [hstart] at hbehind
      obtain ⟨hlower, hno⟩ := name_of_spelled hws hspelled hends hbegins.ends hbehind
      apply hno
      apply hbegins.elements
      right
      rw [IsPartition, hcut, List.map_append, hlower]
      exact List.suffix_append _ _

theorem Plain.text_last (hplain : h.Plain) (c : Char) (hc : h.text.getLast? = some c) :
    isBlank c = false := by
  obtain ⟨d, cs, hname, -⟩ := hplain.head_nameText
  have hne : h.nameText ≠ [] := by simp [hname]
  obtain ⟨pre, -, htext, -⟩ := hplain.exists_front []
  rw [htext, List.getLast?_append_of_ne_nil _ hne] at hc
  have hends := hplain.endsName_nameText c (List.mem_of_getLast? hc)
  simp only [endsName, Bool.or_eq_false_iff] at hends
  exact hends.1.1

/-- A cut in front of a word behind the elements leaves their begin. -/
theorem StartsElements.cut {c : Char} {front behind : List Char}
    (h : StartsElements (front ++ c :: behind)) (hc : isWordChar c = true) :
    StartsElements (Text.trimEnd front) := by
  obtain ⟨gap, tail, htext, hgap⟩ := h
  have hparen : c ≠ '(' := by
    rintro rfl
    cases hc
  rcases List.append_eq_append_iff.1 htext with ⟨gap', rfl, hbehind⟩ | ⟨tail', hfront, hbehind⟩
  · exfalso
    cases gap' with
    | nil => exact hparen (List.cons.inj hbehind).1
    | cons d gap' =>
      obtain ⟨rfl, -⟩ := List.cons.inj hbehind
      rw [isWordChar_of_isBlank (hgap c (by simp))] at hc
      cases hc
  · cases tail' with
    | nil => exact absurd (List.cons.inj hbehind).1.symm hparen
    | cons d tail' =>
      obtain ⟨rfl, -⟩ := List.cons.inj hbehind
      refine ⟨gap, Text.trimEnd tail', ?_, hgap⟩
      have hlast : ∀ d, (gap ++ ['(']).getLast? = some d → isBlank d = false := by
        intro d hd
        rw [List.getLast?_concat] at hd
        cases hd
        rfl
      have htrim := Text.trimEnd_append hlast tail'
      rw [hfront]
      simpa only [List.append_assoc, List.singleton_append] using htrim

/-- What is read of a text starts with the same heading. -/
theorem Plain.begins_cut {ddl : String} {cut : String × Bool} (hplain : h.Plain)
    (hbegins : h.Begins ddl.toList rest) (hcut : stripPartition ddl = .ok cut) :
    ∃ rest', h.Begins cut.1.toList rest' := by
  obtain ⟨found, hseek, rfl⟩ := map_eq_ok.1 hcut
  cases found with
  | none => exact ⟨rest, hbegins⟩
  | some f =>
    obtain ⟨front, hbefore, rfl⟩ := hplain.before_partition hbegins hseek
    have hprefix : Text.trimEnd front <+: front ++ unmark f.start :=
      (Text.isPrefix_dropEndWhile _ _).trans (List.prefix_append _ _)
    refine ⟨Text.trimEnd front, ?_, ?_, ?_, ?_⟩
    · dsimp only
      rw [hbefore, String.toList_ofList, Text.trimEnd_append hplain.text_last]
    · intro c hc
      obtain ⟨more, hmore⟩ := hprefix
      apply hbegins.ends
      rw [← hmore, List.head?_append, hc]
      rfl
    · intro start ts hstart
      exact hbegins.closed start ts (hstart.trans hprefix)
    · intro hkeyword
      obtain ⟨-, keywords, hstart, hspelled, -⟩ := found_of_seek areKeywords_partitionBy.ne_nil hseek
      obtain ⟨m, more, rfl, hm⟩ := hspelled.head areKeywords_partitionBy
      have helements := hbegins.elements hkeyword
      rw [hstart] at helements
      exact helements.cut hm

end Heading

end JpaScaffold.Ddl

namespace JpaScaffold.Table

open Ddl (Heading endsName spelled_of_dropWords)

theorem exists_of_ofSql {c : Config} {partitionClause : Bool} {sql : String} {t : Table}
    (h : ofSql c partitionClause sql = .ok t) :
    ∃ s more, Sql.parseStatements sql = some (.createTable s :: more) ∧
      t = ofCreateTable c partitionClause s := by
  unfold ofSql at h
  cases hparse : Sql.parseStatements sql with
  | none => simp [hparse] at h
  | some statements =>
    rw [hparse] at h
    cases statements with
    | nil => cases h
    | cons statement more =>
      cases statement with
      | other => cases h
      | createTable s =>
        cases h
        exact ⟨s, more, rfl, rfl⟩

def ordersHeading : Heading where
  lead := "-- the orders\n".toList
  keywords := "create table".toList
  condition := some (" ".toList, "if not exists".toList)
  space := " ".toList
  first := .word "public".toList
  more := [.quoted "Orders".toList]

theorem plain_ordersHeading : ordersHeading.Plain where
  lead := by
    refine @Ddl.Lead.lineComment " the orders".toList [] ?_ .nil
    simp
  keywords := spelled_of_dropWords (by decide) (by decide)
  condition := by
    rintro _ _ ⟨⟩
    exact ⟨by decide, List.all_eq_true.1 (by decide), spelled_of_dropWords (by decide) (by decide)⟩
  space := List.all_eq_true.1 (by decide)
  apart := .inl (by decide)
  parts := by
    have hends {cs : List Char} (h : cs.all (fun c => !endsName c) = true) :
        ∀ c ∈ cs, endsName c = false := by simpa using h
    refine List.forall_mem_cons.2 ⟨⟨⟨'p', "ublic".toList, rfl, ?_, ?_⟩, hends (by decide)⟩, ?_⟩
    · decide +kernel
    · exact List.all_eq_true.1 (by decide +kernel)
    · have hquote : '"' ∉ "Orders".toList := by decide
      exact List.forall_mem_singleton.2 ⟨hquote, hends (by decide)⟩
  last := by decide

def ordersTable : Sql.CreateTable where
  qualifier := [⟨"public", none⟩]
  name := ⟨"Orders", some '"'⟩
  columns := [⟨⟨"id", none⟩, .builtin "INT8" none "", [.primaryKey]⟩]
  constraints := []

def ordersDdl : String :=
  "-- the orders\ncreate table if not exists public.\"Orders\" (id int8 primary key);"

theorem read_orders : read Config.default ordersDdl =
    .ok (.ok (ofCreateTable Config.default false ordersTable)) := by
  have hstrip : Ddl.stripPartition ordersDdl = .ok (ordersDdl, false) := by decide +kernel
  have htokens : Sql.tokenize ordersDdl.toList =
      some [.word "create" "CREATE", .word "table" "TABLE", .word "if" "IF", .word "not" "NOT",
        .word "exists" "EXISTS", .word "public" "PUBLIC", .operator ".", .quotedName "Orders",
        .operator "(", .word "id" "ID", .word "int8" "INT8", .word "primary" "PRIMARY",
        .word "key" "KEY", .operator ")", .operator ";"] := by cbv
  have hparse : Sql.Parser.statements [.word "create" "CREATE", .word "table" "TABLE",
      .word "if" "IF", .word "not" "NOT", .word "exists" "EXISTS", .word "public" "PUBLIC",
      .operator ".", .quotedName "Orders", .operator "(", .word "id" "ID", .word "int8" "INT8",
      .word "primary" "PRIMARY", .word "key" "KEY", .operator ")", .operator ";"] =
      some [.createTable ordersTable] := by cbv
  rw [read, hstrip]
  dsimp only [Except.map, ofSql, Sql.parseStatements]
  rw [htokens]
  dsimp only [Option.bind]
  rw [hparse]
  rfl

end JpaScaffold.Table
