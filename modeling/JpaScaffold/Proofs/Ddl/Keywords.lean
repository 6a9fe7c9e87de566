import JpaScaffold.Ddl.Script
import JpaScaffold.Proofs.Results

/-!
# Keywords in code

A search finds keywords where code spells them as whole words, in any letter case and with blanks
between them. A statement runs from such keywords to the first semicolon of code behind them.
-/
namespace JpaScaffold.Ddl

variable {word : List Char} {words : List (List Char)} {ms rest : List Marked} {inWord : Bool}
  {f : Found}

/-- Code spells the word. -/
structure SpelledWord (word : List Char) (ms : List Marked) : Prop where
  text : ms.map (fun m => m.char.toLower) = word
  code : ∀ m ∈ ms, m.isCode = true

/-- Keywords are at least one word, each of at least one character, and of word characters only. -/
structure AreKeywords (words : List (List Char)) : Prop where
  ne_nil : words ≠ []
  word_ne_nil : ∀ word ∈ words, word ≠ []
  wordChars : ∀ word ∈ words, ∀ c ∈ word, isWordChar c = true

theorem AreKeywords.tail {next : List Char} (h : AreKeywords (word :: next :: words)) :
    AreKeywords (next :: words) where
  ne_nil := List.cons_ne_nil next words
  word_ne_nil := (List.forall_mem_cons.1 h.word_ne_nil).2
  wordChars := (List.forall_mem_cons.1 h.wordChars).2

theorem AreKeywords.of_all (hne : words ≠ []) (hwords : ∀ word ∈ words, word ≠ [])
    (hchars : ∀ word ∈ words, word.all isWordChar = true) : AreKeywords words :=
  ⟨hne, hwords, fun word hword => List.all_eq_true.1 (hchars word hword)⟩

theorem areKeywords_createTable : AreKeywords createTable :=
  .of_all (by decide) (by decide) (by decide)

theorem areKeywords_ifNotExists : AreKeywords ifNotExists :=
  .of_all (by decide) (by decide) (by decide)

theorem areKeywords_partitionBy : AreKeywords partitionBy :=
  .of_all (by decide) (by decide) (by decide)

/-- The blanks between two keywords. -/
structure Blanks (ms : List Marked) : Prop where
  ne_nil : ms ≠ []
  code : ∀ m ∈ ms, m.isCode = true
  blank : ∀ m ∈ ms, isKeywordBlank m.char = true

/-- Code spells the words, with blanks between them. -/
inductive Spelled : List (List Char) → List Marked → Prop
  | last {word : List Char} {ms : List Marked} (h : SpelledWord word ms) : Spelled [word] ms
  | more {word next : List Char} {words : List (List Char)} {ms gap rest : List Marked}
    (hw : SpelledWord word ms) (hg : Blanks gap) (h : Spelled (next :: words) rest) :
    Spelled (word :: next :: words) (ms ++ (gap ++ rest))

theorem Spelled.code (h : Spelled words ms) : ∀ m ∈ ms, m.isCode = true := by
  induction h with
  | last h => exact h.code
  | more hw hg _ ih =>
    exact List.forall_mem_append.2 ⟨hw.code, List.forall_mem_append.2 ⟨hg.code, ih⟩⟩

theorem dropWord_eq_some :
    dropWord word ms = some rest ↔ ∃ spelled, ms = spelled ++ rest ∧ SpelledWord word spelled := by
  -- by induction on the word: each letter of it takes one character of code
  induction word generalizing ms with
  | nil =>
    rw [dropWord, Option.some.injEq]
    constructor
    · rintro rfl
      exact ⟨[], rfl, rfl, List.forall_mem_nil _⟩
    · rintro ⟨spelled, rfl, htext, -⟩
      rw [List.map_eq_nil_iff.1 htext, List.nil_append]
  | cons w word ih =>
    cases ms with
    | nil =>
      rw [dropWord]
      refine iff_of_false (by rintro ⟨⟩) ?_
      rintro ⟨spelled, hms, htext, -⟩
      rw [(List.append_eq_nil_iff.1 hms.symm).1] at htext
      cases htext
    | cons m ms =>
      rw [dropWord]
      split
      · next hm =>
        obtain ⟨hcode, hchar⟩ := Bool.and_eq_true_iff.1 hm
        rw [ih]
        constructor
        · rintro ⟨spelled, rfl, h⟩
          refine ⟨m :: spelled, rfl, ?_, List.forall_mem_cons.2 ⟨hcode, h.code⟩⟩
          rw [List.map_cons, h.text, beq_iff_eq.1 hchar]
        · rintro ⟨spelled, hms, htext, hall⟩
          cases spelled with
          | nil => cases htext
          | cons m' spelled =>
            cases hms
            cases htext
            exact ⟨spelled, rfl, rfl, (List.forall_mem_cons.1 hall).2⟩
      · next hm =>
        refine iff_of_false (by rintro ⟨⟩) ?_
        rintro ⟨spelled, hms, htext, hall⟩
        cases spelled with
        | nil => cases htext
        | cons m' spelled =>
          cases hms
          cases htext
          exact hm (by simp [hall m (by simp)])

theorem exists_of_dropBlanks (h : dropBlanks ms = some rest) :
    ∃ gap, ms = gap ++ rest ∧ Blanks gap := by
  cases ms with
  | nil => cases h
  | cons m ms =>
    rw [dropBlanks] at h
    split at h
    · next hm =>
      cases h
      refine ⟨m :: ms.takeWhile fun m => m.isCode && isKeywordBlank m.char, ?_, by simp, ?_, ?_⟩
      · rw [List.cons_append, List.takeWhile_append_dropWhile]
      · refine List.forall_mem_cons.2 ⟨(Bool.and_eq_true_iff.1 hm).1, fun m' hm' => ?_⟩
        exact (Bool.and_eq_true_iff.1 (List.all_eq_true.1 List.all_takeWhile m' hm')).1
      · refine List.forall_mem_cons.2 ⟨(Bool.and_eq_true_iff.1 hm).2, fun m' hm' => ?_⟩
        exact (Bool.and_eq_true_iff.1 (List.all_eq_true.1 List.all_takeWhile m' hm')).2
    · cases h

theorem exists_of_dropWords (hne : words ≠ []) (h : dropWords words ms = some rest) :
    ∃ keywords, ms = keywords ++ rest ∧ Spelled words keywords := by
  induction words generalizing ms with
  | nil => exact absurd rfl hne
  | cons word words ih =>
    cases words with
    | nil =>
      obtain ⟨spelled, hms, hw⟩ := dropWord_eq_some.1 h
      exact ⟨spelled, hms, .last hw⟩
    | cons next words =>
      obtain ⟨behind, h, hrest⟩ := Option.bind_eq_some_iff.1 h
      obtain ⟨blanks, hword, hblanks⟩ := Option.bind_eq_some_iff.1 h
      obtain ⟨spelled, rfl, hw⟩ := dropWord_eq_some.1 hword
      obtain ⟨gap, rfl, hg⟩ := exists_of_dropBlanks hblanks
      obtain ⟨keywords, rfl, hk⟩ := ih (by simp) hrest
      exact ⟨_, by simp, .more hw hg hk⟩

theorem spelled_of_dropWords (hne : words ≠ []) (h : dropWords words ms = some []) :
    Spelled words ms := by
  obtain ⟨keywords, rfl, hspelled⟩ := exists_of_dropWords hne h
  rwa [List.append_nil]

/-- The place that was found: code spells the words there, and no word goes on behind them. -/
def Found.Spells (words : List (List Char)) (f : Found) : Prop :=
  ∃ keywords, f.start = keywords ++ f.after ∧ Spelled words keywords ∧ endsWord f.after = true

theorem exists_of_matchKeywords (hne : words ≠ []) (h : matchKeywords words inWord ms = some rest) :
    ∃ keywords, ms = keywords ++ rest ∧ Spelled words keywords ∧ endsWord rest = true := by
  unfold matchKeywords at h
  split at h
  · cases h
  · obtain ⟨h, hends⟩ := Option.filter_eq_some_iff.1 h
    obtain ⟨keywords, hms, hk⟩ := exists_of_dropWords hne h
    exact ⟨keywords, hms, hk, hends⟩

theorem found_of_seek (hne : words ≠ []) (h : seek words inWord ms = .ok (some f)) :
    ms = f.before ++ f.start ∧ f.Spells words := by
  induction ms generalizing inWord f with
  | nil => cases h
  | cons m ms ih =>
    rw [seek] at h
    split at h
    · next after hmatch =>
      cases h
      split at hmatch
      · exact ⟨rfl, exists_of_matchKeywords hne hmatch⟩
      · cases hmatch
    · split at h
      · cases h
      · obtain ⟨found, hs, hf⟩ := map_eq_ok.1 h
        obtain ⟨g, rfl, rfl⟩ := Option.map_eq_some_iff.1 hf
        obtain ⟨hms, hg⟩ := ih hs
        exact ⟨congrArg (m :: ·) hms, hg⟩

/-- The text is a statement of a marked text: code spells its keywords, and it ends with the first
semicolon of code behind them. -/
def IsStatement (ms : List Marked) (s : List Char) : Prop :=
  ∃ before keywords body semicolon after,
    ms = before ++ (keywords ++ (body ++ semicolon :: after)) ∧
      s = unmark (keywords ++ (body ++ [semicolon])) ∧ Spelled createTable keywords ∧
      (∀ m ∈ body, m.isSemicolon = false) ∧ semicolon.isSemicolon = true

theorem IsStatement.append_left {s : List Char} (h : IsStatement ms s) (front : List Marked) :
    IsStatement (front ++ ms) s := by
  obtain ⟨before, keywords, body, semicolon, after, rfl, h⟩ := h
  exact ⟨front ++ before, keywords, body, semicolon, after, by simp, h⟩

theorem eq_of_isSemicolon {m : Marked} (h : m.isSemicolon = true) : m = ⟨';', true⟩ := by
  obtain ⟨hcode, hchar⟩ := Bool.and_eq_true_iff.1 h
  rw [Marked.mk.injEq]
  exact ⟨beq_iff_eq.1 hchar, hcode⟩

theorem exists_body {semicolon : Marked} (h : ms.dropWhile (!·.isSemicolon) = semicolon :: rest) :
    ∃ body, ms = body ++ semicolon :: rest ∧ (∀ m ∈ body, m.isSemicolon = false) ∧
      semicolon.isSemicolon = true := by
  refine ⟨ms.takeWhile (!·.isSemicolon), ?_, fun m hm => ?_, ?_⟩
  · rw [← h, List.takeWhile_append_dropWhile]
  · simpa using List.all_eq_true.1 List.all_takeWhile m hm
  · have hhead := List.head?_dropWhile_not (fun m : Marked => !m.isSemicolon) ms
    rw [h] at hhead
    simpa using hhead

theorem statement_of_seek {semicolon : Marked} (hf : seek createTable inWord ms = .ok (some f))
    (hrest : f.after.dropWhile (!·.isSemicolon) = semicolon :: rest) :
    ∃ keywords body, f.start = keywords ++ (body ++ [semicolon]) ++ rest ∧
      Spelled createTable keywords ∧ (∀ m ∈ body, m.isSemicolon = false) ∧
      semicolon.isSemicolon = true := by
  obtain ⟨-, keywords, hstart, hkeywords, -⟩ := found_of_seek (by decide) hf
  obtain ⟨body, hafter, hbody, hsemicolon⟩ := exists_body hrest
  refine ⟨keywords, body, ?_, hkeywords, hbody, hsemicolon⟩
  rw [hstart, List.append_assoc, List.append_assoc, List.singleton_append, hafter]

theorem isStatement_of_splitMarked {statements : List (List Char)}
    (h : splitMarked ms = .ok statements) : ∀ s ∈ statements, IsStatement ms s := by
  fun_induction splitMarked ms generalizing statements with
  | case1 => cases h
  | case2 =>
    cases h
    exact List.forall_mem_nil _
  | case3 =>
    cases h
    exact List.forall_mem_nil _
  | case4 ms f hf semicolon rest hrest _ ih =>
    obtain ⟨hms, -⟩ := found_of_seek (by decide) hf
    obtain ⟨keywords, body, hspan, hkeywords, hbody, hsemicolon⟩ := statement_of_seek hf hrest
    have hfirst : IsStatement ms (unmark (f.start.take (f.start.length - rest.length))) := by
      refine ⟨f.before, keywords, body, semicolon, rest, ?_, ?_, hkeywords, hbody, hsemicolon⟩
      · rw [hms, hspan, List.append_assoc, List.append_assoc, List.singleton_append]
      · rw [hspan, List.length_append, Nat.add_sub_cancel, List.take_left]
    obtain ⟨more, hs, rfl⟩ := map_eq_ok.1 h
    refine List.forall_mem_cons.2 ⟨hfirst, fun s hmem => ?_⟩
    have hfront : ms = f.before ++ (keywords ++ (body ++ [semicolon])) ++ rest := by
      rw [hms, hspan, ← List.append_assoc]
    rw [hfront]
    exact (ih hs s hmem).append_left _

end JpaScaffold.Ddl
