import JpaScaffold.Java.Render
import JpaScaffold.Proofs.Java.Name
import JpaScaffold.Proofs.Layout.Members

/-!
# Phrases

A phrase is a text whose tokens have matching brackets. It is read the same way in front of
everything that does not go on with its last token, so that phrases can be put together. Lines made
of phrases are sheets: complete members, ready for the layout.
-/
namespace JpaScaffold.Java.Layout

open Text (isBlank)

/-! ## Lexemes in front of a text -/

/-- The text goes on with no word, no number and no operator that stands in front of it. -/
def Loose (next : List Char) : Prop :=
  ∀ c rest, next = c :: rest →
    isWordChar c = false ∧ c ≠ '=' ∧ (c = '.' → startsWithDigit rest = false)

/-- Any text. -/
def Whatever (_ : List Char) : Prop := True

/-- The text does not begin with an equals sign. -/
def Unequal (next : List Char) : Prop := next.head? ≠ some '='

def separators : List Char := [' ', '\n', '(', ')', '<', '>', '[', ']', ',', ';', '"']

theorem loose_of_mem {c : Char} (h : c ∈ separators) (rest : List Char) : Loose (c :: rest) := by
  have hall : separators.all (fun d => decide (isWordChar d = false ∧ d ≠ '=' ∧ d ≠ '.')) = true := by
    decide +kernel
  obtain ⟨hword, hassign, hpoint⟩ := of_decide_eq_true (List.all_eq_true.1 hall c h)
  rintro _ _ ⟨⟩
  exact ⟨hword, hassign, fun hc => absurd hc hpoint⟩

theorem Loose.unequal {next : List Char} (h : Loose next) : Unequal next := by
  cases next with
  | nil => simp [Unequal]
  | cons c rest => simpa [Unequal] using (h c rest rfl).2.1

theorem loose_point {rest : List Char} (h : startsWithDigit rest = false) : Loose ('.' :: rest) := by
  rintro _ _ ⟨⟩
  exact ⟨by decide +kernel, by decide, fun _ => h⟩

theorem loose_of_atGap {next : List Char} (h : AtGap next) : Loose next := by
  rintro c rest rfl
  have hc := h c rfl
  have hall : blanks.all (fun d => decide (isWordChar d = false ∧ d ≠ '=' ∧ d ≠ '.')) = true := by
    decide +kernel
  obtain ⟨hword, hassign, hpoint⟩ := of_decide_eq_true (forall_blank hall hc)
  exact ⟨hword, hassign, fun hc => absurd hc hpoint⟩

variable {P Q : List Char → Prop} {A : Prop} {cs ds next word : List Char} {s : String}
  {w : List Content}

theorem wordTail_of_loose (hw : ∀ c ∈ word, isWordChar c = true) (hn : Loose next)
    (numeric : Bool) : wordTail numeric (word ++ next) = (word, next) := by
  induction word with
  | nil =>
    cases next with
    | nil => rfl
    | cons c rest =>
      obtain ⟨hword, -, hpoint⟩ := hn c rest rfl
      have hstop : (isWordChar c || (numeric && c == '.' && startsWithDigit rest)) = false := by
        rw [hword, Bool.false_or]
        cases hc : c == '.' with
        | true => rw [hpoint (eq_of_beq hc), Bool.and_false]
        | false => rw [Bool.and_false, Bool.false_and]
      rw [List.nil_append, wordTail, hstop]
      rfl
  | cons c word ih =>
    obtain ⟨hc, hw⟩ := List.forall_mem_cons.1 hw
    rw [List.cons_append, wordTail, hc, ih hw]
    rfl

theorem reads_word (hne : word ≠ []) (hw : ∀ c ∈ word, isWordChar c = true) (hn : Loose next) :
    Reads .word word next := by
  obtain ⟨c, rest, rfl⟩ := List.exists_cons_of_ne_nil hne
  obtain ⟨hc, hrest⟩ := List.forall_mem_cons.1 hw
  refine ⟨c, rest, rfl, isBlank_eq_false_of_isWordChar hc, ?_⟩
  have hcuts := @Cuts.word c (rest ++ next) hc
  rw [wordTail_of_loose hrest hn] at hcuts
  exact lexeme_of_cuts hcuts

/-- The operators of one character that occur in declarations. -/
def operators : List Char := ['=', '<', '>', '*']

theorem reads_operator {c : Char} (hc : c ∈ operators) (hn : Unequal next) :
    Reads .punct [c] next := by
  have hall : operators.all (fun d => decide (isBlank d = false ∧ isWordChar d = false ∧ d ≠ '"' ∧
      d ≠ '\'' ∧ d ≠ '/' ∧ d ≠ '!' ∧ d ≠ '-' ∧ d ≠ ':' ∧ d ≠ '&' ∧ d ≠ '|' ∧ d ≠ '+')) = true := by
    decide +kernel
  obtain ⟨hb, hw, hq, hq', hs, h1, h2, h3, h4, h5, h6⟩ :=
    of_decide_eq_true (List.all_eq_true.1 hall c hc)
  have hop : operator c next = ⟨.punct, [c], next⟩ := by
    cases next with
    | nil => rfl
    | cons d r =>
      have hpair : isOperatorPair c d = false := by
        by_contra hp
        have hp := eq_true_of_ne_false hp
        unfold isOperatorPair at hp
        split at hp <;> first | exact hn rfl | contradiction
      rw [operator, hpair]
      rfl
  refine ⟨c, [], rfl, hb, ?_⟩
  rw [List.nil_append, ← hop]
  exact lexeme_of_cuts (.mark hw hq hq' fun hc => absurd hc hs)

theorem literalTail_escapedChar (c : Char) (rest : List Char) :
    literalTail '"' (escapedChar c ++ rest) =
      (literalTail '"' rest).map fun (t, r) => (escapedChar c ++ t, r) := by
  unfold escapedChar
  split
  · rfl
  · rfl
  · rfl
  · rfl
  · next hquote hslash hfeed _ =>
    rw [List.singleton_append, literalTail]
    · rw [if_neg hquote]
      rfl
    · exact hfeed
    · exact fun h _ => hslash h
    · exact fun _ _ h _ => hslash h

theorem literalTail_escaped (cs next : List Char) :
    literalTail '"' (cs.flatMap escapedChar ++ '"' :: next) =
      some (cs.flatMap escapedChar ++ ['"'], next) := by
  induction cs with
  | nil => rfl
  | cons c cs ih =>
    rw [List.flatMap_cons, List.append_assoc, literalTail_escapedChar, ih, Option.map_some,
      List.append_assoc]

theorem reads_string (cs next : List Char) :
    Reads .literal ('"' :: (cs.flatMap escapedChar ++ ['"'])) next := by
  refine ⟨'"', _, rfl, by decide, lexeme_of_cuts (.literal (.inl rfl) ?_)⟩
  rw [List.append_assoc]
  exact literalTail_escaped cs next

/-! ## Phrases -/

/-- The text is read as balanced tokens in front of every text that `P` admits. -/
def Phrase (P : List Char → Prop) (A : Prop) (cs : List Char) : Prop :=
  ∃ w, Spells .contents P cs w ∧ Balanced w ∧ (mark '=' ∈ w → A)

theorem phrase_nil : Phrase P A [] :=
  ⟨[], spells_nil _ _, .nil, fun h => absurd h List.not_mem_nil⟩

theorem Phrase.append (h : Phrase P A cs) (hds : Phrase Q A ds)
    (hseam : ∀ next, Q next → P (ds ++ next)) : Phrase Q A (cs ++ ds) := by
  obtain ⟨v, hv, hbv, hav⟩ := h
  obtain ⟨w, hw, hbw, haw⟩ := hds
  exact ⟨v ++ w, hv.append hw hseam, hbv.append hbw, fun hm => (List.mem_append.1 hm).elim hav haw⟩

theorem Phrase.append_cons {c : Char} (h : Phrase Loose A cs)
    (hds : Phrase Q A (c :: ds)) (hc : c ∈ separators) : Phrase Q A (cs ++ c :: ds) :=
  h.append hds fun _ _ => loose_of_mem hc _

theorem Phrase.blank (h : Phrase P A cs) : Phrase P A (' ' :: cs) := by
  obtain ⟨w, hw, hb, ha⟩ := h
  exact ⟨w, hw.blank (by decide), hb, ha⟩

theorem Phrase.mono (h : Phrase P A cs) {B : Prop} (ha : A → B)
    (hQ : ∀ next, Q next → P next) : Phrase Q B cs := by
  obtain ⟨w, hw, hb, hassigns⟩ := h
  exact ⟨w, fun next hn => hw next (hQ next hn), hb, fun hm => ha (hassigns hm)⟩

theorem phrase_of_reads {kind : TokenKind} (h : ∀ next, P next → Reads kind cs next)
    (hplain : IsPlain (kind, cs)) (ha : (kind, cs) = mark '=' → A) : Phrase P A cs := by
  refine ⟨[(kind, cs)], spells_of_reads h, .plain hplain .nil, fun hm => ha ?_⟩
  exact (List.mem_singleton.1 hm).symm

theorem phrase_word (hne : word ≠ []) (hw : ∀ c ∈ word, isWordChar c = true) :
    Phrase Loose A word :=
  phrase_of_reads (fun _ hn => reads_word hne hw hn) (.inl rfl) fun h => by cases h

theorem phrase_name (h : isSimpleName cs = true) : Phrase Loose A cs :=
  phrase_word (ne_nil_of_isSimpleName h) (isWordChar_of_isSimpleName h)

theorem phrase_string (s : List Char) :
    Phrase Whatever A ('"' :: (s.flatMap escapedChar ++ ['"'])) :=
  phrase_of_reads (fun next _ => reads_string s next) (.inr (.inl rfl)) fun h => by cases h

theorem phrase_operator {c : Char} (hc : c ∈ operators) (ha : c = '=' → A) :
    Phrase Unequal A [c] := by
  have hall : operators.all (fun d => decide ([d] ∉ structuralMarks)) = true := by decide
  have hplain := of_decide_eq_true (List.all_eq_true.1 hall c hc)
  refine phrase_of_reads (fun _ hn => reads_operator hc hn) (.inr (.inr ⟨rfl, hplain⟩)) fun h => ha ?_
  simpa [mark] using h

theorem phrase_mark {c : Char} (hc : c = ',' ∨ c = '.') : Phrase Whatever A [c] := by
  rcases hc with rfl | rfl
  · exact phrase_of_reads (fun next _ => reads_mark (by decide) next)
      (.inr (.inr ⟨rfl, by decide⟩)) fun h => by cases h
  · exact phrase_of_reads (fun next _ => reads_mark (by decide) next)
      (.inr (.inr ⟨rfl, by decide⟩)) fun h => by cases h

/-- A phrase between brackets. -/
theorem Phrase.group {l r : Char} {b : Bracket} (hb : Pairs l r b) (h : Phrase Loose A cs) :
    Phrase Whatever A (l :: (cs ++ [r])) := by
  obtain ⟨w, hw, hbw, ha⟩ := h
  have hmarks : l ∈ marks ∧ r ∈ marks ∧ r ∈ separators ∧ mark '=' ≠ mark l ∧ mark '=' ≠ mark r := by
    cases hb with
    | paren => decide
    | square => decide
  obtain ⟨hl, hr, hloose, hnel, hner⟩ := hmarks
  have hopen : Spells .contents Whatever [l] [mark l] :=
    spells_of_reads fun next _ => reads_mark hl next
  have hclose : Spells .contents Whatever [r] [mark r] :=
    spells_of_reads fun next _ => reads_mark hr next
  have hinner : Spells .contents Whatever (cs ++ [r]) (w ++ [mark r]) :=
    hw.append hclose fun next _ => loose_of_mem hloose next
  refine ⟨[mark l] ++ (w ++ [mark r]), ?_, .group hb hbw .nil, fun hm => ?_⟩
  · exact hopen.append hinner fun _ _ => trivial
  · simp only [List.mem_append, List.mem_singleton, hnel, hner, false_or, or_false] at hm
    exact ha hm

/-! ## Clauses and sheets -/

/-- The text of a declaration or a statement. -/
def Opening (A : Prop) (cs : List Char) : Prop :=
  ∃ w, Spells .contents Loose cs w ∧ Clause w ∧ (mark '=' ∈ w → A)

theorem Phrase.opening (h : Phrase Loose A ds) (hne : word ≠ [])
    (hw : ∀ c ∈ word, isWordChar c = true) (hno : word ∉ continuations)
    (himport : word ≠ "import".toList) (hseam : ∀ next, Loose next → Loose (ds ++ next)) :
    Opening A (word ++ ds) := by
  obtain ⟨w, hspells, hb, ha⟩ := h
  have hfirst : Spells .contents Loose word [(.word, word)] :=
    spells_of_reads fun _ hn => reads_word hne hw hn
  refine ⟨[(.word, word)] ++ w, hfirst.append hspells hseam, ?_, fun hm => ha ?_⟩
  · exact ⟨.plain (.inl rfl) hb, word, w, rfl, hno, himport⟩
  · simpa [mark] using hm

theorem Opening.append (h : Opening A cs) (hds : Phrase Loose A ds)
    (hseam : ∀ next, Loose next → Loose (ds ++ next)) : Opening A (cs ++ ds) := by
  obtain ⟨v, hv, ⟨hb, word, more, rfl, hno, himport⟩, ha⟩ := h
  obtain ⟨w, hw, hbw, haw⟩ := hds
  refine ⟨(.word, word) :: more ++ w, hv.append hw hseam, ?_, fun hm => ?_⟩
  · exact ⟨hb.append hbw, word, more ++ w, rfl, hno, himport⟩
  · exact (List.mem_append.1 hm).elim ha haw

/-- The lines are members, each of them complete. -/
def Sheet (lines : List (List Char)) : Prop :=
  ∃ w, Spells .contents AtGap (page lines) w ∧ Members w

variable {lines more : List (List Char)} {name args : List Char}

theorem sheet_nil : Sheet [] := ⟨[], spells_nil _ _, .nil⟩

theorem Sheet.append (h : Sheet lines) (hmore : Sheet more) : Sheet (lines ++ more) := by
  by_cases hne : more = []
  · rwa [hne, List.append_nil]
  · obtain ⟨v, hv, hmembers⟩ := h
    obtain ⟨w, hw, hmembers'⟩ := hmore
    exact ⟨v ++ w, hv.atLineEnd.page_append hw hne, hmembers.append hmembers'⟩

theorem sheet_flatMap {α : Type} {f : α → List (List Char)} {l : List α}
    (h : ∀ a ∈ l, Sheet (f a)) : Sheet (l.flatMap f) := by
  induction l with
  | nil => exact sheet_nil
  | cons a l ih =>
    obtain ⟨ha, hl⟩ := List.forall_mem_cons.1 h
    exact ha.append (ih hl)

theorem Opening.statement (h : Opening True cs) : Sheet [cs ++ [';']] := by
  obtain ⟨w, hw, hclause, -⟩ := h
  refine ⟨w ++ [mark ';'], ?_, .statement hclause .nil⟩
  rw [page_singleton]
  exact hw.append (spells_mark (by decide)) fun _ _ => loose_of_mem (by decide) _

theorem Opening.block (h : Opening False cs) (hlines : Sheet lines) :
    Sheet ((cs ++ [' ', '{']) :: lines ++ [['}']]) := by
  obtain ⟨v, hv, hclause, ha⟩ := h
  obtain ⟨w, hw, hmembers⟩ := hlines
  have hopen : Spells .contents AtGap [' ', '{'] [mark '{'] :=
    (spells_mark (by decide)).blank (by decide)
  have hheader : Spells .contents AtGap (page [cs ++ [' ', '{']]) (v ++ [mark '{']) := by
    rw [page_singleton]
    exact hv.append hopen fun _ _ => loose_of_mem (by decide) _
  have hclose : Spells .contents AtGap (page [['}']]) [mark '}'] := by
    rw [page_singleton]
    exact spells_mark (by decide)
  have hbody := hw.atLineEnd.page_append hclose (by simp)
  have hblock := hheader.atLineEnd.page_append hbody (by simp)
  rw [List.append_assoc] at hblock
  exact ⟨_, hblock, .block hclause (fun hm => ha hm) hmembers .nil⟩

theorem spells_marker (h : isSimpleName name = true) :
    Spells .contents Loose ('@' :: name) [mark '@', (.word, name)] := by
  have hat : Spells .contents Whatever ['@'] [mark '@'] :=
    spells_of_reads fun next _ => reads_mark (by decide) next
  have hname : Spells .contents Loose name [(.word, name)] := spells_of_reads fun _ hn =>
    reads_word (ne_nil_of_isSimpleName h) (isWordChar_of_isSimpleName h) hn
  exact hat.append hname fun _ _ => trivial

theorem sheet_marker (h : isSimpleName name = true) (hne : name ≠ "interface".toList) :
    Sheet ['@' :: name] := by
  refine ⟨[mark '@', (.word, name)], ?_, .marker hne .none .nil⟩
  rw [page_singleton]
  exact fun next hn => spells_marker h next (loose_of_atGap hn)

theorem Phrase.marker (hargs : Phrase Loose True args) (h : isSimpleName name = true)
    (hne : name ≠ "interface".toList) : Sheet ['@' :: (name ++ '(' :: (args ++ [')']))] := by
  obtain ⟨w, hw, hb, -⟩ := hargs
  have hopen : Spells .contents Whatever ['('] [mark '('] :=
    spells_of_reads fun next _ => reads_mark (by decide) next
  have hinner : Spells .contents AtGap (args ++ [')']) (w ++ [mark ')']) :=
    hw.append (spells_mark (by decide)) fun _ _ => loose_of_mem (by decide) _
  have hgroup : Spells .contents AtGap (['('] ++ (args ++ [')'])) ([mark '('] ++ (w ++ [mark ')'])) :=
    hopen.append hinner fun _ _ => trivial
  have hline := (spells_marker h).append hgroup fun _ _ => loose_of_mem (by decide) _
  have hmembers := Members.marker hne (.some hb) .nil
  rw [List.append_nil] at hmembers
  refine ⟨_, ?_, hmembers⟩
  rw [page_singleton]
  exact hline

end JpaScaffold.Java.Layout
