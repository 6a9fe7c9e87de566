import JpaScaffold.Proofs.Ddl.Safety

/-!
# Which scans return

A search looks at every character in front of the first place of its keywords. It returns exactly if no
character outside ASCII that it looks at is code. A scan for statements searches again behind the end of
each statement.
-/
namespace JpaScaffold.Ddl

open Text (isForeign)

variable {words : List (List Char)} {pre ms rest : List Marked} {m semicolon : Marked} {inWord : Bool}
  {f : Found}

/-- A character outside ASCII that is code. -/
def Marked.isForeignCode (m : Marked) : Bool := m.isCode && isForeign m.char

/-- A place in the text behind `pre` where code spells the words as whole words. -/
structure Place (words : List (List Char)) (pre ms : List Marked) where
  front : List Marked
  keywords : List Marked
  behind : List Marked
  text : ms = front ++ (keywords ++ behind)
  spelled : Spelled words keywords
  starts : lastInWord (pre ++ front) = false
  ends : endsWord behind = true

/-- No other place begins earlier. -/
def Place.IsFirst (p : Place words pre ms) : Prop :=
  ∀ q : Place words pre ms, p.front.length ≤ q.front.length

/-- A search looks at the character: it does not stand behind the begin of a place. -/
def Searched (words : List (List Char)) (pre ms : List Marked) (m : Marked) : Prop :=
  ∃ front rest, ms = front ++ m :: rest ∧ ∀ p : Place words pre ms, front.length ≤ p.front.length

/-! ## Keywords at a place -/

theorem isKeywordBlank_toLower (c : Char) : isKeywordBlank c.toLower = isKeywordBlank c := by
  cases h : isForeign c with
  | true => rw [toLower_of_foreign h]
  | false =>
    exact forall_ascii (P := fun c => isKeywordBlank c.toLower = isKeywordBlank c) (by decide) h

theorem not_blank_of_isWordChar {c : Char} (h : isWordChar c = true) : isKeywordBlank c = false := by
  cases hc : isForeign c with
  | true => exact isKeywordBlank_of_foreign hc
  | false =>
    exact forall_ascii (P := fun c => isWordChar c = true → isKeywordBlank c = false) (by decide) hc h

theorem SpelledWord.isWordChar {word : List Char} (h : SpelledWord word ms)
    (hchars : ∀ c ∈ word, isWordChar c = true) : ∀ m ∈ ms, isWordChar m.char = true := by
  intro m hm
  rw [← h.text] at hchars
  rw [← isWordChar_toLower]
  exact hchars _ (List.mem_map_of_mem hm)

theorem Spelled.head (h : Spelled words ms) (hws : AreKeywords words) :
    ∃ m ms', ms = m :: ms' ∧ isWordChar m.char = true := by
  have hhead {word : List Char} {ms : List Marked} (h : SpelledWord word ms) (hne : word ≠ [])
      (hchars : ∀ c ∈ word, Ddl.isWordChar c = true) :
      ∃ m ms', ms = m :: ms' ∧ Ddl.isWordChar m.char = true := by
    cases ms with
    | nil => exact absurd h.text.symm hne
    | cons m ms => exact ⟨m, ms, rfl, h.isWordChar hchars m List.mem_cons_self⟩
  cases h with
  | last h => exact hhead h (hws.word_ne_nil _ List.mem_cons_self) (hws.wordChars _ List.mem_cons_self)
  | more h =>
    obtain ⟨m, ms', rfl, hm⟩ :=
      hhead h (hws.word_ne_nil _ List.mem_cons_self) (hws.wordChars _ List.mem_cons_self)
    exact ⟨m, _, rfl, hm⟩

theorem Spelled.char (h : Spelled words ms) (hws : AreKeywords words) :
    ∀ m ∈ ms, isWordChar m.char = true ∨ isKeywordBlank m.char = true := by
  induction h with
  | last h =>
    intro m hm
    exact .inl (h.isWordChar (hws.wordChars _ List.mem_cons_self) m hm)
  | more h hg _ ih =>
    refine List.forall_mem_append.2 ⟨fun m hm => ?_,
      List.forall_mem_append.2 ⟨fun m hm => ?_, ih hws.tail⟩⟩
    · exact .inl (h.isWordChar (hws.wordChars _ List.mem_cons_self) m hm)
    · exact .inr (hg.blank m hm)

theorem Spelled.ascii (h : Spelled words ms) (hws : AreKeywords words) :
    ∀ m ∈ ms, isForeign m.char = false := by
  intro m hm
  by_contra hforeign
  have hforeign := eq_true_of_ne_false hforeign
  rcases h.char hws m hm with hc | hc
  · rw [isWordChar_of_foreign hforeign] at hc
    cases hc
  · rw [isKeywordBlank_of_foreign hforeign] at hc
    cases hc

theorem dropWord_spelled {word : List Char} (h : SpelledWord word ms) (rest : List Marked) :
    dropWord word (ms ++ rest) = some rest :=
  dropWord_eq_some.2 ⟨ms, rfl, h⟩

theorem dropBlanks_blanks (h : Blanks ms) (hm : isKeywordBlank m.char = false) (rest : List Marked) :
    dropBlanks (ms ++ m :: rest) = some (m :: rest) := by
  have hgap : ∀ b ∈ ms, b.isGap = true := fun b hb => by
    rw [Marked.isGap, h.code b hb, h.blank b hb]
    rfl
  have hstop : ¬m.isGap = true := by
    rw [Marked.isGap, hm, Bool.and_false]
    exact Bool.false_ne_true
  rw [dropBlanks_eq, List.takeWhile_append_of_pos hgap, List.takeWhile_cons_of_neg hstop,
    List.append_nil, if_neg h.ne_nil, List.dropWhile_append_of_pos hgap,
    List.dropWhile_cons_of_neg hstop]

theorem dropWords_spelled (h : Spelled words ms) (hws : AreKeywords words) (rest : List Marked) :
    dropWords words (ms ++ rest) = some rest := by
  induction h with
  | last h => exact dropWord_spelled h rest
  | more hw hg hnext ih =>
    obtain ⟨m, ms', rfl, hm⟩ := hnext.head hws.tail
    have hrest := ih hws.tail
    rw [List.append_assoc, List.append_assoc, dropWords, dropWord_spelled hw, Option.bind_some,
      List.cons_append, dropBlanks_blanks hg (not_blank_of_isWordChar hm), Option.bind_some]
    · exact hrest
    · simp

namespace Place

variable {p : Place words pre ms}

theorem matchKeywords_eq (p : Place words pre ms) (hws : AreKeywords words) (h : p.front = []) :
    matchKeywords words (lastInWord pre) ms = some p.behind := by
  have hstarts := p.starts
  rw [h, List.append_nil] at hstarts
  have htext := p.text
  rw [h, List.nil_append] at htext
  have hdrop : dropWords words ms = some p.behind :=
    (congrArg (dropWords words) htext).trans (dropWords_spelled p.spelled hws p.behind)
  rw [Ddl.matchKeywords, hstarts, if_neg (by decide), hdrop, Option.filter_some, if_pos p.ends]

theorem exists_of_matchKeywords (hws : AreKeywords words)
    (h : matchKeywords words (lastInWord pre) ms = some rest) :
    ∃ p : Place words pre ms, p.front = [] ∧ p.behind = rest := by
  obtain ⟨keywords, htext, hspelled, hends⟩ := Ddl.exists_of_matchKeywords hws.ne_nil h
  have hstarts : lastInWord pre = false := by
    by_contra hin
    rw [Ddl.matchKeywords, if_pos (eq_true_of_ne_false hin)] at h
    cases h
  exact ⟨⟨[], keywords, rest, htext, hspelled, by rwa [List.append_nil], hends⟩, rfl, rfl⟩

def cons (m : Marked) (p : Place words (pre ++ [m]) ms) : Place words pre (m :: ms) where
  front := m :: p.front
  keywords := p.keywords
  behind := p.behind
  text := congrArg (m :: ·) p.text
  spelled := p.spelled
  starts := by simpa using p.starts
  ends := p.ends

theorem begins (p : Place words pre (m :: ms)) : p.front = [] ∨ ∃ q, p = cons m q := by
  obtain ⟨front, keywords, behind, text, spelled, starts, ends⟩ := p
  cases front with
  | nil => exact .inl rfl
  | cons m' front =>
    cases text
    exact .inr ⟨⟨front, keywords, behind, rfl, spelled, by simpa using starts, ends⟩, rfl⟩

/-- A place with which a text begins has a character of code in front that is no character outside
ASCII. -/
theorem head_code (p : Place words pre (m :: ms)) (hws : AreKeywords words) (h : p.front = []) :
    m.isCode = true ∧ isForeign m.char = false := by
  obtain ⟨m', ms', hkeywords, -⟩ := p.spelled.head hws
  have htext := p.text
  rw [h, List.nil_append, hkeywords, List.cons_append, List.cons.injEq] at htext
  have hmem : m ∈ p.keywords := by
    rw [hkeywords, htext.1]
    exact List.mem_cons_self
  exact ⟨p.spelled.code m hmem, p.spelled.ascii hws m hmem⟩

/-- The place stands in front of the text that begins with it. -/
def here (p : Place words pre ms) : Place words (pre ++ p.front) (p.keywords ++ p.behind) where
  front := []
  keywords := p.keywords
  behind := p.behind
  text := rfl
  spelled := p.spelled
  starts := by rw [List.append_nil]; exact p.starts
  ends := p.ends

def shift (pre front : List Marked) (p : Place words (pre ++ front) ms) :
    Place words pre (front ++ ms) where
  front := front ++ p.front
  keywords := p.keywords
  behind := p.behind
  text := by rw [List.append_assoc]; exact congrArg (front ++ ·) p.text
  spelled := p.spelled
  starts := by rw [← List.append_assoc]; exact p.starts
  ends := p.ends

@[simp] theorem shift_front (pre front : List Marked) (p : Place words (pre ++ front) ms) :
    (shift pre front p).front = front ++ p.front := rfl

end Place

/-! ## Searches -/

theorem map_returns_iff {ε α β : Type} {x : Except ε α} (f : α → β) :
    (∃ b, x.map f = .ok b) ↔ ∃ a, x = .ok a := by
  cases x <;> simp [Except.map]

theorem seek_cons (hws : AreKeywords words) (pre : List Marked) (m : Marked) (ms : List Marked) :
    (∃ p : Place words pre (m :: ms), p.front = [] ∧
      seek words (lastInWord pre) (m :: ms) = .ok (some ⟨[], m :: ms, p.behind⟩)) ∨
    (∀ p : Place words pre (m :: ms), p.front ≠ []) ∧
      seek words (lastInWord pre) (m :: ms) =
        if m.isForeignCode then .error .foreignCharacter
        else (seek words (lastInWord (pre ++ [m])) ms).map
          (Option.map fun f => { f with before := m :: f.before }) := by
  have hno (h : (if m.isCode then matchKeywords words (lastInWord pre) (m :: ms) else none) = none)
      (p : Place words pre (m :: ms)) : p.front ≠ [] := by
    intro hfront
    rw [if_pos (p.head_code hws hfront).1, p.matchKeywords_eq hws hfront] at h
    cases h
  rw [seek]
  split
  · next after hmatch =>
    split at hmatch
    · obtain ⟨p, hfront, rfl⟩ := Place.exists_of_matchKeywords hws hmatch
      exact .inl ⟨p, hfront, rfl⟩
    · cases hmatch
  · next hnone =>
    rw [lastInWord_concat]
    exact .inr ⟨hno hnone, rfl⟩

/-- What a search returns: the first place, or that there is none. -/
theorem place_of_seek (hws : AreKeywords words) (pre : List Marked) {found : Option Found}
    (h : seek words (lastInWord pre) ms = .ok found) :
    match found with
    | none => IsEmpty (Place words pre ms)
    | some f => ∃ p : Place words pre ms, p.IsFirst ∧ p.front = f.before ∧ p.behind = f.after := by
  -- a place begins with the text, or it is one of the text behind the first character
  induction ms generalizing pre found with
  | nil =>
    cases h
    refine ⟨fun p => ?_⟩
    obtain ⟨m, ms', hkeywords, -⟩ := p.spelled.head hws
    have htext := p.text
    rw [hkeywords] at htext
    simp at htext
  | cons m ms ih =>
    rcases seek_cons hws pre m ms with ⟨p, hfront, hseek⟩ | ⟨hno, hseek⟩
    · rw [hseek] at h
      cases h
      exact ⟨p, fun q => by rw [hfront]; exact Nat.zero_le _, hfront, rfl⟩
    · rw [hseek] at h
      split at h
      · cases h
      · obtain ⟨found', hrest, rfl⟩ := map_eq_ok.1 h
        have hplace := ih _ hrest
        cases found' with
        | none =>
          refine ⟨fun p => ?_⟩
          obtain hfront | ⟨q, -⟩ := p.begins
          · exact hno p hfront
          · exact hplace.false q
        | some g =>
          obtain ⟨p, hfirst, hfront, hbehind⟩ := hplace
          refine ⟨p.cons m, fun q => ?_, congrArg (m :: ·) hfront, hbehind⟩
          obtain hfront | ⟨q', rfl⟩ := q.begins
          · exact absurd hfront (hno q)
          · exact Nat.succ_le_succ (hfirst q')

/-- A search that finds nothing in front looks at the character there, and then at what a search
behind it looks at. -/
theorem searched_cons_iff (hno : ∀ p : Place words pre (m :: ms), p.front ≠ []) (m' : Marked) :
    Searched words pre (m :: ms) m' ↔ m' = m ∨ Searched words (pre ++ [m]) ms m' := by
  constructor
  · rintro ⟨front, rest, htext, hlooks⟩
    cases front with
    | nil =>
      cases htext
      exact .inl rfl
    | cons _ front =>
      cases htext
      exact .inr ⟨front, rest, rfl, fun q => Nat.le_of_succ_le_succ (hlooks (q.cons _))⟩
  · rintro (rfl | ⟨front, rest, rfl, hlooks⟩)
    · exact ⟨[], ms, rfl, fun p => Nat.zero_le _⟩
    · refine ⟨m :: front, rest, rfl, fun p => ?_⟩
      obtain hfront | ⟨q, rfl⟩ := p.begins
      · exact absurd hfront (hno p)
      · exact Nat.succ_le_succ (hlooks q)

/-- A search returns exactly if it looks at no character outside ASCII that is code. -/
theorem seek_returns_iff (hws : AreKeywords words) (pre ms : List Marked) :
    (∃ found, seek words (lastInWord pre) ms = .ok found) ↔
      ∀ m, Searched words pre ms m → m.isForeignCode = false := by
  induction ms generalizing pre with
  | nil =>
    refine iff_of_true ⟨none, rfl⟩ ?_
    rintro m ⟨front, rest, htext, -⟩
    simp at htext
  | cons m ms ih =>
    rcases seek_cons hws pre m ms with ⟨p, hfront, hseek⟩ | ⟨hno, hseek⟩
    · refine iff_of_true ⟨_, hseek⟩ ?_
      rintro m' ⟨front, rest, htext, hlooks⟩
      have hle := hlooks p
      rw [hfront, List.length_nil, Nat.le_zero, List.length_eq_zero_iff] at hle
      rw [hle, List.nil_append, List.cons.injEq] at htext
      rw [Marked.isForeignCode, ← htext.1, (p.head_code hws hfront).2, Bool.and_false]
    · simp only [searched_cons_iff hno, forall_eq_or_imp]
      rw [hseek, ← ih]
      cases hforeign : m.isForeignCode with
      | true => simp
      | false => simp [map_returns_iff]

/-! ## Statements -/

/-- A scan for statements looks at the character: a search for the keywords of a statement does, or the
scan of what stands behind the semicolon of the first statement. -/
inductive Examined : List Marked → Marked → Prop
  | search {ms : List Marked} {m : Marked} (h : Searched createTable [] ms m) : Examined ms m
  | next {ms body rest : List Marked} {m semicolon : Marked} (p : Place createTable [] ms)
    (hp : p.IsFirst) (hbehind : p.behind = body ++ semicolon :: rest)
    (hbody : ∀ b ∈ body, b.isSemicolon = false) (hsemicolon : semicolon.isSemicolon = true)
    (h : Examined rest m) : Examined ms m

theorem Place.IsFirst.behind_eq {p q : Place words pre ms} (hws : AreKeywords words) (hp : p.IsFirst)
    (hq : q.IsFirst) : p.behind = q.behind := by
  have hlength : p.front.length = q.front.length := le_antisymm (hp q) (hq p)
  have htext : p.front ++ (p.keywords ++ p.behind) = q.front ++ (q.keywords ++ q.behind) := by
    rw [← p.text, ← q.text]
  obtain ⟨-, htail⟩ := List.append_inj htext hlength
  have hdrop := dropWords_spelled p.spelled hws p.behind
  rw [htail, dropWords_spelled q.spelled hws] at hdrop
  exact (Option.some.inj hdrop).symm

theorem dropWhile_semicolon {body : List Marked} (hbody : ∀ b ∈ body, b.isSemicolon = false)
    (hsemicolon : semicolon.isSemicolon = true) :
    (body ++ semicolon :: rest).dropWhile (!·.isSemicolon) = semicolon :: rest := by
  rw [List.dropWhile_append_of_pos (fun b hb => by rw [hbody b hb]; rfl),
    List.dropWhile_cons_of_neg (by rw [hsemicolon]; decide)]

theorem split_returns_iff : (∃ statements, splitMarked ms = .ok statements) ↔
    ∀ m, Examined ms m → m.isForeignCode = false := by
  have hws := areKeywords_createTable
  have hsearch (ms : List Marked) : (∃ found, seek createTable false ms = .ok found) ↔
      ∀ m, Searched createTable [] ms m → m.isForeignCode = false :=
    seek_returns_iff hws [] ms
  -- each search is safe where it looks at no foreign character, and so is the split behind it
  fun_induction splitMarked ms with
  | case1 ms fault hseek =>
    refine iff_of_false (by rintro ⟨_, ⟨⟩⟩) fun h => ?_
    obtain ⟨found, hfound⟩ := (hsearch ms).2 fun m hm => h m (.search hm)
    cases hseek.symm.trans hfound
  | case2 ms hseek =>
    refine iff_of_true ⟨_, rfl⟩ fun m hm => ?_
    have hnone : IsEmpty (Place createTable [] ms) := place_of_seek hws [] hseek
    cases hm with
    | search h => exact (hsearch ms).1 ⟨_, hseek⟩ m h
    | next p => exact hnone.elim p
  | case3 ms f hseek hlast =>
    refine iff_of_true ⟨_, rfl⟩ fun m hm => ?_
    obtain ⟨p, hp, -, hafter⟩ := place_of_seek hws [] hseek
    cases hm with
    | search h => exact (hsearch ms).1 ⟨_, hseek⟩ m h
    | next q hq hbehind hbody hsemicolon =>
      rw [← hafter, hp.behind_eq hws hq, hbehind, dropWhile_semicolon hbody hsemicolon] at hlast
      cases hlast
  | case4 ms f hseek semicolon rest hlast _ ih =>
    obtain ⟨p, hp, -, hafter⟩ := place_of_seek hws [] hseek
    refine (map_returns_iff _).trans (ih.trans ⟨?_, ?_⟩)
    · intro h m hm
      cases hm with
      | search hm => exact (hsearch ms).1 ⟨_, hseek⟩ m hm
      | next q hq hbehind hbody hsemicolon hm =>
        rw [← hafter, hp.behind_eq hws hq, hbehind, dropWhile_semicolon hbody hsemicolon] at hlast
        cases hlast
        exact h m hm
    · intro h m hm
      obtain ⟨body, hbehind, hbody, hsemicolon⟩ := exists_body hlast
      exact h m (.next p hp (hafter.trans hbehind) hbody hsemicolon hm)

/-- The scans by byte offsets do what the scans by characters do, and stop where those stop: at a slice
inside of a character, and never at an index. Each returns exactly if no character outside ASCII that it
looks at is code. -/
theorem scans_return (text : String) :
    (Agrees (splitStatements text) (scanStatements text) ∧
      Agrees (declaredName text) (scanName text) ∧
      Agrees (stripPartition text) (scanPartition text)) ∧
    ((∃ statements, scanStatements text = .ok statements) ↔
      ∀ m, Examined (marked text.toList) m → m.isForeignCode = false) ∧
    ((∃ name, scanName text = .ok name) ↔
      ∀ m, Searched createTable [] (marked text.toList) m → m.isForeignCode = false) ∧
    ((∃ cut, scanPartition text = .ok cut) ↔
      ∀ m, Searched partitionBy [] (marked text.toList) m → m.isForeignCode = false) := by
  have hstatements := statements_agree text
  have hname := name_agrees text
  have hpartition := partition_agrees text
  refine ⟨⟨hstatements, hname, hpartition⟩, ?_, ?_, ?_⟩
  · rw [hstatements.exists_ok_iff, splitStatements, map_returns_iff]
    exact split_returns_iff
  · rw [hname.exists_ok_iff, declaredName, map_returns_iff]
    exact seek_returns_iff areKeywords_createTable [] _
  · rw [hpartition.exists_ok_iff, stripPartition, map_returns_iff]
    exact seek_returns_iff areKeywords_partitionBy [] _

example : scanStatements "é create table a (id int);" = .error (.slice 1) := by decide +kernel

example : scanStatements "'é' create table a (id int);" = .ok ["create table a (id int);"] := by
  decide +kernel

end JpaScaffold.Ddl
