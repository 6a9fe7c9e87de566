import JpaScaffold.Proofs.Ddl.Offsets

/-!
# Scanning by byte offsets finds the same

Between two characters a scan by byte offsets does what the scan by characters does, and its offsets
are those of the texts that are left. It never leaves its ranges, and stops only at a slice inside of
a character outside ASCII that is code: where the scan by characters stops.
-/
namespace JpaScaffold.Ddl

open Text (asciiByte isForeign utf8)

variable {s : Scanned} {pre post rest : List Marked} {m : Marked} {word : List Char}
  {words : List (List Char)} {k : Nat}

def Scanned.offset (s : Scanned) (rest : List Marked) : Nat := s.bytes.length - size rest

/-- The character in front belongs to a word. -/
def lastInWord (pre : List Marked) : Bool := pre.getLast?.any fun m => isWordChar m.char

/-- The character is a blank of code between keywords. -/
def Marked.isGap (m : Marked) : Bool := m.isCode && isKeywordBlank m.char

/-- The words have characters of ASCII only. -/
def Plainly (words : List (List Char)) : Prop := ∀ word ∈ words, ∀ c ∈ word, isForeign c = false

theorem AreKeywords.plainly (h : AreKeywords words) : Plainly words := by
  intro word hword c hc
  by_contra hforeign
  have hchar := h.wordChars word hword c hc
  rw [isWordChar_of_foreign (eq_true_of_ne_false hforeign)] at hchar
  cases hchar

theorem Between.offset_eq (h : Between s pre post) : s.offset post = size pre := by
  rw [Scanned.offset, h.length_bytes, Nat.add_sub_cancel]

theorem size_ascii (h : isForeign m.char = false) : m.char.utf8Size = 1 := by
  rw [← length_lowerBytes m, lowerBytes_of_ascii h]
  rfl

theorem size_concat (h : isForeign m.char = false) : size (pre ++ [m]) = size pre + 1 := by
  simp [size_ascii h]

theorem Between.entry_first_mask (h : Between s pre (m :: post)) :
    entry s.mask (size pre) = .ok m.isCode :=
  h.entry_mask m.char.utf8Size_pos

theorem Between.entry_first_byte (h : Between s pre (m :: post)) :
    ∃ b ∈ m.lowerBytes, entry s.bytes (size pre) = .ok b :=
  h.entry_bytes m.char.utf8Size_pos

theorem Between.first_lt (h : Between s pre (m :: post)) : size pre < s.bytes.length :=
  h.lt_length m.char.utf8Size_pos

theorem Between.not_lt (h : Between s pre []) : ¬size pre < s.bytes.length := by
  rw [h.length_bytes]
  simp

theorem skipBlanks_eq (h : Between s pre post) :
    s.skipBlanks (size pre) = .ok (s.offset (post.dropWhile Marked.isGap)) := by
  induction post generalizing pre with
  | nil =>
    rw [Scanned.skipBlanks, if_neg h.not_lt, List.dropWhile_nil, h.offset_eq]
    rfl
  | cons m post ih =>
    obtain ⟨b, hb, hbyte⟩ := h.entry_first_byte
    rw [Scanned.skipBlanks, if_pos h.first_lt, h.entry_first_mask, hbyte, List.dropWhile_cons]
    cases hcode : m.isCode with
    | false =>
      have hgap : m.isGap = false := by rw [Marked.isGap, hcode, Bool.false_and]
      rw [if_neg (by rw [hgap]; decide), h.offset_eq]
      rfl
    | true =>
      have hblank : isBlankByte b = m.isGap := by
        rw [Marked.isGap, hcode, Bool.true_and, isBlankByte_of_mem hb]
      cases hgap : m.isGap with
      | false =>
        rw [if_neg (by decide), h.offset_eq]
        simp only [ok_bind, hblank, hgap]
        rfl
      | true =>
        have hascii : isForeign m.char = false := by
          rw [Marked.isGap, hcode, Bool.true_and] at hgap
          by_contra hforeign
          rw [isKeywordBlank_of_foreign (eq_true_of_ne_false hforeign)] at hgap
          cases hgap
        rw [if_pos rfl, ← ih h.next, size_concat hascii]
        simp only [ok_bind, hblank, hgap]
        rfl

theorem utf8Size_of_spelled (hw : ∀ c ∈ word, isForeign c = false) {spelled : List Marked}
    (h : spelled.map (fun m => m.char.toLower) = word) : ∀ m ∈ spelled, m.char.utf8Size = 1 := by
  intro m hm
  have hlower : isForeign m.char.toLower = false := hw _ (h ▸ List.mem_map_of_mem hm)
  rw [← utf8Size_toLower, ← String.length_utf8EncodeChar, Text.utf8EncodeChar_ascii hlower]
  rfl

theorem size_of_ones {ms : List Marked} (h : ∀ m ∈ ms, m.char.utf8Size = 1) : size ms = ms.length := by
  induction ms with
  | nil => rfl
  | cons m ms ih =>
    obtain ⟨hm, hms⟩ := List.forall_mem_cons.1 h
    rw [size_cons, hm, ih hms, List.length_cons, Nat.add_comm]

theorem size_of_spelled (hw : ∀ c ∈ word, isForeign c = false) {spelled : List Marked}
    (h : spelled.map (fun m => m.char.toLower) = word) : size spelled = word.length := by
  rw [size_of_ones (utf8Size_of_spelled hw h), ← h, List.length_map]

theorem prefix_lowered_iff : word <+: lowered post ↔
    ∃ spelled rest, post = spelled ++ rest ∧ spelled.map (fun m => m.char.toLower) = word := by
  have hlowered (ms : List Marked) : lowered ms = ms.map fun m => m.char.toLower := List.map_map
  constructor
  · rintro ⟨tail, htail⟩
    rw [hlowered] at htail
    obtain ⟨spelled, rest, rfl, hword, -⟩ := List.map_eq_append_iff.1 htail.symm
    exact ⟨spelled, rest, rfl, hword⟩
  · rintro ⟨spelled, rest, rfl, rfl⟩
    rw [hlowered, List.map_append]
    exact List.prefix_append ..

theorem entries_mask {ms : List Marked} (h : Between s pre (ms ++ rest))
    (hms : ∀ m ∈ ms, m.char.utf8Size = 1) :
    entries s.mask (size pre) (size pre + size ms) = .ok (ms.map Marked.isCode) := by
  have hmarks : ms.flatMap Marked.byteMarks = ms.map Marked.isCode := by
    rw [List.map_eq_flatMap]
    refine List.flatMap_congr fun m hm => ?_
    rw [Marked.byteMarks, hms m hm]
    rfl
  have hmask : s.mask = pre.flatMap Marked.byteMarks ++
      (ms.flatMap Marked.byteMarks ++ rest.flatMap Marked.byteMarks) := by
    rw [h.mask, List.flatMap_append, List.flatMap_append]
  have hlength (ms : List Marked) : (ms.flatMap Marked.byteMarks).length = size ms :=
    length_flatMap_of_size length_byteMarks ms
  have hrange : size pre ≤ size pre + size ms ∧ size pre + size ms ≤ s.mask.length := by
    rw [hmask, List.length_append, List.length_append, hlength, hlength]
    omega
  rw [entries, if_pos hrange, hmask, ← hlength pre, List.drop_left, Nat.add_sub_cancel_left, ← hlength ms,
    List.take_left, hmarks]

theorem isSome_dropWord {spelled : List Marked} (h : spelled.map (fun m => m.char.toLower) = word) :
    (dropWord word (spelled ++ rest)).isSome = spelled.all Marked.isCode := by
  rw [Bool.eq_iff_iff, Option.isSome_iff_exists, List.all_eq_true]
  constructor
  · rintro ⟨rest', hrest'⟩
    obtain ⟨spelled', happend, hspelled'⟩ := dropWord_eq_some.1 hrest'
    have hlength : spelled.length = spelled'.length := by
      rw [← List.length_map (f := fun m : Marked => m.char.toLower), h, ← hspelled'.text,
        List.length_map]
    rw [(List.append_inj happend hlength).1]
    exact hspelled'.code
  · intro hcode
    exact ⟨rest, dropWord_eq_some.2 ⟨spelled, rfl, h, hcode⟩⟩

theorem matchWord_eq (h : Between s pre post) (hw : ∀ c ∈ word, isForeign c = false) :
    s.matchWord word (size pre) = .ok (dropWord word post).isSome := by
  rw [Scanned.matchWord, h.slices_lower, ok_bind]
  by_cases hstands : word.isPrefixOf (lowered post) = true
  · obtain ⟨spelled, rest, rfl, hword⟩ := prefix_lowered_iff.1 (List.isPrefixOf_iff_prefix.1 hstands)
    have hentries := entries_mask h (utf8Size_of_spelled hw hword)
    rw [size_of_spelled hw hword] at hentries
    simp only [hstands, if_true, hentries, ok_bind, isSome_dropWord hword, List.all_map]
    rfl
  · have hnone : dropWord word post = none := by
      rw [Option.eq_none_iff_forall_ne_some]
      intro rest hrest
      obtain ⟨spelled, rfl, hspelled⟩ := dropWord_eq_some.1 hrest
      exact hstands (List.isPrefixOf_iff_prefix.2
        (prefix_lowered_iff.2 ⟨spelled, rest, rfl, hspelled.text⟩))
    simp only [hstands, hnone]
    rfl

/-- The text behind words that follow, each behind blanks. -/
def dropMore : List (List Char) → List Marked → Option (List Marked)
  | [], ms => some ms
  | word :: words, ms => ((dropBlanks ms).bind (dropWord word)).bind (dropMore words)

theorem dropWords_cons (word : List Char) (words : List (List Char)) (ms : List Marked) :
    dropWords (word :: words) ms = (dropWord word ms).bind (dropMore words) := by
  induction words generalizing word ms with
  | nil =>
    rw [dropWords]
    cases dropWord word ms <;> rfl
  | cons next words ih =>
    have hnext : dropWords (next :: words) = fun ms => (dropWord next ms).bind (dropMore words) :=
      funext (ih next)
    rw [dropWords, hnext]
    · cases dropWord word ms with
      | none => rfl
      | some ms =>
        simp only [Option.bind_some, dropMore]
        cases dropBlanks ms <;> rfl
    · simp

theorem Between.behind_word (h : Between s pre post) (hw : ∀ c ∈ word, isForeign c = false)
    (hrest : dropWord word post = some rest) : ∃ spelled, SpelledWord word spelled ∧
      Between s (pre ++ spelled) rest ∧ size (pre ++ spelled) = size pre + word.length := by
  obtain ⟨spelled, rfl, hspelled⟩ := dropWord_eq_some.1 hrest
  exact ⟨spelled, hspelled, h.shift, by rw [size_append, size_of_spelled hw hspelled.text]⟩

theorem dropBlanks_eq (ms : List Marked) : dropBlanks ms =
    if ms.takeWhile Marked.isGap = [] then none else some (ms.dropWhile Marked.isGap) := by
  cases ms with
  | nil => rfl
  | cons m ms =>
    rw [dropBlanks, List.takeWhile_cons, List.dropWhile_cons]
    cases hgap : m.isGap with
    | false =>
      have hgap' : (m.isCode && isKeywordBlank m.char) = false := hgap
      rw [hgap']
      rfl
    | true =>
      have hgap' : (m.isCode && isKeywordBlank m.char) = true := hgap
      rw [hgap']
      rfl

theorem size_eq_zero {ms : List Marked} : size ms = 0 ↔ ms = [] := by
  cases ms with
  | nil => simp
  | cons m ms =>
    have hpos := m.char.utf8Size_pos
    simp only [size_cons, reduceCtorEq, iff_false]
    omega

theorem matchMore_eq (h : Between s pre post) (hws : Plainly words) :
    s.matchMore words (size pre) = .ok ((dropMore words post).map s.offset) := by
  induction words generalizing pre post with
  | nil =>
    rw [Scanned.matchMore, dropMore, Option.map_some, h.offset_eq]
    rfl
  | cons word words ih =>
    obtain ⟨hw, hwords⟩ := List.forall_mem_cons.1 hws
    have hbehind : Between s (pre ++ post.takeWhile Marked.isGap) (post.dropWhile Marked.isGap) := by
      refine Between.shift ?_
      rwa [List.takeWhile_append_dropWhile]
    rw [Scanned.matchMore, skipBlanks_eq h, ok_bind, dropMore, hbehind.offset_eq, dropBlanks_eq]
    by_cases hgap : post.takeWhile Marked.isGap = []
    · rw [if_pos (by rw [hgap, List.append_nil]), if_pos hgap]
      rfl
    · have hmoved : size (pre ++ post.takeWhile Marked.isGap) ≠ size pre := by
        rw [size_append]
        have hpos := mt size_eq_zero.1 hgap
        omega
      rw [if_neg hmoved, if_neg hgap, matchWord_eq hbehind hw, ok_bind, Option.bind_some]
      cases hword : dropWord word (post.dropWhile Marked.isGap) with
      | none => rfl
      | some rest =>
        obtain ⟨spelled, -, hrest, hsize⟩ := hbehind.behind_word hw hword
        rw [← hsize, Option.bind_some, ← ih hrest hwords]
        rfl

theorem matchWords_eq (h : Between s pre post) (hws : Plainly words) :
    s.matchWords words (size pre) = .ok ((dropWords words post).map s.offset) := by
  cases words with
  | nil =>
    rw [Scanned.matchWords, dropWords, Option.map_some, h.offset_eq]
    rfl
  | cons word words =>
    obtain ⟨hw, hwords⟩ := List.forall_mem_cons.1 hws
    rw [Scanned.matchWords, matchWord_eq h hw, ok_bind, dropWords_cons]
    cases hword : dropWord word post with
    | none => rfl
    | some rest =>
      obtain ⟨spelled, -, hrest, hsize⟩ := h.behind_word hw hword
      rw [← hsize, Option.bind_some, ← matchMore_eq hrest hwords]
      rfl

theorem wordAt_eq (h : Between s pre post) : s.wordAt (size pre) = .ok (!endsWord post) := by
  cases post with
  | nil =>
    rw [Scanned.wordAt, if_neg h.not_lt]
    rfl
  | cons m post =>
    obtain ⟨b, hb, hbyte⟩ := h.entry_first_byte
    rw [Scanned.wordAt, if_pos h.first_lt, hbyte, endsWord, Bool.not_not, ← isWordByte_of_mem hb]
    rfl

theorem lastInWord_concat (pre : List Marked) (m : Marked) :
    lastInWord (pre ++ [m]) = isWordChar m.char := by
  simp [lastInWord]

theorem wordBefore_eq (h : Between s pre post) : s.wordBefore (size pre) = .ok (lastInWord pre) := by
  cases pre using List.reverseRecOn with
  | nil => rfl
  | append_singleton pre m =>
    have hpos := m.char.utf8Size_pos
    have hback : Between s pre (m :: post) := by
      obtain ⟨htext, hlower, hmask⟩ := h
      rw [List.append_assoc] at htext hlower hmask
      exact ⟨htext, hlower, hmask⟩
    have hbefore : size (pre ++ [m]) - 1 = size pre + (m.char.utf8Size - 1) := by
      rw [size_append, size_cons, size_nil]
      omega
    obtain ⟨b, hb, hbyte⟩ := hback.entry_bytes (k := m.char.utf8Size - 1) (by omega)
    rw [Scanned.wordBefore, if_pos (by rw [size_append, size_cons]; omega), hbefore, hbyte,
      lastInWord_concat, ← isWordByte_of_mem hb]
    rfl

theorem Between.behind_words (h : Between s pre post) (hrest : dropWords words post = some rest) :
    ∃ keywords, Between s (pre ++ keywords) rest := by
  cases words with
  | nil =>
    cases hrest
    exact ⟨[], by rwa [List.append_nil]⟩
  | cons word words =>
    obtain ⟨keywords, rfl, -⟩ := exists_of_dropWords (by simp) hrest
    exact ⟨keywords, h.shift⟩

theorem matchKeywords_eq (h : Between s pre post) (hws : Plainly words) :
    s.matchKeywords words (size pre) =
      .ok ((matchKeywords words (lastInWord pre) post).map s.offset) := by
  rw [Scanned.matchKeywords, wordBefore_eq h, ok_bind, matchKeywords]
  cases lastInWord pre with
  | true => rfl
  | false =>
    rw [if_neg (by decide), if_neg (by decide), matchWords_eq h hws, ok_bind]
    cases hwords : dropWords words post with
    | none => rfl
    | some rest =>
      obtain ⟨keywords, hrest⟩ := h.behind_words hwords
      simp only [Option.map_some, hrest.offset_eq, wordAt_eq hrest, ok_bind, Option.filter_some]
      cases endsWord rest with
      | true => simp [hrest.offset_eq, pure, Except.pure]
      | false => rfl

end JpaScaffold.Ddl
