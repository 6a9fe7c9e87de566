import JpaScaffold.Proofs.Ddl.Scanning

/-!
# When scanning is safe

The scans that count in bytes agree with the scans by characters, also in when they stop, and no index
of theirs is out of range. A scan stops at a character outside ASCII that is code and that it reaches
before it finds what it looks for. Where it reaches none, it returns.
-/
namespace JpaScaffold.Ddl

open Text (asciiByte isForeign utf8)

variable {s : Scanned} {pre post rest : List Marked} {m : Marked} {words : List (List Char)}
  {inWord : Bool} {k : Nat} {α β : Type}

/-- Both scans return the same, or the one meets its fault where the other one is refused a slice. -/
inductive Agrees : Except ScanFault α → Except Panic α → Prop
  | ok (a : α) : Agrees (.ok a) (.ok a)
  | slice (fault : ScanFault) (offset : Nat) : Agrees (.error fault) (.error (.slice offset))

theorem Agrees.map {x : Except ScanFault α} {y : Except Panic α} (h : Agrees x y) (f : α → β) :
    Agrees (x.map f) (y.map f) := by
  cases h with
  | ok a => exact .ok (f a)
  | slice fault offset => exact .slice fault offset

theorem Agrees.eq_ok {x : Except ScanFault α} {y : Except Panic α} {a : α} (h : Agrees x y)
    (hx : x = .ok a) : y = .ok a := by
  rw [hx] at h
  cases h
  rfl

theorem Agrees.eq_error {x : Except ScanFault α} {y : Except Panic α} {fault : ScanFault}
    (h : Agrees x y) (hx : x = .error fault) : ∃ offset, y = .error (.slice offset) := by
  rw [hx] at h
  cases h with
  | slice fault offset => exact ⟨offset, rfl⟩

theorem Agrees.exists_ok_iff {x : Except ScanFault α} {y : Except Panic α} (h : Agrees x y) :
    (∃ a, y = .ok a) ↔ ∃ a, x = .ok a := by
  cases h with
  | ok a => simp
  | slice fault offset => simp

/-! ## Searching -/

def Scanned.places (s : Scanned) (f : Found) : Nat × Nat := (s.offset f.start, s.offset f.after)

theorem one_lt_size (h : isForeign m.char = true) : 1 < m.char.utf8Size := by
  obtain ⟨b, tail, hencode, -, htail, -⟩ := Text.utf8EncodeChar_foreign h
  rw [← String.length_utf8EncodeChar, hencode, List.length_cons]
  have hpos := List.length_pos_iff.2 htail
  omega

theorem search_hidden (h : Between s pre (m :: post)) (hm : m.isCode = false)
    (hk : k ≤ m.char.utf8Size) :
    s.search words (size pre + k) = s.search words (size (pre ++ [m])) := by
  induction hn : m.char.utf8Size - k generalizing k with
  | zero =>
    have hend : size (pre ++ [m]) = size pre + k := by
      simp only [size_append, size_cons, size_nil]
      omega
    rw [hend]
  | succ n ih =>
    have hlt : k < m.char.utf8Size := by omega
    rw [Scanned.search, if_pos (h.lt_length hlt), Scanned.codeKeywords, h.entry_mask hlt, ok_bind, hm]
    exact ih (k := k + 1) (by omega) (by omega)

/-- A search is refused a slice inside of a character that is code. -/
theorem search_foreign (h : Between s pre (m :: post)) (hm : m.isCode = true)
    (hforeign : isForeign m.char = true) (hws : AreKeywords words) :
    s.search words (size pre + 1) = .error (.slice (size pre + 1)) := by
  have hsize := one_lt_size hforeign
  obtain ⟨b, hb, hbyte⟩ := h.entry_first_byte
  have hbefore : s.wordBefore (size pre + 1) = .ok false := by
    rw [Scanned.wordBefore, if_pos (by omega), Nat.add_sub_cancel, hbyte,
      ← isWordByte_of_foreign (foreign_of_mem hforeign hb)]
    rfl
  have hwords : s.matchWords words (size pre + 1) = .error (.slice (size pre + 1)) := by
    cases words with
    | nil => exact absurd rfl hws.ne_nil
    | cons word words =>
      rw [Scanned.matchWords, Scanned.matchWord, h.slices_inside Nat.one_pos hsize]
      rfl
  have hkeywords : s.codeKeywords words (size pre + 1) = .error (.slice (size pre + 1)) := by
    rw [Scanned.codeKeywords, h.entry_mask hsize, ok_bind, hm, if_pos rfl, Scanned.matchKeywords,
      hbefore, ok_bind, if_neg (by decide), hwords]
    rfl
  rw [Scanned.search, if_pos (h.lt_length hsize), hkeywords]
  rfl

theorem codeKeywords_eq (h : Between s pre (m :: post)) (hws : AreKeywords words) :
    s.codeKeywords words (size pre) = .ok
      ((if m.isCode then matchKeywords words (lastInWord pre) (m :: post) else none).map s.offset) := by
  rw [Scanned.codeKeywords, h.entry_first_mask, ok_bind]
  cases m.isCode with
  | false => rfl
  | true => exact matchKeywords_eq h hws.plainly

theorem map_places (x : Except ScanFault (Option Found)) (m : Marked) :
    (x.map (Option.map fun f => { f with before := m :: f.before })).map (Option.map s.places) =
      x.map (Option.map s.places) := by
  cases x with
  | error fault => rfl
  | ok found => cases found <;> rfl

theorem search_agrees (h : Between s pre post) (hws : AreKeywords words) :
    Agrees ((seek words (lastInWord pre) post).map (Option.map s.places))
      (s.search words (size pre)) := by
  -- by induction on the text behind the position: the bytes of a character are passed over singly
  induction post generalizing pre with
  | nil =>
    rw [Scanned.search, if_neg h.not_lt]
    exact .ok none
  | cons m post ih =>
    have hnext := ih h.next
    rw [lastInWord_concat] at hnext
    rw [Scanned.search, if_pos h.first_lt, codeKeywords_eq h hws, ok_bind, seek]
    cases hfound : (if m.isCode then matchKeywords words (lastInWord pre) (m :: post) else none) with
    | some after =>
      have hplaces : s.places ⟨[], m :: post, after⟩ = (size pre, s.offset after) := by
        rw [Scanned.places, h.offset_eq]
      dsimp only [Option.map_some]
      rw [← hplaces]
      exact .ok _
    | none =>
      dsimp only [Option.map_none]
      cases hcode : m.isCode with
      | false =>
        rw [Bool.false_and, if_neg (by decide), map_places, search_hidden h hcode m.char.utf8Size_pos]
        exact hnext
      | true =>
        cases hforeign : isForeign m.char with
        | true =>
          have hfault : (true && decide (128 ≤ m.char.val)) = true := hforeign
          rw [if_pos hfault, search_foreign h hcode hforeign hws]
          exact .slice ..
        | false =>
          have hfault : (true && decide (128 ≤ m.char.val)) = false := hforeign
          rw [if_neg (by rw [hfault]; decide), map_places, ← size_concat hforeign]
          exact hnext

theorem search_eq_ok {found : Option Found} (h : Between s pre post) (hws : AreKeywords words) (hs : seek words (lastInWord pre) post = .ok found) :
    s.search words (size pre) = .ok (found.map s.places) :=
  (search_agrees h hws).eq_ok (congrArg (Except.map (Option.map s.places)) hs)

theorem search_eq_error {fault : ScanFault} (h : Between s pre post) (hws : AreKeywords words) (hs : seek words (lastInWord pre) post = .error fault) :
    ∃ offset, s.search words (size pre) = .error (.slice offset) :=
  (search_agrees h hws).eq_error (congrArg (Except.map (Option.map s.places)) hs)

/-! ## Statements -/

/-- A search for a semicolon passes over the bytes of another character. -/
theorem semicolon_skip (h : Between s pre (m :: post)) (hm : m.isSemicolon = false)
    (hk : k ≤ m.char.utf8Size) : s.semicolon (size pre + k) = s.semicolon (size (pre ++ [m])) := by
  induction hn : m.char.utf8Size - k generalizing k with
  | zero =>
    have hend : size (pre ++ [m]) = size pre + k := by
      simp only [size_append, size_cons, size_nil]
      omega
    rw [hend]
  | succ n ih =>
    have hlt : k < m.char.utf8Size := by omega
    have hnext := ih (k := k + 1) (by omega) (by omega)
    obtain ⟨b, hb, hbyte⟩ := h.entry_bytes hlt
    rw [Scanned.semicolon, if_pos (h.lt_length hlt), h.entry_mask hlt, ok_bind]
    cases hcode : m.isCode with
    | false => exact hnext
    | true =>
      have hne : b ≠ asciiByte ';' := by
        intro heq
        rw [Marked.isSemicolon, hcode, (semicolon_of_mem hb).1 heq] at hm
        cases hm
      rw [if_pos rfl, hbyte, ok_bind, if_neg hne]
      exact hnext

theorem semicolon_eq (h : Between s pre post) : s.semicolon (size pre) = .ok
    (match post.dropWhile (!·.isSemicolon) with
      | [] => none
      | m :: rest => some (s.offset (m :: rest))) := by
  induction post generalizing pre with
  | nil =>
    rw [Scanned.semicolon, if_neg h.not_lt]
    rfl
  | cons m post ih =>
    rw [List.dropWhile_cons]
    cases hm : m.isSemicolon with
    | false =>
      rw [← Nat.add_zero (size pre), semicolon_skip h hm (Nat.zero_le _), ih h.next]
      rfl
    | true =>
      obtain ⟨hcode, hchar⟩ := Bool.and_eq_true_iff.1 hm
      obtain ⟨b, hb, hbyte⟩ := h.entry_first_byte
      rw [Scanned.semicolon, if_pos h.first_lt, h.entry_first_mask, ok_bind, hcode, if_pos rfl, hbyte,
        ok_bind, if_pos ((semicolon_of_mem hb).2 (beq_iff_eq.1 hchar))]
      exact congrArg (fun n => Except.ok (some n)) h.offset_eq.symm

theorem span_eq {ms : List Marked} (h : Between s pre (ms ++ rest)) :
    s.span (size pre) (size (pre ++ ms)) = .ok (unmark ms) := by
  have happend : unmark (ms ++ rest) = unmark ms ++ unmark rest := List.map_append
  have hfront : slicesAt (unmark (ms ++ rest)) (size ms) = .ok (unmark ms, unmark rest) := by
    rw [slicesAt, happend, size, cutAt_byteLength]
  simp only [Scanned.span, h.slices_text, ok_bind, size_append, Nat.add_sub_cancel_left, hfront]
  rfl

theorem splitFrom_eq (s : Scanned) (i : Nat) : s.splitFrom i = (do
    match ← s.statementFrom i with
    | none => return []
    | some (start, last) =>
      let statement ← s.span start (last + 1)
      let more ← s.splitFrom (last + 1)
      return statement :: more) := by
  rw [Scanned.splitFrom]
  split
  · next h =>
    rw [h]
    rfl
  · next h =>
    rw [h]
    rfl
  · next h =>
    conv_rhs => rw [h]
    rfl

theorem statementFrom_eq {f : Found} (h : Between s pre post)
    (hs : seek createTable (lastInWord pre) post = .ok (some f)) : s.statementFrom (size pre) = .ok
      (match f.after.dropWhile (!·.isSemicolon) with
        | [] => none
        | m :: rest => some (s.offset f.start, s.offset (m :: rest))) := by
  have hsearch := search_eq_ok h areKeywords_createTable hs
  obtain ⟨rfl, keywords, hstart, -⟩ := found_of_seek areKeywords_createTable.ne_nil hs
  have hstop : Between s (pre ++ f.before ++ keywords) f.after := by
    rw [hstart] at h
    exact h.shift.shift
  have hsemicolon := semicolon_eq hstop
  rw [← hstop.offset_eq] at hsemicolon
  simp only [Scanned.statementFrom, hsearch, Option.map_some, Scanned.places, ok_bind, hsemicolon]
  cases f.after.dropWhile (!·.isSemicolon) with
  | nil => rfl
  | cons m rest => rfl

theorem split_agrees (h : Between s pre post) (hpre : lastInWord pre = false) :
    Agrees (splitMarked post) (s.splitFrom (size pre)) := by
  have hws := areKeywords_createTable
  fun_induction splitMarked post generalizing pre with
  | case1 post fault hseek =>
    rw [← hpre] at hseek
    obtain ⟨offset, hsearch⟩ := search_eq_error h hws hseek
    rw [splitFrom_eq, Scanned.statementFrom, hsearch]
    exact .slice ..
  | case2 post hseek =>
    rw [← hpre] at hseek
    rw [splitFrom_eq, Scanned.statementFrom, search_eq_ok h hws hseek]
    exact .ok _
  | case3 post f hseek hlast =>
    rw [← hpre] at hseek
    rw [splitFrom_eq, statementFrom_eq h hseek, hlast]
    exact .ok _
  | case4 post f hseek semicolon rest hlast _ ih =>
    rw [← hpre] at hseek
    have hstatement := statementFrom_eq h hseek
    obtain ⟨keywords, body, hspan, -, -, hsemicolon⟩ := statement_of_seek hseek hlast
    obtain ⟨rfl, -⟩ := found_of_seek hws.ne_nil hseek
    -- The scan goes on behind the semicolon, which takes one byte and belongs to no word.
    obtain ⟨-, hchar⟩ := Bool.and_eq_true_iff.1 hsemicolon
    have hascii : isForeign semicolon.char = false := by
      rw [beq_iff_eq.1 hchar]
      rfl
    have hstart : Between s (pre ++ f.before) (keywords ++ (body ++ [semicolon]) ++ rest) := by
      rw [← hspan]
      exact h.shift
    have hlastAt : Between s (pre ++ f.before ++ (keywords ++ body)) (semicolon :: rest) := by
      refine Between.shift ?_
      simpa using hstart
    have hrest := ih hlastAt.next (by rw [lastInWord_concat, beq_iff_eq.1 hchar]; rfl)
    have hend : s.offset (semicolon :: rest) + 1 =
        size (pre ++ f.before ++ (keywords ++ (body ++ [semicolon]))) := by
      rw [hlastAt.offset_eq, ← size_concat hascii]
      simp
    have hbegin : s.offset f.start = size (pre ++ f.before) := by rw [hspan, hstart.offset_eq]
    have hnext : size (pre ++ f.before ++ (keywords ++ (body ++ [semicolon]))) =
        size (pre ++ f.before ++ (keywords ++ body) ++ [semicolon]) := by simp
    rw [hlast] at hstatement
    have htake : f.start.take (f.start.length - rest.length) = keywords ++ (body ++ [semicolon]) := by
      rw [hspan, List.length_append, Nat.add_sub_cancel, List.take_left]
    rw [splitFrom_eq, hstatement, ok_bind]
    simp only [hend, hbegin, span_eq hstart, ok_bind]
    rw [hnext, htake]
    exact hrest.map _

/-! ## Names and partition clauses -/

theorem isBlank_toLower (c : Char) : Text.isBlank c.toLower = Text.isBlank c := by
  cases h : isForeign c with
  | true => rw [toLower_of_foreign h]
  | false => exact forall_ascii (P := fun c => Text.isBlank c.toLower = Text.isBlank c) (by decide) h

theorem isWordChar_toLower (c : Char) : isWordChar c.toLower = isWordChar c := by
  cases h : isForeign c with
  | true => rw [toLower_of_foreign h]
  | false => exact forall_ascii (P := fun c => isWordChar c.toLower = isWordChar c) (by decide) h

theorem trimStart_lowered (ms : List Marked) : Text.trimStart (lowered ms) = lowered (skipBlanks ms) := by
  induction ms with
  | nil => rfl
  | cons m ms ih =>
    have hlowered : lowered (m :: ms) = m.char.toLower :: lowered ms := rfl
    rw [skipBlanks, List.dropWhile_cons, hlowered, Text.trimStart, List.dropWhile_cons, isBlank_toLower]
    cases Text.isBlank m.char with
    | true => exact ih
    | false => rfl

theorem skipWhitespace_eq (h : Between s pre post) :
    s.skipWhitespace (size pre) = .ok (s.offset (skipBlanks post)) := by
  simp only [Scanned.skipWhitespace, h.slices_lower, ok_bind, trimStart_lowered, byteLength_utf8,
    byteLength_lowered]
  rfl

theorem Between.behind_blanks (h : Between s pre post) :
    Between s (pre ++ post.takeWhile fun m => Text.isBlank m.char) (skipBlanks post) := by
  refine Between.shift ?_
  rwa [skipBlanks, List.takeWhile_append_dropWhile]

theorem isWordChar_of_isBlank {c : Char} (h : Text.isBlank c = true) : isWordChar c = false := by
  cases hc : isForeign c with
  | true => exact isWordChar_of_foreign hc
  | false =>
    exact forall_ascii (P := fun c => Text.isBlank c = true → isWordChar c = false) (by decide) hc h

theorem lastInWord_blanks (hpre : lastInWord pre = true) (ms : List Marked) :
    lastInWord (pre ++ ms.takeWhile fun m => Text.isBlank m.char) =
      ((skipBlanks ms).length == ms.length) := by
  have hlength : (ms.takeWhile fun m => Text.isBlank m.char).length + (skipBlanks ms).length =
      ms.length := by
    rw [skipBlanks, ← List.length_append, List.takeWhile_append_dropWhile]
  generalize hblanks : (ms.takeWhile fun m => Text.isBlank m.char) = blanks at hlength ⊢
  cases blanks using List.reverseRecOn with
  | nil =>
    rw [List.length_nil, Nat.zero_add] at hlength
    rw [List.append_nil, hpre, hlength, beq_self_eq_true]
  | append_singleton blanks m =>
    have hmem : m ∈ ms.takeWhile fun m => Text.isBlank m.char := by simp [hblanks]
    have hblank : Text.isBlank m.char = true := List.all_eq_true.1 List.all_takeWhile m hmem
    rw [List.length_append, List.length_singleton] at hlength
    rw [← List.append_assoc, lastInWord_concat, isWordChar_of_isBlank hblank]
    symm
    rw [beq_eq_false_iff_ne]
    omega

theorem nameOffset_eq (h : Between s pre post) (hpre : lastInWord pre = true) :
    s.nameOffset (size pre) = .ok (s.offset (skipIfNotExists post)) := by
  have hstart := h.behind_blanks
  have hmatch := matchKeywords_eq hstart areKeywords_ifNotExists.plainly
  rw [lastInWord_blanks hpre] at hmatch
  rw [Scanned.nameOffset, skipWhitespace_eq h, ok_bind, hstart.offset_eq, hmatch, ok_bind,
    skipIfNotExists]
  cases hwords : matchKeywords ifNotExists ((skipBlanks post).length == post.length)
      (skipBlanks post) with
  | none => exact congrArg Except.ok hstart.offset_eq.symm
  | some after =>
    obtain ⟨keywords, hspan, -⟩ := exists_of_matchKeywords areKeywords_ifNotExists.ne_nil hwords
    rw [hspan] at hstart
    simp only [Option.map_some, hstart.shift.offset_eq, skipWhitespace_eq hstart.shift]

theorem lastInWord_keywords {keywords : List Marked} (h : Spelled words keywords)
    (hws : AreKeywords words) (pre : List Marked) : lastInWord (pre ++ keywords) = true := by
  induction h generalizing pre with
  | @last word ms h =>
    cases ms using List.reverseRecOn with
    | nil => exact absurd h.text.symm (hws.word_ne_nil word (List.mem_singleton_self word))
    | append_singleton ms m =>
      rw [← List.append_assoc, lastInWord_concat, ← isWordChar_toLower]
      refine hws.wordChars word (List.mem_singleton_self word) _ ?_
      rw [← h.text]
      exact List.mem_map_of_mem (by simp)
  | more _ _ _ ih =>
    rw [← List.append_assoc, ← List.append_assoc]
    exact ih hws.tail _

theorem offset_skipIfNotExists (h : Between s pre post) :
    ∃ front, Between s (pre ++ front) (skipIfNotExists post) := by
  have hstart := h.behind_blanks
  rw [skipIfNotExists]
  cases hwords : matchKeywords ifNotExists ((skipBlanks post).length == post.length)
      (skipBlanks post) with
  | none => exact ⟨_, hstart⟩
  | some after =>
    obtain ⟨keywords, hspan, -⟩ := exists_of_matchKeywords areKeywords_ifNotExists.ne_nil hwords
    rw [hspan] at hstart
    have hbehind := hstart.shift.behind_blanks
    rw [List.append_assoc, List.append_assoc] at hbehind
    exact ⟨_, hbehind⟩

theorem statements_agree (script : String) :
    Agrees (splitStatements script) (scanStatements script) :=
  (split_agrees (between_of script.toList) rfl).map _

theorem name_agrees (ddl : String) : Agrees (declaredName ddl) (scanName ddl) := by
  have h := between_of ddl.toList
  have hws := areKeywords_createTable
  rw [declaredName]
  cases hseek : seek createTable false (marked ddl.toList) with
  | error fault =>
    obtain ⟨offset, hsearch⟩ := search_eq_error h hws hseek
    rw [size_nil] at hsearch
    rw [scanName, hsearch]
    exact .slice ..
  | ok found =>
    have hsearch := search_eq_ok h hws hseek
    rw [size_nil] at hsearch
    cases found with
    | none =>
      rw [scanName, hsearch]
      exact .ok _
    | some f =>
      obtain ⟨hms, keywords, hstart, hkeywords, -⟩ := found_of_seek hws.ne_nil hseek
      have hafter : Between (.of ddl.toList) ([] ++ f.before ++ keywords) f.after := by
        rw [hms, hstart] at h
        exact h.shift.shift
      obtain ⟨front, hname⟩ := offset_skipIfNotExists hafter
      have hoffset := nameOffset_eq hafter
        (lastInWord_keywords hkeywords hws _)
      rw [← hafter.offset_eq, hname.offset_eq] at hoffset
      simp only [scanName, hsearch, Option.map_some, Scanned.places, ok_bind, hoffset,
        hname.slices_text]
      exact .ok _

theorem partition_agrees (ddl : String) : Agrees (stripPartition ddl) (scanPartition ddl) := by
  have h := between_of ddl.toList
  have hws := areKeywords_partitionBy
  rw [stripPartition]
  cases hseek : seek partitionBy false (marked ddl.toList) with
  | error fault =>
    obtain ⟨offset, hsearch⟩ := search_eq_error h hws hseek
    rw [size_nil] at hsearch
    rw [scanPartition, hsearch]
    exact .slice ..
  | ok found =>
    have hsearch := search_eq_ok h hws hseek
    rw [size_nil] at hsearch
    cases found with
    | none =>
      rw [scanPartition, hsearch]
      exact .ok _
    | some f =>
      obtain ⟨hms, -⟩ := found_of_seek hws.ne_nil hseek
      rw [hms] at h
      simp only [scanPartition, hsearch, Option.map_some, Scanned.places, ok_bind, h.shift.offset_eq,
        h.shift.slices_text]
      exact .ok _

end JpaScaffold.Ddl
