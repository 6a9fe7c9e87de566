import JpaScaffold.Proofs.Ddl.Ends

/-!
# Statements inside of a script and alone

A script that ends with a semicolon of code is split by itself, and so is what follows it. A statement
alone is marked and split as it is inside of its script.
-/
namespace JpaScaffold.Ddl

open Text (asciiByte isForeign utf8)

variable {r : Region} {c : Char} {cs : List Char} {ms ns before rest : List Marked} {m : Marked}
  {inWord : Bool} {f : Found}

/-! ## Statements -/

/-- The steps of a split, without the proof that they end. -/
theorem splitMarked_eq (ms : List Marked) : splitMarked ms =
    (seek createTable false ms).bind fun
      | none => .ok []
      | some f =>
        match f.after.dropWhile (!·.isSemicolon) with
        | [] => .ok []
        | _ :: rest =>
          (splitMarked rest).map (unmark (f.start.take (f.start.length - rest.length)) :: ·) := by
  conv_lhs => rw [splitMarked]
  split
  · next h =>
    rw [h]
    rfl
  · next h =>
    rw [h]
    rfl
  · next f h =>
    conv_rhs => rw [h]
    dsimp only [Except.bind]
    split
    · next hlast => rw [hlast]
    · next hlast => rw [hlast]

theorem splitMarked_of_seek {semicolon : Marked} {statement : List Marked}
    (hseek : seek createTable false ms = .ok (some f))
    (hlast : f.after.dropWhile (!·.isSemicolon) = semicolon :: rest)
    (hstatement : f.start = statement ++ rest) :
    splitMarked ms = (splitMarked rest).map (unmark statement :: ·) := by
  rw [splitMarked_eq, hseek]
  simp only [Except.bind, hlast]
  rw [hstatement, List.length_append, Nat.add_sub_cancel, List.take_left]

/-- A text that ends with a semicolon of code is split by itself, and so is what follows it. -/
theorem splitMarked_append (h : ms = [] ∨ Ended ms) (ns : List Marked) :
    splitMarked (ms ++ ns) =
      (splitMarked ms).bind fun front => (splitMarked ns).map (front ++ ·) := by
  have hws := areKeywords_createTable
  have hnil : splitMarked ns = (Except.ok []).bind fun front => (splitMarked ns).map (front ++ ·) := by
    cases splitMarked ns <;> rfl
  fun_induction splitMarked ms with
  | case1 ms fault hseek =>
    rcases h with rfl | h
    · cases hseek
    rw [splitMarked_eq, seek_append h hws, hseek]
    rfl
  | case2 ms hseek =>
    rw [← hnil]
    rcases h with rfl | h
    · rfl
    -- What stands before a place that is found does not matter to the statements from there on.
    rw [splitMarked_eq, seek_append h hws, hseek, splitMarked_eq ns]
    cases seek createTable false ns with
    | error fault => rfl
    | ok found => cases found <;> rfl
  | case3 ms f hseek hlast =>
    rcases h with rfl | h
    · cases hseek
    obtain ⟨semicolon, rest, hcons, -⟩ := (h.behind hws hseek).dropWhile
    rw [hlast] at hcons
    cases hcons
  | case4 ms f hseek semicolon rest hlast hlt ih =>
    rcases h with rfl | h
    · cases hseek
    obtain ⟨_, _, hcons, hrest⟩ := (h.behind hws hseek).dropWhile
    rw [hlast, List.cons.injEq] at hcons
    rw [← hcons.2] at hrest
    obtain ⟨keywords, body, hstart, -⟩ := statement_of_seek hseek hlast
    have hlonger : seek createTable false (ms ++ ns) =
        .ok (some ⟨f.before, f.start ++ ns, f.after ++ ns⟩) := by
      rw [seek_append h hws, hseek]
      rfl
    have hstart' : f.start ++ ns = keywords ++ (body ++ [semicolon]) ++ (rest ++ ns) := by
      rw [hstart, List.append_assoc]
    rw [splitMarked_of_seek hlonger (dropWhile_append_of_cons hlast ns) hstart', ih hrest, hstart,
      List.length_append, Nat.add_sub_cancel, List.take_left]
    cases splitMarked rest with
    | error fault => rfl
    | ok more => cases splitMarked ns <;> rfl

/-! ## A statement alone -/

/-- The text is one statement: keywords, and what follows them up to the first semicolon. -/
def IsAlone (ms : List Marked) : Prop :=
  ∃ keywords body, ms = keywords ++ (body ++ [⟨';', true⟩]) ∧ Spelled createTable keywords ∧
    endsWord (body ++ [⟨';', true⟩]) = true ∧ ∀ b ∈ body, b.isSemicolon = false

theorem IsAlone.ended (h : IsAlone ms) : Ended ms := by
  obtain ⟨keywords, body, rfl, -⟩ := h
  rw [Ended, ← List.append_assoc, List.getLast?_concat]

theorem IsAlone.splitMarked_eq (h : IsAlone ms) : splitMarked ms = .ok [unmark ms] := by
  obtain ⟨keywords, body, hms, hspelled, hends, hbody⟩ := h
  have hmatch := (matchKeywords_iff areKeywords_createTable).2 ⟨keywords, hms, hspelled, hends⟩
  have hseek : seek createTable false ms = .ok (some ⟨[], ms, body ++ [⟨';', true⟩]⟩) := by
    obtain ⟨m, keywords', hkeywords, -⟩ := hspelled.head areKeywords_createTable
    have hcode := hspelled.code m (by rw [hkeywords]; exact List.mem_cons_self)
    rw [hms, hkeywords, List.cons_append] at hmatch ⊢
    rw [seek, if_pos hcode, hmatch]
  rw [splitMarked_of_seek hseek (dropWhile_semicolon hbody rfl) (List.append_nil ms).symm,
    Ddl.splitMarked_eq]
  rfl

theorem isAlone_of_seek {semicolon : Marked} (hseek : seek createTable inWord ms = .ok (some f))
    (hlast : f.after.dropWhile (!·.isSemicolon) = semicolon :: rest) :
    ∃ statement, f.start = statement ++ rest ∧ IsAlone statement := by
  obtain ⟨-, keywords, hstart, hspelled, hends⟩ := found_of_seek areKeywords_createTable.ne_nil hseek
  obtain ⟨body, hafter, hbody, hsemicolon⟩ := exists_body hlast
  rw [eq_of_isSemicolon hsemicolon, List.append_cons] at hafter
  refine ⟨keywords ++ (body ++ [⟨';', true⟩]), ?_, keywords, body, rfl, hspelled, ?_, hbody⟩
  · rw [List.append_assoc, ← hafter, hstart]
  · rw [← endsWord_append (List.concat_ne_nil _ _) rest, ← hafter, hends]

theorem marked_of_isAlone {statement : List Marked} (h : IsAlone statement)
    (hmark : mark r cs = before ++ (statement ++ rest)) : marked (unmark statement) = statement := by
  have hend := h.ended
  obtain ⟨keywords, body, hstatement, hspelled, -⟩ := h
  obtain ⟨m, keywords', rfl, hword⟩ := hspelled.head areKeywords_createTable
  have hcode := hspelled.code m List.mem_cons_self
  have hfeed : m.char ≠ '\n' := by
    intro hm
    rw [hm] at hword
    cases hword
  have hsuffix : mark .code (unmark statement ++ unmark rest) = statement ++ rest := by
    rw [hstatement] at hmark ⊢
    have hmark' := mark_of_suffix hmark hcode hfeed
    simpa [unmark] using hmark'
  exact mark_eq_of_append hsuffix rfl hend

theorem exists_of_mem_splitMarked {pre : List Marked} {statements : List (List Char)}
    (h : splitMarked ms = .ok statements) (hms : mark r cs = pre ++ ms) :
    ∀ s ∈ statements, splitMarked (marked s) = .ok [s] ∧
      ∃ before after, mark r cs = before ++ (marked s ++ after) := by
  fun_induction splitMarked ms generalizing statements pre with
  | case1 => cases h
  | case2 | case3 =>
    cases h
    exact List.forall_mem_nil _
  | case4 ms f hseek semicolon rest hlast hlt ih =>
    obtain ⟨statement, hstart, halone⟩ := isAlone_of_seek hseek hlast
    obtain ⟨hfound, -⟩ := found_of_seek areKeywords_createTable.ne_nil hseek
    rw [hfound, hstart, ← List.append_assoc] at hms
    have hmarked := marked_of_isAlone halone hms
    obtain ⟨more, hmore, rfl⟩ := map_eq_ok.1 h
    have htake : f.start.take (f.start.length - rest.length) = statement := by
      rw [hstart, List.length_append, Nat.add_sub_cancel, List.take_left]
    rw [htake]
    refine List.forall_mem_cons.2 ⟨?_, @ih (pre ++ f.before ++ statement) _ hmore ?_⟩
    · rw [hmarked]
      exact ⟨halone.splitMarked_eq, _, _, hms⟩
    · rw [hms, List.append_assoc (pre ++ f.before)]

/-! ## Scripts -/

/-- The script is empty, or its last byte is a semicolon that the mask of its bytes marks as code. -/
def EndsStatement (script : String) : Prop :=
  script = "" ∨ (utf8 script.toList).getLast? = some (asciiByte ';') ∧
    (codeMask (utf8 script.toList)).getLast? = some true

theorem eq_of_getLast?_utf8 {d : Char} (hd : isForeign d = false)
    (h : (utf8 (cs ++ [c])).getLast? = some (asciiByte d)) : c = d := by
  rw [Text.utf8_append, Text.utf8_cons, Text.utf8_nil, List.append_nil, List.getLast?_append_of_ne_nil] at h
  · cases hc : isForeign c with
    | false =>
      rw [Text.utf8EncodeChar_ascii hc] at h
      exact (asciiByte_inj hc hd).1 (Option.some.inj h)
    | true =>
      have hbyte := Text.ascii_lt_of_mem hc (List.mem_of_getLast? h)
      rw [UInt8.le_iff_toNat_le, Text.toNat_asciiByte hd] at hbyte
      rw [Text.isForeign_iff.2 hbyte] at hd
      cases hd
  · apply List.ne_nil_of_length_pos
    rw [String.length_utf8EncodeChar]
    exact c.utf8Size_pos

theorem getLast?_byteMarks (m : Marked) : m.byteMarks.getLast? = some m.isCode := by
  rw [Marked.byteMarks, List.getLast?_replicate, if_neg m.char.utf8Size_pos.ne']

/-- The last byte of a script is a semicolon of code exactly if its last character is one. -/
theorem EndsStatement.marked {script : String} (h : EndsStatement script) :
    marked script.toList = [] ∨ Ended (marked script.toList) := by
  rcases h with rfl | ⟨hbyte, hmask⟩
  · exact .inl (mark_nil _)
  right
  rcases List.eq_nil_or_concat (Ddl.marked script.toList) with hnil | ⟨front, m, hmarked⟩
  · rw [← unmark_marked script.toList, hnil] at hbyte
    cases hbyte
  · have hchar : m.char = ';' := by
      rw [← unmark_marked script.toList, hmarked, List.concat_eq_append, unmark, List.map_append] at hbyte
      exact eq_of_getLast?_utf8 rfl hbyte
    have hcode : m.isCode = true := by
      rw [codeMask, byteMask_utf8] at hmask
      change ((Ddl.marked script.toList).flatMap _).getLast? = _ at hmask
      have hbytes := getLast?_byteMarks m
      rw [hmarked, List.concat_eq_append, List.flatMap_append, List.flatMap_singleton,
        List.getLast?_append, hbytes] at hmask
      exact Option.some.inj hmask
    rw [Ended, hmarked, List.concat_eq_append, List.getLast?_concat, Option.some.injEq, Marked.mk.injEq]
    exact ⟨hchar, hcode⟩

/-- Splitting a script behind a semicolon of code splits its statements, and each of them is marked and
split alone as it is in the script. -/
theorem split_statement_by_statement :
    (∀ a b : String, EndsStatement a →
      splitStatements (a ++ b) =
        (splitStatements a).bind fun front => (splitStatements b).map (front ++ ·)) ∧
    ∀ (script : String) (statements : List String), splitStatements script = .ok statements →
      ∀ s ∈ statements, splitStatements s = .ok [s] ∧
        ∃ before after, marked script.toList = before ++ (marked s.toList ++ after) := by
  constructor
  · intro a b ha
    have hmarks : marked (a ++ b).toList = marked a.toList ++ marked b.toList := by
      rw [String.toList_append]
      rcases ha.marked with hnil | hend
      · rw [hnil, ← unmark_marked a.toList, hnil]
        rfl
      · exact mark_append hend _
    rw [splitStatements, hmarks, splitMarked_append ha.marked, splitStatements, splitStatements]
    cases splitMarked (marked a.toList) with
    | error fault => rfl
    | ok front =>
      cases splitMarked (marked b.toList) with
      | error fault => rfl
      | ok back => simp [Except.bind, Except.map]
  · intro script statements h s hs
    obtain ⟨texts, htexts, rfl⟩ := map_eq_ok.1 h
    obtain ⟨text, htext, rfl⟩ := List.mem_map.1 hs
    obtain ⟨hsplit, before, after, hmarks⟩ := @exists_of_mem_splitMarked _ _ _ [] _ htexts rfl text htext
    rw [splitStatements, String.toList_ofList, hsplit]
    exact ⟨rfl, before, after, hmarks⟩

theorem split_statement_by_statement_of_quotes :
    EndsStatement "create table a (x text default ';');" ∧
      splitStatements ("create table a (x text default ';');" ++
        "-- create table c;\nCREATE  TABLE \"b;\" (y int); create table d") =
        .ok ["create table a (x text default ';');", "CREATE  TABLE \"b;\" (y int);"] ∧
      splitStatements "CREATE  TABLE \"b;\" (y int);" = .ok ["CREATE  TABLE \"b;\" (y int);"] := by
  have hend : EndsStatement "create table a (x text default ';');" := by
    right
    decide +kernel
  have hfront : splitStatements "create table a (x text default ';');" =
      .ok ["create table a (x text default ';');"] := by decide +kernel
  have hback : splitStatements "-- create table c;\nCREATE  TABLE \"b;\" (y int); create table d" =
      .ok ["CREATE  TABLE \"b;\" (y int);"] := by decide +kernel
  refine ⟨hend, ?_, (split_statement_by_statement.2 _ _ hback _ List.mem_cons_self).1⟩
  rw [split_statement_by_statement.1 _ _ hend, hfront, hback]
  rfl

end JpaScaffold.Ddl
