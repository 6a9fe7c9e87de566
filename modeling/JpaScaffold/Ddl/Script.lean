import JpaScaffold.Ddl.Keywords

/-!
The CREATE TABLE statements of a script, read without parsing them: where they start and end, the
name that they declare, and the partition clause at their end.
-/
namespace JpaScaffold.Ddl

def createTable : List (List Char) := ["create".toList, "table".toList]

def ifNotExists : List (List Char) := ["if".toList, "not".toList, "exists".toList]

def partitionBy : List (List Char) := ["partition".toList, "by".toList]

/-- A semicolon that is code. -/
def Marked.isSemicolon (m : Marked) : Bool := m.isCode && m.char == ';'

theorem dropWord_length {word : List Char} {ms rest : List Marked}
    (h : dropWord word ms = some rest) : rest.length ≤ ms.length := by
  fun_induction dropWord word ms with
  | case1 => simp_all
  | case2 => simp at h
  | case3 _ _ _ _ _ ih => exact Nat.le_succ_of_le (ih h)
  | case4 => simp at h

theorem dropBlanks_length {ms rest : List Marked} (h : dropBlanks ms = some rest) :
    rest.length ≤ ms.length := by
  unfold dropBlanks at h
  split at h
  · simp at h
  · split at h
    · simp only [Option.some.injEq] at h
      rw [← h]
      exact Nat.le_succ_of_le (List.dropWhile_sublist _).length_le
    · simp at h

theorem dropWords_length {words : List (List Char)} {ms rest : List Marked}
    (h : dropWords words ms = some rest) : rest.length ≤ ms.length := by
  induction words generalizing ms with
  | nil => simp_all [dropWords]
  | cons word more ih =>
    cases more with
    | nil => exact dropWord_length h
    | cons w more =>
      simp only [dropWords, Option.bind_eq_some_iff] at h
      obtain ⟨a, ⟨b, hb, ha⟩, hr⟩ := h
      have h1 := ih hr
      have h2 := dropBlanks_length ha
      have h3 := dropWord_length hb
      omega

theorem matchKeywords_length {words : List (List Char)} {inWord : Bool} {ms rest : List Marked}
    (h : matchKeywords words inWord ms = some rest) : rest.length ≤ ms.length := by
  unfold matchKeywords at h
  split at h
  · simp at h
  · exact dropWords_length (Option.filter_eq_some_iff.1 h).1

theorem seek_after_length {words : List (List Char)} {inWord : Bool} {ms : List Marked} {f : Found}
    (h : seek words inWord ms = .ok (some f)) : f.after.length ≤ ms.length := by
  induction ms generalizing inWord f with
  | nil => simp [seek] at h
  | cons m ms ih =>
    rw [seek] at h
    split at h
    · next after ha =>
      cases h
      split at ha
      · exact matchKeywords_length ha
      · cases ha
    · split at h
      · cases h
      · cases hs : seek words (isWordChar m.char) ms with
        | error e => rw [hs] at h; cases h
        | ok o =>
          cases o with
          | none => rw [hs] at h; cases h
          | some g =>
            have hle := ih hs
            rw [hs] at h
            cases h
            exact Nat.le_succ_of_le hle

/-- The statements of a marked text. A statement ends with the first semicolon behind its keywords;
one without a semicolon is not returned. -/
def splitMarked (ms : List Marked) : Except ScanFault (List (List Char)) :=
  match h : seek createTable false ms with
  | .error e => .error e
  | .ok none => .ok []
  | .ok (some f) =>
    match hr : f.after.dropWhile (!·.isSemicolon) with
    | [] => .ok []
    | _ :: rest =>
      have : rest.length < ms.length := by
        have h1 := seek_after_length h
        have h2 := (List.dropWhile_sublist (fun m : Marked => !m.isSemicolon)
          (l := f.after)).length_le
        rw [hr, List.length_cons] at h2
        omega
      (splitMarked rest).map (unmark (f.start.take (f.start.length - rest.length)) :: ·)
termination_by ms.length

/-- Every CREATE TABLE statement of a script, from its keywords to its semicolon. -/
def splitStatements (script : String) : Except ScanFault (List String) :=
  (splitMarked (marked script.toList)).map (·.map String.ofList)

def skipBlanks (ms : List Marked) : List Marked := ms.dropWhile fun m => Text.isBlank m.char

/-- The part of a name behind its last point, without the quotes around it. -/
def bareName (cs : List Char) : List Char :=
  let last := (cs.splitOnP (· == '.')).getLast?.getD []
  Text.dropEndWhile (· == '"') (last.dropWhile (· == '"'))

/-- The name written in front of a text: it ends before a blank, a parenthesis or a semicolon. -/
def writtenName (ms : List Marked) : List Char :=
  (unmark ms).takeWhile fun c => !Text.isBlank c && c != '(' && c != ';'

/-- The text behind `IF NOT EXISTS`, or the text itself where these words do not stand in front. -/
def skipIfNotExists (ms : List Marked) : List Marked :=
  let start := skipBlanks ms
  match matchKeywords ifNotExists (start.length == ms.length) start with
  | some after => skipBlanks after
  | none => start

/-- The table name behind the first CREATE TABLE, without schema and quotes. -/
def declaredName (ddl : String) : Except ScanFault (Option String) :=
  (seek createTable false (marked ddl.toList)).map fun found =>
    found.bind fun f =>
      let name := bareName (writtenName (skipIfNotExists f.after))
      if name.isEmpty then none else some (String.ofList name)

/-- The statement cut before its first PARTITION BY, and whether there was one. -/
def stripPartition (ddl : String) : Except ScanFault (String × Bool) :=
  (seek partitionBy false (marked ddl.toList)).map fun
    | some f => (String.ofList (Text.trimEnd (unmark f.before)), true)
    | none => (ddl, false)

end JpaScaffold.Ddl
