import JpaScaffold.Proofs.Ddl.Ends
import JpaScaffold.Table.Reading

/-!
# The partition clause of a statement

A statement is read up to its partition clause. What is cut off does not matter to the marks of what is
left, and no clause is found in that again, so the clause sets the flag of the table and nothing else.
-/
namespace JpaScaffold

namespace Ddl

variable {words : List (List Char)} {pre ms kept gap front : List Marked} {f : Found} {c : Char}
  {ddl sql : String}

/-! ## What is left -/

/-- A text is fresh that begins with a character of a kind without quotes, dashes, stars and slashes. -/
theorem fresh_cons {q : Char → Bool} (hnot : (['\'', '-', '*', '/'].all fun d => !q d) = true)
    (hq : q c = true) (cs : List Char) : Fresh (c :: cs) := by
  rintro _ ⟨⟩ hmem
  have hc := List.all_eq_true.1 hnot c hmem
  rw [hq] at hc
  cases hc

theorem fresh_of_isBlank (h : Text.isBlank c = true) (cs : List Char) : Fresh (c :: cs) :=
  fresh_cons (by decide) h cs

theorem fresh_of_isWordChar (h : isWordChar c = true) (cs : List Char) : Fresh (c :: cs) :=
  fresh_cons (by decide) h cs

/-- No place of the keywords stands in front of the first one, also if the blanks in front of that are
left out: a word that ended at them does not end otherwise. -/
theorem Place.IsFirst.isEmpty {p : Place words pre ms} (hfirst : p.IsFirst) (hws : AreKeywords words)
    (hfront : p.front = kept ++ gap) (hgap : ∀ m ∈ gap, isWordChar m.char = false) :
    IsEmpty (Place words pre kept) := by
  refine ⟨fun q => ?_⟩
  have hends : endsWord (q.behind ++ (gap ++ (p.keywords ++ p.behind))) = true := by
    cases hbehind : q.behind with
    | cons m behind =>
      have hq := q.ends
      rw [hbehind] at hq
      exact hq
    | nil =>
      cases gap with
      | cons m gap =>
        rw [List.nil_append, List.cons_append, endsWord, hgap m List.mem_cons_self]
        rfl
      | nil =>
        -- the word at the end of the keywords would go on at the first place
        have hkept : pre ++ p.front = pre ++ q.front ++ q.keywords := by
          rw [hfront, List.append_nil, List.append_assoc]
          refine congrArg (pre ++ ·) (q.text.trans ?_)
          rw [hbehind, List.append_nil]
        have hstarts := p.starts
        rw [hkept, lastInWord_keywords q.spelled hws] at hstarts
        cases hstarts
  have htext : ms = q.front ++ (q.keywords ++ (q.behind ++ (gap ++ (p.keywords ++ p.behind)))) := by
    refine p.text.trans ?_
    rw [hfront, List.append_assoc]
    refine (congrArg (· ++ (gap ++ (p.keywords ++ p.behind))) q.text).trans ?_
    simp only [List.append_assoc]
  have hle := hfirst ⟨q.front, q.keywords, _, htext, q.spelled, q.starts, hends⟩
  obtain ⟨m, keywords, hkeywords, -⟩ := q.spelled.head hws
  have hlength := congrArg List.length q.text
  rw [hfront] at hle
  rw [hkeywords] at hlength
  simp only [List.length_append, List.length_cons] at hle hlength
  omega

/-- In front of what was found a search finds nothing, also if blanks at the end are left out. -/
theorem seek_front (hws : AreKeywords words) (pre : List Marked)
    (hseek : seek words (lastInWord pre) ms = .ok (some f))
    (hbefore : f.before = kept ++ gap) (hgap : ∀ m ∈ gap, isWordChar m.char = false) :
    seek words (lastInWord pre) kept = .ok none := by
  obtain ⟨p, hfirst, hfront, -⟩ := place_of_seek hws pre hseek
  rw [hbefore] at hfront
  have hempty := hfirst.isEmpty hws hfront hgap
  have hsearched : ∀ m, Searched words pre kept m → Searched words pre ms m := by
    rintro m ⟨front, rest, hkept, -⟩
    refine ⟨front, rest ++ (gap ++ (p.keywords ++ p.behind)), ?_, fun q => ?_⟩
    · refine p.text.trans ?_
      rw [hfront, hkept]
      simp
    · refine le_trans ?_ (hfirst q)
      rw [hfront, hkept]
      simp only [List.length_append]
      omega
  have hreturns := (seek_returns_iff hws pre ms).1 ⟨_, hseek⟩
  obtain ⟨found, hfound⟩ :=
    (seek_returns_iff hws pre kept).2 fun m hm => hreturns m (hsearched m hm)
  cases found with
  | none => exact hfound
  | some g =>
    obtain ⟨q, -⟩ := place_of_seek hws pre hfound
    exact hempty.elim q

theorem exists_trimEnd (ms : List Marked) : ∃ kept gap, ms = kept ++ gap ∧
    unmark kept = Text.trimEnd (unmark ms) ∧ ∀ m ∈ gap, Text.isBlank m.char = true := by
  have hsplit := Text.dropEndWhile_append_suffix Text.isBlank (unmark ms)
  obtain ⟨kept, gap, rfl, hkept, hgap⟩ := List.map_eq_append_iff.1 hsplit.symm
  refine ⟨kept, gap, rfl, hkept, fun m hm => ?_⟩
  have hmem : m.char ∈ ((unmark (kept ++ gap)).reverse.takeWhile Text.isBlank).reverse := by
    rw [← hgap]
    exact List.mem_map_of_mem hm
  exact List.all_eq_true.1 List.all_takeWhile _ (List.mem_reverse.1 hmem)

/-- What stands in front of a place, without the blanks there, has the marks that it has in the text. -/
theorem marked_of_place {cs : List Char} (p : Place words [] (marked cs)) (hws : AreKeywords words)
    (hfront : p.front = kept ++ gap) (hgap : ∀ m ∈ gap, Text.isBlank m.char = true) :
    marked (unmark kept) = kept := by
  have htext : marked cs = kept ++ (gap ++ (p.keywords ++ p.behind)) := by
    refine p.text.trans ?_
    rw [hfront, List.append_assoc]
  have hfresh : Fresh (unmark (gap ++ (p.keywords ++ p.behind))) := by
    cases gap with
    | cons m gap => exact fresh_of_isBlank (hgap m List.mem_cons_self) _
    | nil =>
      obtain ⟨m, keywords, hkeywords, hm⟩ := p.spelled.head hws
      rw [hkeywords]
      exact fresh_of_isWordChar hm _
  exact mark_eq_of_fresh htext hfresh

/-! ## Cutting -/

/-- Code spells the words behind the front part of a text, as whole words. -/
def StandsBehind (words : List (List Char)) (ms front : List Marked) : Prop :=
  ∃ back after, ms = front ++ back ∧ matchKeywords words (lastInWord front) back = some after

theorem standsBehind_iff (hws : AreKeywords words) :
    StandsBehind words ms front ↔ ∃ p : Place words [] ms, p.front = front := by
  constructor
  · rintro ⟨back, after, rfl, hmatch⟩
    obtain ⟨p, hfront, -⟩ := Place.exists_of_matchKeywords hws hmatch
    exact ⟨Place.shift [] front p, by rw [Place.shift_front, hfront, List.append_nil]⟩
  · rintro ⟨p, rfl⟩
    exact ⟨_, _, p.text, p.here.matchKeywords_eq hws rfl⟩

theorem stripPartition_eq_false (h : stripPartition ddl = .ok (sql, false)) :
    sql = ddl ∧ ∀ front, ¬StandsBehind partitionBy (marked ddl.toList) front := by
  obtain ⟨found, hseek, hfound⟩ := map_eq_ok.1 h
  cases found with
  | some f => cases hfound
  | none =>
    cases hfound
    have hnone : IsEmpty (Place partitionBy [] (marked ddl.toList)) :=
      place_of_seek areKeywords_partitionBy [] hseek
    refine ⟨rfl, fun front hstands => ?_⟩
    obtain ⟨p, -⟩ := (standsBehind_iff areKeywords_partitionBy).1 hstands
    exact hnone.elim p

/-- The statement is cut at its first clause, and the rest has none. -/
theorem stripPartition_eq_true (h : stripPartition ddl = .ok (sql, true)) :
    (∃ front, StandsBehind partitionBy (marked ddl.toList) front ∧
      (∀ front', StandsBehind partitionBy (marked ddl.toList) front' →
        front.length ≤ front'.length) ∧
      sql = String.ofList (Text.trimEnd (unmark front))) ∧
    stripPartition sql = .ok (sql, false) := by
  have hws := areKeywords_partitionBy
  obtain ⟨found, hseek, hfound⟩ := map_eq_ok.1 h
  cases found with
  | none => cases hfound
  | some f =>
    cases hfound
    obtain ⟨p, hfirst, hfront, -⟩ := place_of_seek hws [] hseek
    refine ⟨⟨f.before, (standsBehind_iff hws).2 ⟨p, hfront⟩, ?_, rfl⟩, ?_⟩
    · intro front' hstands
      obtain ⟨q, rfl⟩ := (standsBehind_iff hws).1 hstands
      rw [← hfront]
      exact hfirst q
    · obtain ⟨kept, gap, hbefore, hkept, hgap⟩ := exists_trimEnd f.before
      have hmarked := marked_of_place p hws (hfront.trans hbefore) hgap
      have hnone : seek partitionBy false kept = .ok none :=
        seek_front hws [] hseek hbefore fun m hm => isWordChar_of_isBlank (hgap m hm)
      rw [← hkept, stripPartition, String.toList_ofList, hmarked, hnone]
      rfl

end Ddl

namespace Table

variable {c : Config} {ddl sql : String} {clause : Bool}

theorem ofSql_eq (c : Config) (clause : Bool) (sql : String) :
    ofSql c clause sql = (ofSql c false sql).map fun t => { t with partitionClause := clause } := by
  unfold ofSql
  cases Sql.parseStatements sql with
  | none => rfl
  | some statements =>
    cases statements with
    | nil => rfl
    | cons statement more =>
      cases statement with
      | other => rfl
      | createTable s => rfl

theorem partitionClause_of_ofSql {t : Table} (h : ofSql c clause sql = .ok t) :
    t.partitionClause = clause := by
  rw [ofSql_eq] at h
  obtain ⟨t', -, rfl⟩ := map_eq_ok.1 h
  rfl

theorem read_of_stripPartition (h : Ddl.stripPartition ddl = .ok (sql, clause)) :
    read c ddl = .ok (ofSql c clause sql) := by
  unfold read
  rw [h]
  rfl

end Table

end JpaScaffold
