import JpaScaffold.Proofs.Ddl.Statements

/-!
# Where the statements of a script stand

A split cuts statements out of a script: each of them begins at a place of the keywords in code and
ends with the first semicolon of code behind it. The cuts follow each other and do not overlap, and a
place of the keywords with a semicolon of code behind it stands in exactly one of them: the place
where it begins, or another one inside of it.
-/
namespace JpaScaffold.Ddl

variable {pre ms : List Marked} {n : Nat}

/-- A part of a text, the text in front of it, and the text behind it. -/
structure Extent where
  front : List Marked
  part : List Marked
  behind : List Marked

namespace Extent

def start (x : Extent) : Nat := x.front.length

def stop (x : Extent) : Nat := x.front.length + x.part.length

/-- The position is one of the part. -/
def holds (x : Extent) (n : Nat) : Bool := x.start ≤ n && n < x.stop

/-- The characters of the part. -/
def text (x : Extent) : String := String.ofList (unmark x.part)

/-- The part is a statement in its text: the keywords stand where it begins, and it ends with the
first semicolon of code behind them. -/
structure IsStatementOf (x : Extent) (ms : List Marked) : Prop where
  text : ms = x.front ++ (x.part ++ x.behind)
  statement : ∃ body semicolon,
    matchKeywords createTable (lastInWord x.front) (x.part ++ x.behind) =
        some (body ++ semicolon :: x.behind) ∧
      (∀ b ∈ body, b.isSemicolon = false) ∧ semicolon.isSemicolon = true

/-- The parts follow each other and do not overlap. -/
def Ordered (xs : List Extent) : Prop := xs.Pairwise fun x y => x.stop ≤ y.start

theorem holds_iff {x : Extent} : x.holds n = true ↔ x.start ≤ n ∧ n < x.stop := by
  simp [holds]

/-- Of parts that do not overlap only one holds a position. -/
theorem filter_holds {xs : List Extent} (hordered : Ordered xs) {x : Extent} (hx : x ∈ xs)
    (hn : x.holds n = true) : xs.filter (·.holds n) = [x] := by
  induction xs with
  | nil => cases hx
  | cons y xs ih =>
    obtain ⟨hy, hordered⟩ := List.pairwise_cons.1 hordered
    obtain ⟨hstart, hstop⟩ := holds_iff.1 hn
    rcases List.mem_cons.1 hx with rfl | hx
    · have hnone : xs.filter (·.holds n) = [] := by
        refine List.filter_eq_nil_iff.2 fun z hz hholds => ?_
        have hafter := hy z hz
        have hbefore := (holds_iff.1 hholds).1
        omega
      rw [List.filter_cons, if_pos hn, hnone]
    · have hnot : ¬y.holds n = true := by
        intro hholds
        have hafter := hy x hx
        have hbefore := (holds_iff.1 hholds).2
        omega
      rw [List.filter_cons, if_neg hnot, ih hordered hx]

end Extent

namespace Place

variable {words : List (List Char)}

theorem text_cut {body rest : List Marked} {semicolon : Marked} (p : Place words pre ms)
    (hbehind : p.behind = body ++ semicolon :: rest) :
    ms = p.front ++ (p.keywords ++ (body ++ [semicolon])) ++ rest := by
  refine p.text.trans ?_
  rw [hbehind]
  simp

theorem exists_behind {part rest : List Marked} (p : Place words pre ms) (h : ms = part ++ rest)
    (hle : part.length ≤ p.front.length) : ∃ q : Place words (pre ++ part) rest,
      p.front = part ++ q.front ∧ q.behind = p.behind := by
  have htext : part ++ rest = p.front ++ (p.keywords ++ p.behind) := h.symm.trans p.text
  have hprefix : p.front <+: part ++ rest := by
    rw [htext]
    exact List.prefix_append ..
  obtain ⟨more, hfront⟩ := List.prefix_of_prefix_length_le (List.prefix_append part rest) hprefix hle
  have hstarts := p.starts
  rw [← hfront, List.append_assoc] at htext
  rw [← hfront, ← List.append_assoc] at hstarts
  exact ⟨⟨more, p.keywords, p.behind, List.append_cancel_left htext, p.spelled, hstarts, p.ends⟩,
    hfront.symm, rfl⟩

/-- What stands behind a later place stands behind the first one, if it is no part of the keywords
there. -/
theorem IsFirst.mem_behind {p : Place words pre ms} (hp : p.IsFirst) (hws : AreKeywords words)
    (q : Place words pre ms) {m : Marked} (hm : m ∈ q.behind) (hsemicolon : m.isSemicolon = true) :
    m ∈ p.behind := by
  obtain ⟨q', -, hbehind⟩ := q.exists_behind p.text (hp q)
  have hmem : m ∈ p.keywords ++ p.behind := by
    rw [q'.text, hbehind]
    exact List.mem_append_right _ (List.mem_append_right _ hm)
  rcases List.mem_append.1 hmem with hmem | hmem
  · rw [eq_of_isSemicolon hsemicolon] at hmem
    exact absurd rfl (p.spelled.ne_semicolon hws _ hmem)
  · exact hmem

end Place

/-! ## Cutting -/

/-- The statements that are cut out of the text behind `pre`, one after the other: each begins at the
first place that is left. Where no place is left with a semicolon behind it, there are no more. -/
inductive Cuts : List Marked → List Marked → List Extent → Prop
  | done {pre ms : List Marked}
    (h : ∀ p : Place createTable pre ms, ∀ m ∈ p.behind, m.isSemicolon = false) : Cuts pre ms []
  | cut {pre ms body rest : List Marked} {semicolon : Marked} {xs : List Extent}
    (p : Place createTable pre ms) (hfirst : p.IsFirst) (hbehind : p.behind = body ++ semicolon :: rest)
    (hbody : ∀ b ∈ body, b.isSemicolon = false) (hsemicolon : semicolon.isSemicolon = true)
    (h : Cuts (pre ++ (p.front ++ (p.keywords ++ (body ++ [semicolon])))) rest xs) :
    Cuts pre ms (⟨pre ++ p.front, p.keywords ++ (body ++ [semicolon]), rest⟩ :: xs)

namespace Cuts

variable {xs : List Extent}

theorem isStatementOf (h : Cuts pre ms xs) : ∀ x ∈ xs, x.IsStatementOf (pre ++ ms) := by
  induction h with
  | done => exact List.forall_mem_nil _
  | @cut pre ms body rest semicolon xs p hfirst hbehind hbody hsemicolon _ ih =>
    have htext : pre ++ ms =
        pre ++ (p.front ++ (p.keywords ++ (body ++ [semicolon]))) ++ rest := by
      rw [List.append_assoc]
      exact congrArg (pre ++ ·) (p.text_cut hbehind)
    refine List.forall_mem_cons.2 ⟨⟨?_, body, semicolon, ?_, hbody, hsemicolon⟩, ?_⟩
    · rw [htext]
      simp
    · have hpart : p.keywords ++ (body ++ [semicolon]) ++ rest = p.keywords ++ p.behind := by
        rw [hbehind]
        simp
      rw [hpart, ← hbehind]
      exact p.here.matchKeywords_eq areKeywords_createTable rfl
    · rw [htext]
      exact ih

theorem length_le_start (h : Cuts pre ms xs) : ∀ x ∈ xs, pre.length ≤ x.start := by
  induction h with
  | done => exact List.forall_mem_nil _
  | cut p _ _ _ _ _ ih =>
    refine List.forall_mem_cons.2 ⟨?_, fun x hx => ?_⟩
    · simp [Extent.start]
    · have hle := ih x hx
      simp only [List.length_append] at hle
      omega

theorem ordered (h : Cuts pre ms xs) : Extent.Ordered xs := by
  induction h with
  | done => exact List.Pairwise.nil
  | cut p _ _ _ _ h ih =>
    refine List.pairwise_cons.2 ⟨fun x hx => ?_, ih⟩
    have hle := h.length_le_start x hx
    simp only [List.length_append] at hle
    simp only [Extent.stop, List.length_append]
    omega

/-- A place with a semicolon behind it stands in a statement. A place that is not in the first one
stands behind it. -/
theorem covers (h : Cuts pre ms xs) (p : Place createTable pre ms)
    (hp : ∃ m ∈ p.behind, m.isSemicolon = true) :
    ∃ x ∈ xs, x.holds (pre ++ p.front).length = true := by
  induction h with
  | done hnone =>
    obtain ⟨m, hm, hsemicolon⟩ := hp
    rw [hnone p m hm] at hsemicolon
    cases hsemicolon
  | @cut pre ms body rest semicolon xs p₀ hfirst hbehind _ _ _ ih =>
    by_cases hlt : p.front.length < (p₀.front ++ (p₀.keywords ++ (body ++ [semicolon]))).length
    · refine ⟨_, List.mem_cons_self, Extent.holds_iff.2 ⟨?_, ?_⟩⟩
      · have hle := hfirst p
        simp only [Extent.start, List.length_append]
        omega
      · simp only [List.length_append] at hlt
        simp only [Extent.stop, List.length_append]
        omega
    · obtain ⟨q, hfront, hqbehind⟩ :=
        p.exists_behind (p₀.text_cut hbehind) (Nat.le_of_not_lt hlt)
      rw [← hqbehind] at hp
      obtain ⟨x, hx, hholds⟩ := ih q hp
      refine ⟨x, List.mem_cons_of_mem _ hx, ?_⟩
      rwa [hfront, ← List.append_assoc]

end Cuts

/-- A split cuts its statements out of the text. -/
theorem exists_cuts {statements : List (List Char)} (pre : List Marked)
    (hpre : lastInWord pre = false) (h : splitMarked ms = .ok statements) :
    ∃ xs, Cuts pre ms xs ∧ statements = xs.map fun x => unmark x.part := by
  have hws := areKeywords_createTable
  fun_induction splitMarked ms generalizing pre statements with
  | case1 => cases h
  | case2 ms hseek =>
    cases h
    rw [← hpre] at hseek
    have hnone : IsEmpty (Place createTable pre ms) := place_of_seek hws pre hseek
    exact ⟨[], .done fun p => hnone.elim p, rfl⟩
  | case3 ms f hseek hlast =>
    cases h
    rw [← hpre] at hseek
    obtain ⟨p, hfirst, -, hbehind⟩ := place_of_seek hws pre hseek
    refine ⟨[], .done fun q m hm => eq_false_of_ne_true fun hsemicolon => ?_, rfl⟩
    have hmem := hfirst.mem_behind hws q hm hsemicolon
    rw [hbehind] at hmem
    have hnot := List.dropWhile_eq_nil_iff.1 hlast m hmem
    rw [hsemicolon] at hnot
    cases hnot
  | case4 ms f hseek semicolon rest hlast hlt ih =>
    -- the scan goes on behind a semicolon, where no word goes on
    obtain ⟨hfound, -⟩ := found_of_seek hws.ne_nil hseek
    rw [← hpre] at hseek
    obtain ⟨p, hfirst, hfront, hbehind⟩ := place_of_seek hws pre hseek
    obtain ⟨body, hafter, hbody, hsemicolon⟩ := exists_body hlast
    rw [← hbehind] at hafter
    have hstart : f.start = p.keywords ++ (body ++ [semicolon]) ++ rest := by
      have htext := hfound.symm.trans (p.text_cut hafter)
      rw [hfront, List.append_assoc] at htext
      exact List.append_cancel_left htext
    have hpre' : lastInWord (pre ++ (p.front ++ (p.keywords ++ (body ++ [semicolon])))) = false := by
      simp only [← List.append_assoc, lastInWord_concat, eq_of_isSemicolon hsemicolon]
      decide
    obtain ⟨more, hmore, rfl⟩ := map_eq_ok.1 h
    obtain ⟨xs, hcuts, rfl⟩ := ih _ hpre' hmore
    refine ⟨_, .cut p hfirst hafter hbody hsemicolon hcuts, ?_⟩
    rw [List.map_cons, hstart, List.length_append, Nat.add_sub_cancel, List.take_left]

/-- A split returns statements of the script, each from its keywords to the first semicolon of code
behind them. They follow each other and do not overlap. Where code spells the keywords and has a
semicolon behind them, one statement holds the place, and no other one does. -/
theorem split_covers_script {script : String} {statements : List String}
    (h : splitStatements script = .ok statements) :
    ∃ xs : List Extent, statements = xs.map Extent.text ∧
      (∀ x ∈ xs, x.IsStatementOf (marked script.toList)) ∧ Extent.Ordered xs ∧
      ∀ front back after, marked script.toList = front ++ back →
        matchKeywords createTable (lastInWord front) back = some after →
        (∃ m ∈ after, m.isSemicolon = true) → ∃ x, xs.filter (·.holds front.length) = [x] := by
  obtain ⟨texts, htexts, rfl⟩ := map_eq_ok.1 h
  obtain ⟨xs, hcuts, rfl⟩ := exists_cuts [] rfl htexts
  refine ⟨xs, List.map_map, hcuts.isStatementOf, hcuts.ordered, ?_⟩
  rintro front back after htext hmatch hsemicolon
  obtain ⟨p, hfront, rfl⟩ := Place.exists_of_matchKeywords areKeywords_createTable hmatch
  have hordered := hcuts.ordered
  rw [htext] at hcuts
  obtain ⟨x, hx, hholds⟩ := hcuts.covers (Place.shift [] front p) hsemicolon
  refine ⟨x, Extent.filter_holds hordered hx ?_⟩
  rwa [List.nil_append, Place.shift_front, hfront, List.append_nil] at hholds

/-- A script with keywords in a comment, inside of a statement, and in front of a text without an
end. -/
def nestedScript : String := "-- create table x;\n" ++
  "create table a (create table text default ';'); CREATE  TABLE b (id int); create table c"

/-- Keywords inside of a statement begin none, and the statement holds them. -/
theorem split_covers_script_of_nested :
    ∃ xs : List Extent, xs.map Extent.text =
        ["create table a (create table text default ';');", "CREATE  TABLE b (id int);"] ∧
      Extent.Ordered xs ∧ ∃ x, xs.filter (·.holds 35) = [x] := by
  have hsplit : splitStatements nestedScript =
      .ok ["create table a (create table text default ';');", "CREATE  TABLE b (id int);"] := by
    decide +kernel
  have hmatch : (matchKeywords createTable (lastInWord ((marked nestedScript.toList).take 35))
      ((marked nestedScript.toList).drop 35)).any (·.any Marked.isSemicolon) = true := by
    decide
  obtain ⟨after, hafter, hsemicolon⟩ := (Option.any_eq_true _ _).1 hmatch
  obtain ⟨xs, htexts, -, hordered, hcovers⟩ := split_covers_script hsplit
  obtain ⟨x, hx⟩ := hcovers _ _ after (List.take_append_drop 35 _).symm hafter
    (List.any_eq_true.1 hsemicolon)
  have hlength : ((marked nestedScript.toList).take 35).length = 35 := by decide
  rw [hlength] at hx
  exact ⟨xs, htexts.symm, hordered, x, hx⟩

end JpaScaffold.Ddl
