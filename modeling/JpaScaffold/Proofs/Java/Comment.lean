import JpaScaffold.Proofs.Java.Scan
import JpaScaffold.Proofs.Text.Trim

/-!
# Closing marks of block comments

A block comment ends at its first closing mark. Blanks at the ends of its lines do not change where
that mark stands, since a mark does not reach over a line feed.
-/
namespace JpaScaffold.Java

open Text (isBlank trim trimEnd Trimmed)

def closeMark : List Char := ['*', '/']

/-- The text is the rest of a block comment up to its closing mark. -/
def ClosesComment (cs : List Char) : Prop := commentTail cs = some (cs, [])

/-- The text holds no closing mark. -/
def Unclosed (cs : List Char) : Prop := ¬ closeMark <:+: cs

theorem Unclosed.of_isInfix {cs ds : List Char} (h : Unclosed ds) (hi : cs <:+: ds) : Unclosed cs :=
  fun hc => h (hc.trans hi)

theorem unclosed_cons {c : Char} {cs : List Char} :
    Unclosed (c :: cs) ↔ (c = '*' → ∀ r, cs ≠ '/' :: r) ∧ Unclosed cs := by
  unfold Unclosed closeMark
  rw [List.infix_cons_iff, not_or]
  refine and_congr_left fun _ => ?_
  constructor
  · rintro h rfl r rfl
    exact h ⟨r, rfl⟩
  · rintro h ⟨r, hr⟩
    obtain ⟨rfl, rfl⟩ : '*' = c ∧ '/' :: r = cs := by simpa using hr
    exact h rfl r rfl

theorem unclosed_blanks {gap : List Char} (hg : ∀ c ∈ gap, isBlank c = true) {cs : List Char} :
    Unclosed (gap ++ cs) ↔ Unclosed cs := by
  induction gap with
  | nil => rfl
  | cons c gap ih =>
    have hne : c ≠ '*' := by
      rintro rfl
      exact absurd (hg '*' (by simp)) (by decide)
    rw [List.cons_append, unclosed_cons, ih fun d hd => hg d (by simp [hd])]
    exact and_iff_right fun h => absurd h hne

theorem commentTail_unclosed {cs : List Char} (h : Unclosed cs) (rest : List Char) :
    commentTail (cs ++ '\n' :: rest) =
      (commentTail rest).map fun (t, r) => (cs ++ '\n' :: t, r) := by
  induction cs with
  | nil =>
    rw [List.nil_append, commentTail]
    · rfl
    · intro _ hc
      cases hc
  | cons c cs ih =>
    obtain ⟨hc, hcs⟩ := unclosed_cons.1 h
    rw [List.cons_append, commentTail, ih hcs, Option.map_map]
    · rfl
    · rintro r hs he
      cases cs with
      | nil => cases he
      | cons d cs =>
        obtain ⟨rfl, -⟩ : d = '/' ∧ cs ++ '\n' :: rest = r := by simpa using he
        exact hc hs cs rfl

theorem ClosesComment.of_cons {c : Char} {cs : List Char} (h : ClosesComment (c :: cs))
    (hne : c = '*' → cs ≠ ['/']) : ClosesComment cs ∧ (c = '*' → ∀ r, cs ≠ '/' :: r) := by
  unfold ClosesComment at h
  unfold commentTail at h
  split at h
  · cases h
  · next rest _ =>
    simp only [Option.some.injEq, Prod.mk.injEq, List.cons.injEq] at h
    obtain ⟨⟨rfl, rfl⟩, -⟩ := h
    exact absurd rfl (hne rfl)
  · next c' cs' hmark heq =>
    cases heq
    obtain ⟨⟨t, r⟩, ht, he⟩ := Option.map_eq_some_iff.1 h
    simp only [Prod.mk.injEq, List.cons.injEq, true_and] at he
    obtain ⟨rfl, rfl⟩ := he
    exact ⟨ht, fun hc r hr => hmark r hc hr⟩

theorem closesComment_line {cs rest : List Char} :
    ClosesComment (cs ++ '\n' :: rest) ↔ Unclosed cs ∧ ClosesComment rest := by
  constructor
  · intro h
    induction cs with
    | nil =>
      refine ⟨fun hi => ?_, (h.of_cons fun hc => absurd hc (by decide)).1⟩
      exact absurd hi.length_le (by decide)
    | cons c cs ih =>
      rw [List.cons_append] at h
      obtain ⟨hcs, hc⟩ := h.of_cons fun _ he => by
        cases cs with
        | nil => cases he
        | cons d cs => simp at he
      obtain ⟨h1, h2⟩ := ih hcs
      exact ⟨unclosed_cons.2 ⟨fun hs r hr => hc hs (r ++ '\n' :: rest) (by rw [hr]; rfl), h1⟩, h2⟩
  · rintro ⟨h1, h2⟩
    rw [ClosesComment, commentTail_unclosed h1, h2]
    rfl

theorem closesComment_blank {c : Char} (hc : isBlank c = true) {cs : List Char} :
    ClosesComment (c :: cs) ↔ ClosesComment cs := by
  have hne : c ≠ '*' := by
    rintro rfl
    exact absurd hc (by decide)
  constructor
  · exact fun h => (h.of_cons fun h' => absurd h' hne).1
  · intro h
    unfold ClosesComment at h ⊢
    rw [commentTail, h]
    · rfl
    · exact fun _ h' => absurd h' hne

theorem closesComment_blanks {gap : List Char} (hg : ∀ c ∈ gap, isBlank c = true)
    {cs : List Char} : ClosesComment (gap ++ cs) ↔ ClosesComment cs := by
  induction gap with
  | nil => rfl
  | cons c gap ih =>
    rw [List.cons_append, closesComment_blank (hg c (by simp)), ih fun d hd => hg d (by simp [hd])]

theorem ClosesComment.ne_nil {cs : List Char} (h : ClosesComment cs) : cs ≠ [] := by
  rintro rfl
  cases h

theorem ClosesComment.getLast {cs : List Char} (h : ClosesComment cs) :
    cs.getLast? = some '/' := by
  unfold ClosesComment at h
  fun_induction commentTail cs with
  | case1 => cases h
  | case2 rest =>
    obtain rfl : rest = [] := by simpa using h
    rfl
  | case3 c rest hne ih =>
    obtain ⟨⟨t, r⟩, ht, he⟩ := Option.map_eq_some_iff.1 h
    simp only [Prod.mk.injEq, List.cons.injEq, true_and] at he
    obtain ⟨rfl, rfl⟩ := he
    have hl := ih ht
    cases t with
    | nil => cases hl
    | cons d t => rw [List.getLast?_cons_cons, hl]

theorem ClosesComment.trim {cs : List Char} (h : ClosesComment cs) : ClosesComment (trim cs) := by
  have hs : ClosesComment (Text.trimStart cs) := by
    have hgap : ∀ c ∈ cs.takeWhile isBlank, isBlank c = true := fun c hc =>
      List.mem_takeWhile_imp hc
    rw [← List.takeWhile_append_dropWhile (p := isBlank) (l := cs)] at h
    exact (closesComment_blanks hgap).1 h
  rw [Text.trim, Text.trimEnd_eq_self]
  · exact hs
  · intro c hc
    rw [hs.getLast] at hc
    cases hc
    decide

theorem unclosed_append_blanks {gap : List Char} (hg : ∀ c ∈ gap, isBlank c = true)
    {cs : List Char} : Unclosed (cs ++ gap) ↔ Unclosed cs := by
  refine ⟨fun h => h.of_isInfix (List.prefix_append cs gap).isInfix, fun h => ?_⟩
  induction cs with
  | nil =>
    rw [List.nil_append, ← List.append_nil gap]
    exact (unclosed_blanks hg).2 h
  | cons c cs ih =>
    obtain ⟨hc, hcs⟩ := unclosed_cons.1 h
    refine unclosed_cons.2 ⟨fun hs r hr => ?_, ih hcs⟩
    cases cs with
    | cons d cs =>
      obtain ⟨rfl, -⟩ : d = '/' ∧ cs ++ gap = r := by simpa using hr
      exact hc hs cs rfl
    | nil =>
      have hr' : gap = '/' :: r := hr
      have hb := hg '/' (by rw [hr']; simp)
      exact absurd hb (by decide)

theorem unclosed_trimEnd {cs : List Char} : Unclosed (trimEnd cs) ↔ Unclosed cs := by
  have hgap : ∀ c ∈ (cs.reverse.takeWhile isBlank).reverse, isBlank c = true := fun c hc =>
    List.mem_takeWhile_imp (List.mem_reverse.1 hc)
  have happ := Text.dropEndWhile_append_suffix isBlank cs
  conv_rhs => rw [← happ]
  exact (unclosed_append_blanks hgap).symm

theorem unclosed_trim {cs : List Char} : Unclosed (trim cs) ↔ Unclosed cs := by
  have hgap : ∀ c ∈ cs.takeWhile isBlank, isBlank c = true := fun c hc =>
    List.mem_takeWhile_imp hc
  have happ := @List.takeWhile_append_dropWhile Char isBlank cs
  rw [trim, unclosed_trimEnd]
  conv_rhs => rw [← happ]
  exact (unclosed_blanks hgap).symm

theorem unclosed_dropSlashes {cs : List Char} :
    Unclosed (cs.dropWhile (· == '/')) ↔ Unclosed cs := by
  induction cs with
  | nil => rfl
  | cons c cs ih =>
    rw [List.dropWhile_cons]
    split
    · next hc =>
      rw [ih, unclosed_cons]
      refine (and_iff_right fun hs => ?_).symm
      rw [hs] at hc
      cases hc
    · rfl

theorem closesComment_of_unclosed {cs : List Char} (h : Unclosed cs) :
    ClosesComment (cs ++ [' ', '*', '/']) := by
  induction cs with
  | nil => rfl
  | cons c cs ih =>
    obtain ⟨hc, hcs⟩ := unclosed_cons.1 h
    have ht := ih hcs
    unfold ClosesComment at ht ⊢
    rw [List.cons_append, commentTail, ht]
    · rfl
    · intro r hs hr
      cases cs with
      | nil => cases hr
      | cons d cs =>
        obtain ⟨rfl, -⟩ : d = '/' ∧ cs ++ [' ', '*', '/'] = r := by simpa using hr
        exact hc hs cs rfl

/-- Before its end, the rest of a block comment holds no closing mark. -/
theorem ClosesComment.unclosed_left {cs ds : List Char} (h : ClosesComment (cs ++ ds))
    (hd : ds ≠ []) : Unclosed cs := by
  induction cs with
  | nil => exact fun hi => absurd hi.length_le (by decide)
  | cons c cs ih =>
    cases cs with
    | nil =>
      intro hi
      have hlen := hi.length_le
      simp [closeMark] at hlen
    | cons d cs =>
      obtain ⟨hcs, hc⟩ := h.of_cons fun _ he => by
        have he' : d :: cs ++ ds = ['/'] := he
        have hlen := congrArg List.length he'
        have hpos := List.length_pos_iff.2 hd
        simp only [List.length_append, List.length_cons, List.length_nil] at hlen
        omega
      refine unclosed_cons.2 ⟨fun hs r hr => ?_, ih hcs⟩
      cases hr
      exact hc hs _ rfl

theorem reads_blockComment {cs : List Char} (h : ClosesComment cs) (next : List Char) :
    Reads .blockComment ('/' :: '*' :: cs) next := by
  refine ⟨'/', '*' :: cs, rfl, by decide, lexeme_of_cuts (.blockComment ?_)⟩
  exact commentTail_append_right h next

theorem closesComment_of_reads {text next : List Char} (h : Reads .blockComment text next) :
    ∃ cs, text = '/' :: '*' :: cs ∧ ClosesComment cs := by
  obtain ⟨c, rest, rfl, -, hx⟩ := h
  have hcuts := cuts_of_lexeme hx
  generalize hl : (⟨.blockComment, c :: rest, next⟩ : Lexeme) = l at hcuts
  generalize hcs : rest ++ next = cs at hcuts
  cases hcuts with
  | blockComment ht =>
    simp only [Lexeme.mk.injEq, List.cons.injEq, true_and] at hl
    obtain ⟨rfl, rfl⟩ := hl
    have h0 := commentTail_append_right ht []
    rw [List.append_nil] at h0
    exact ⟨_, rfl, h0⟩
  | lineComment => cases hl
  | literal => cases hl
  | word => cases hl
  | mark =>
    have hk := congrArg Lexeme.kind hl
    rw [operator_kind] at hk
    cases hk

theorem reads_lineComment {more next : List Char} (h : '\n' ∉ more) (hn : AtLineEnd next) :
    Reads .lineComment ('/' :: '/' :: more) next := by
  have htake : more.takeWhile (· ≠ '\n') = more := by
    rw [List.takeWhile_eq_self_iff]
    intro c hc
    simp only [ne_eq, decide_eq_true_eq]
    rintro rfl
    exact h hc
  obtain ⟨h1, h2⟩ := @takeWhile_lineEnd more next hn
  rw [htake] at h1 h2
  have hx := lexeme_of_cuts (.lineComment (more ++ next))
  rw [h1, h2] at hx
  exact ⟨'/', '/' :: more, rfl, by decide, hx⟩

theorem lineComment_of_reads {text next : List Char} (h : Reads .lineComment text next) :
    ∃ more, text = '/' :: '/' :: more ∧ '\n' ∉ more := by
  obtain ⟨c, rest, rfl, -, hx⟩ := h
  have hcuts := cuts_of_lexeme hx
  generalize hl : (⟨.lineComment, c :: rest, next⟩ : Lexeme) = l at hcuts
  generalize hcs : rest ++ next = cs at hcuts
  cases hcuts with
  | lineComment more =>
    simp only [Lexeme.mk.injEq, List.cons.injEq, true_and] at hl
    obtain ⟨rfl, -⟩ := hl
    refine ⟨_, rfl, fun hmem => ?_⟩
    have hne := List.mem_takeWhile_imp hmem
    simp at hne
  | blockComment => cases hl
  | literal => cases hl
  | word => cases hl
  | mark =>
    have hk := congrArg Lexeme.kind hl
    rw [operator_kind] at hk
    cases hk

theorem atLineEnd_dropWhile (cs : List Char) : AtLineEnd (cs.dropWhile (· ≠ '\n')) := by
  intro c hc
  have hstop := List.head?_dropWhile_not (fun d => decide (d ≠ '\n')) cs
  rw [hc] at hstop
  simpa using hstop

theorem reads_trimEnd {text : List Char} (h : Reads .lineComment text []) {next : List Char}
    (hn : AtLineEnd next) : Reads .lineComment (trimEnd text) next := by
  obtain ⟨more, rfl, hmore⟩ := lineComment_of_reads h
  rw [Text.trimEnd_cons (by decide), Text.trimEnd_cons (by decide)]
  exact reads_lineComment (fun hc => hmore ((Text.isPrefix_dropEndWhile _ _).mem hc)) hn

end JpaScaffold.Java
