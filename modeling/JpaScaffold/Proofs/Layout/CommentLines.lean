import JpaScaffold.Proofs.Java.Comment
import JpaScaffold.Proofs.Layout.Page

/-!
# Block comments that are set in

A block comment in front of a member is written line by line, each line trimmed and set in. It is
still one block comment, and laid out once more it gives the same lines.
-/
namespace JpaScaffold.Java.Layout

open Text (isBlank trim trimEnd Trimmed)

/-- A line behind the first one of a block comment. -/
def starred (line : List Char) : List Char := if line.head? = some '*' then ' ' :: line else line

/-- A block comment as it is written behind the indentation of its first line. -/
def laidComment (n : Nat) (text : List Char) : List Char :=
  match commentLines text with
  | [] => []
  | first :: rest => page (first :: rest.map (List.replicate n ' ' ++ ·))

theorem starred_eq (line : List Char) : starred line = line ∨ starred line = ' ' :: line := by
  unfold starred
  split
  · exact .inr rfl
  · exact .inl rfl

theorem lines_map_trim {cs : List Char} (h : ∀ last, (cs.splitOn '\n').getLast? = some last →
    last ≠ []) : (Text.lines cs).map trim = (cs.splitOn '\n').map trim := by
  have hp : cs.splitOn '\n' = cs.splitOnP (· == '\n') := List.splitOn_eq_splitOnP
  rw [hp] at h ⊢
  obtain ⟨last, hl⟩ := Option.isSome_iff_exists.1
    (List.getLast?_isSome.2 (List.splitOnP_ne_nil (· == '\n') cs))
  obtain ⟨init, hi⟩ := List.getLast?_eq_some_iff.1 hl
  have hne := h last hl
  have hlines : Text.lines cs = init.map Text.dropReturn ++ [last] := by
    simp only [Text.lines, hl]
    rw [hi, List.dropLast_concat]
  rw [hlines, hi]
  simp [Function.comp_def, Text.trim_dropReturn]

theorem page_splitOn (cs : List Char) : page (cs.splitOn '\n') = cs :=
  List.intercalate_splitOn '\n'

theorem page_cons_cons (c : Char) (line : List Char) (lines : List (List Char)) :
    page ((c :: line) :: lines) = c :: page (line :: lines) := by
  cases lines with
  | nil => simp
  | cons line' lines =>
    have hne : line' :: lines ≠ [] := by simp
    rw [page_cons hne, page_cons hne, List.cons_append]

theorem not_mem_of_mem_splitOn {cs line : List Char} (h : line ∈ cs.splitOn '\n') :
    '\n' ∉ line := by
  induction cs generalizing line with
  | nil =>
    simp only [List.splitOn_nil, List.mem_singleton] at h
    simp [h]
  | cons c cs ih =>
    rw [List.splitOn_cons_eq_if_modifyHead] at h
    split at h
    · rcases List.mem_cons.1 h with rfl | h
      · simp
      · exact ih h
    · next hc =>
      obtain ⟨p, ps, hps⟩ := List.exists_cons_of_ne_nil (List.splitOn_ne_nil '\n' cs)
      rw [hps] at h ih
      rcases List.mem_cons.1 h with rfl | h
      · simp only [List.mem_cons, not_or]
        exact ⟨fun he => hc (beq_iff_eq.2 he.symm), ih (by simp)⟩
      · exact ih (by simp [h])

theorem closesComment_page_map {f : List Char → List Char}
    (hf : ∀ line, Unclosed line → Unclosed (f line))
    (hl : ∀ line, ClosesComment line → ClosesComment (f line)) {lines : List (List Char)}
    (h : ClosesComment (page lines)) : ClosesComment (page (lines.map f)) := by
  induction lines with
  | nil => exact h
  | cons line lines ih =>
    cases lines with
    | nil =>
      rw [page_singleton] at h
      rw [List.map_singleton, page_singleton]
      exact hl line h
    | cons line' lines =>
      rw [page_cons (by simp), closesComment_line] at h
      rw [List.map_cons, page_cons (by simp), closesComment_line]
      exact ⟨hf line h.1, ih h.2⟩

theorem closesComment_page_last {lines : List (List Char)} (h : ClosesComment (page lines))
    {last : List Char} (hl : lines.getLast? = some last) : ClosesComment last := by
  induction lines with
  | nil => cases hl
  | cons line lines ih =>
    cases lines with
    | nil =>
      cases hl
      rwa [page_singleton] at h
    | cons line' lines =>
      rw [page_cons (by simp), closesComment_line] at h
      exact ih h.2 (by rwa [List.getLast?_cons_cons] at hl)

def inset (n : Nat) (line : List Char) : List Char := List.replicate n ' ' ++ starred (trim line)

theorem inset_eq (n : Nat) (line : List Char) :
    ∃ gap, (∀ c ∈ gap, isBlank c = true) ∧ '\n' ∉ gap ∧ inset n line = gap ++ trim line := by
  have hrep : ∀ m, ∀ c ∈ List.replicate m ' ', isBlank c = true := fun m c hc => by
    rw [List.eq_of_mem_replicate hc]
    decide
  rcases starred_eq (trim line) with h | h
  · exact ⟨List.replicate n ' ', hrep n, by simp, by rw [inset, h]⟩
  · refine ⟨List.replicate (n + 1) ' ', hrep _, by simp, ?_⟩
    rw [inset, h, List.replicate_succ']
    simp

theorem unclosed_inset {n : Nat} {line : List Char} (h : Unclosed line) :
    Unclosed (inset n line) := by
  obtain ⟨gap, hg, -, he⟩ := inset_eq n line
  rw [he]
  exact (unclosed_blanks hg).2 (h.of_isInfix (Text.trim_infix line))

theorem closesComment_inset {n : Nat} {line : List Char} (h : ClosesComment line) :
    ClosesComment (inset n line) := by
  obtain ⟨gap, hg, -, he⟩ := inset_eq n line
  rw [he, closesComment_blanks hg]
  exact h.trim

@[simp] theorem trim_inset (n : Nat) (line : List Char) : trim (inset n line) = trim line := by
  obtain ⟨gap, hg, -, he⟩ := inset_eq n line
  rw [he, Text.trim_blanks hg, Text.trim_trim]

/-- The lines of a block comment: its opening mark stands on the first one, its closing mark is the
first one behind that and ends the last line. -/
def CommentSplit (text first : List Char) (rest : List (List Char)) : Prop :=
  text.splitOn '\n' = ('/' :: '*' :: first) :: rest ∧ ClosesComment (page (first :: rest))

theorem exists_commentSplit {cs : List Char} (h : ClosesComment cs) :
    ∃ first rest, CommentSplit ('/' :: '*' :: cs) first rest := by
  obtain ⟨first, rest, hs⟩ := List.exists_cons_of_ne_nil (List.splitOn_ne_nil '\n' cs)
  refine ⟨first, rest, ?_, ?_⟩
  · simp [List.splitOn_cons_eq_if_modifyHead, hs]
  · rw [← hs, page_splitOn]
    exact h

theorem CommentSplit.commentLines_eq {text first : List Char} {rest : List (List Char)}
    (h : CommentSplit text first rest) :
    commentLines text = ('/' :: '*' :: trimEnd first) :: rest.map fun l => starred (trim l) := by
  obtain ⟨hs, hc⟩ := h
  have hlast : ∀ last, (text.splitOn '\n').getLast? = some last → last ≠ [] := by
    intro last hl
    rw [hs] at hl
    cases rest with
    | nil =>
      cases hl
      simp
    | cons line rest =>
      rw [List.getLast?_cons_cons] at hl
      exact (closesComment_page_last hc (by rwa [List.getLast?_cons_cons])).ne_nil
  have hfirst : trim ('/' :: '*' :: first) = '/' :: '*' :: trimEnd first := by
    rw [trim, Text.trimStart_eq_self, Text.trimEnd_cons (by decide), Text.trimEnd_cons (by decide)]
    intro c hh
    cases hh
    decide
  simp only [commentLines, lines_map_trim hlast, hs, List.map_cons, hfirst, List.map_map]
  rfl

theorem CommentSplit.laidComment_eq {text first : List Char} {rest : List (List Char)}
    (h : CommentSplit text first rest) (n : Nat) :
    laidComment n text = '/' :: '*' :: page (trimEnd first :: rest.map (inset n)) := by
  rw [laidComment, h.commentLines_eq]
  simp only [List.map_map, page_cons_cons]
  rfl

/-- A block comment that is set in has the lines of the comment, each set in. -/
theorem CommentSplit.laid {text first : List Char} {rest : List (List Char)}
    (h : CommentSplit text first rest) (n : Nat) :
    CommentSplit (laidComment n text) (trimEnd first) (rest.map (inset n)) := by
  have hnl : ∀ line ∈ ('/' :: '*' :: first) :: rest, '\n' ∉ line := by
    intro line hm
    rw [← h.1] at hm
    exact not_mem_of_mem_splitOn hm
  constructor
  · rw [h.laidComment_eq, ← page_cons_cons, ← page_cons_cons]
    refine List.splitOn_intercalate '\n' (fun line hm => ?_) (by simp)
    rcases List.mem_cons.1 hm with rfl | hm
    · have hf := hnl _ (List.mem_cons_self ..)
      simp only [List.mem_cons, not_or] at hf ⊢
      exact ⟨hf.1, hf.2.1, fun hl => hf.2.2 ((Text.isPrefix_dropEndWhile _ _).mem hl)⟩
    · obtain ⟨l, hl, rfl⟩ := List.mem_map.1 hm
      obtain ⟨gap, -, hg, he⟩ := inset_eq n l
      rw [he, List.mem_append, not_or]
      exact ⟨hg, fun hl' => hnl l (by simp [hl]) ((Text.trim_infix l).mem hl')⟩
  · obtain ⟨-, hc⟩ := h
    cases rest with
    | nil =>
      rw [page_singleton] at hc
      rw [List.map_nil, page_singleton, Text.trimEnd_eq_self]
      · exact hc
      · intro c hl
        rw [hc.getLast] at hl
        cases hl
        decide
    | cons line rest =>
      rw [page_cons (by simp), closesComment_line] at hc
      rw [List.map_cons, page_cons (by simp), closesComment_line, ← List.map_cons (f := inset n)]
      exact ⟨hc.1.of_isInfix (Text.isPrefix_dropEndWhile _ _).isInfix,
        closesComment_page_map (fun _ => unclosed_inset) (fun _ => closesComment_inset) hc.2⟩

theorem reads_laidComment {text : List Char} (h : Reads .blockComment text []) (n : Nat)
    (next : List Char) : Reads .blockComment (laidComment n text) next := by
  obtain ⟨cs, rfl, hc⟩ := closesComment_of_reads h
  obtain ⟨first, rest, hs⟩ := exists_commentSplit hc
  rw [hs.laidComment_eq]
  exact reads_blockComment (hs.laid n).2 next

theorem commentLines_laidComment {text : List Char} (h : Reads .blockComment text []) (n : Nat) :
    commentLines (laidComment n text) = commentLines text := by
  obtain ⟨cs, rfl, hc⟩ := closesComment_of_reads h
  obtain ⟨first, rest, hs⟩ := exists_commentSplit hc
  rw [(hs.laid n).commentLines_eq, hs.commentLines_eq]
  have hend : trimEnd (trimEnd first) = trimEnd first :=
    Text.trimEnd_eq_self fun c hl => Text.trimEnd_last hl
  simp [hend, Function.comp_def]

theorem commentLines_ne_nil {text : List Char} (h : Reads .blockComment text []) :
    commentLines text ≠ [] := by
  obtain ⟨cs, rfl, hc⟩ := closesComment_of_reads h
  obtain ⟨first, rest, hs⟩ := exists_commentSplit hc
  rw [hs.commentLines_eq]
  simp

theorem page_commentLines {text : List Char} (h : Reads .blockComment text []) (n : Nat) :
    page ((commentLines text).map (List.replicate n ' ' ++ ·)) =
      List.replicate n ' ' ++ laidComment n text := by
  have hne := commentLines_ne_nil h
  unfold laidComment
  split
  · next he => exact absurd he hne
  · next first rest he =>
    rw [he, List.map_cons]
    cases rest with
    | nil => simp
    | cons line rest =>
      have hr : (line :: rest).map (List.replicate n ' ' ++ ·) ≠ [] := by simp
      rw [page_cons hr, page_cons hr, List.append_assoc]

/-- A line comment stays one comment inside a statement if it holds no closing mark, and only
then. -/
theorem reads_inlineComment {text next : List Char} :
    Reads .blockComment (inlineComment text) next ↔ Unclosed text := by
  have he : inlineComment text =
      '/' :: '*' :: (' ' :: trim (text.dropWhile (· == '/')) ++ [' ', '*', '/']) := rfl
  have hu : Unclosed (' ' :: trim (text.dropWhile (· == '/'))) ↔ Unclosed text := by
    rw [unclosed_cons, unclosed_trim, unclosed_dropSlashes]
    exact and_iff_right fun hc => absurd hc (by decide)
  rw [he]
  constructor
  · intro h
    obtain ⟨cs, hcs, hc⟩ := closesComment_of_reads h
    cases hcs
    exact hu.1 (hc.unclosed_left (by simp))
  · intro h
    exact reads_blockComment (closesComment_of_unclosed (hu.2 h)) next

end JpaScaffold.Java.Layout
