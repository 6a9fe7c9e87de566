import JpaScaffold.Proofs.Text.Trim

/-!
# The words of a text

Words are what blanks part. Blanks around a text do not matter to its words, and the words of two
texts with a blank between them are those of the one and those of the other.
-/
namespace JpaScaffold.Text

variable {c : Char} {cs ds gap w : List Char}

theorem words_append_cons (h : isBlank c = true) (cs ds : List Char) :
    words (cs ++ c :: ds) = words cs ++ words ds := by
  rw [words, List.splitOnP_append_cons cs ds h, List.filter_append]
  rfl

theorem words_cons (h : isBlank c = true) (cs : List Char) : words (c :: cs) = words cs :=
  words_append_cons h [] cs

theorem words_blanks (hgap : ∀ c ∈ gap, isBlank c = true) (cs : List Char) :
    words (gap ++ cs) = words cs := by
  induction gap with
  | nil => rfl
  | cons c gap ih =>
    obtain ⟨hc, hgap⟩ := List.forall_mem_cons.1 hgap
    rw [List.cons_append, words_cons hc, ih hgap]

theorem words_of_blanks (hgap : ∀ c ∈ gap, isBlank c = true) : words gap = [] := by
  have hnone := words_blanks hgap []
  rwa [List.append_nil] at hnone

theorem words_append_blanks (hgap : ∀ c ∈ gap, isBlank c = true) (cs : List Char) :
    words (cs ++ gap) = words cs := by
  cases gap with
  | nil => rw [List.append_nil]
  | cons c gap =>
    obtain ⟨hc, hgap⟩ := List.forall_mem_cons.1 hgap
    rw [words_append_cons hc, words_of_blanks hgap, List.append_nil]

theorem words_of_word (hne : w ≠ []) (h : ∀ c ∈ w, isBlank c = false) : words w = [w] := by
  rw [words, List.splitOnP_eq_singleton h]
  simp [hne]

theorem words_trimStart (cs : List Char) : words (trimStart cs) = words cs := by
  conv_rhs => rw [← List.takeWhile_append_dropWhile (p := isBlank) (l := cs)]
  exact (words_blanks (fun c hc => List.mem_takeWhile_imp hc) _).symm

theorem words_trimEnd (cs : List Char) : words (trimEnd cs) = words cs := by
  conv_rhs => rw [← dropEndWhile_append_suffix isBlank cs]
  exact (words_append_blanks (fun c hc => List.mem_takeWhile_imp (List.mem_reverse.1 hc)) _).symm

theorem words_trim (cs : List Char) : words (trim cs) = words cs := by
  rw [trim, words_trimEnd, words_trimStart]

theorem words_map (f : Char → Char) (hf : ∀ c, isBlank (f c) = isBlank c) (cs : List Char) :
    words (cs.map f) = (words cs).map (List.map f) := by
  have hsplit : (cs.map f).splitOnP isBlank = (cs.splitOnP isBlank).map (List.map f) := by
    induction cs with
    | nil => rfl
    | cons c cs ih =>
      rw [List.map_cons, List.splitOnP_cons_eq_if_modifyHead, List.splitOnP_cons_eq_if_modifyHead,
        hf, ih]
      split
      · rfl
      · cases cs.splitOnP isBlank <;> rfl
  rw [words, hsplit, words, List.filter_map]
  congr 1
  refine List.filter_congr fun w _ => ?_
  simp

end JpaScaffold.Text
