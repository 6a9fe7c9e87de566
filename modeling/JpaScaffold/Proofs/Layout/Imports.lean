import JpaScaffold.Java.Layout.State
import Mathlib.Data.List.Sort
import Mathlib.Tactic

/-!
# The order of imports

Imports are written static ones first, then by their text, each once. The order is total, so sorted
imports stay as they are when they are sorted once more.
-/
namespace JpaScaffold.Java.Layout

section Repetitions

variable {α : Type} [BEq α]

theorem eraseReps_loop (a : α) (l acc : List α) :
    List.eraseRepsBy.loop (· == ·) a l acc = acc.reverse ++ List.eraseReps (a :: l) := by
  induction l generalizing a acc with
  | nil => simp [List.eraseReps, List.eraseRepsBy, List.eraseRepsBy.loop]
  | cons b l ih =>
    simp only [List.eraseReps, List.eraseRepsBy, List.eraseRepsBy.loop]
    split
    · exact ih a acc
    · rw [ih b (a :: acc), ih b [a]]
      simp

@[simp] theorem eraseReps_singleton (a : α) : List.eraseReps [a] = [a] := rfl

theorem eraseReps_cons_cons (a b : α) (l : List α) :
    List.eraseReps (a :: b :: l) =
      if a == b then List.eraseReps (a :: l) else a :: List.eraseReps (b :: l) := by
  rw [List.eraseReps, List.eraseRepsBy, List.eraseRepsBy.loop]
  cases h : a == b with
  | true =>
    simp only [if_true]
    exact eraseReps_loop a l []
  | false => exact eraseReps_loop b l [a]

variable [LawfulBEq α]

theorem mem_eraseReps {x : α} {l : List α} : x ∈ l.eraseReps ↔ x ∈ l := by
  induction hn : l.length using Nat.strong_induction_on generalizing l with
  | _ n ih =>
  subst hn
  rcases l with _ | ⟨a, _ | ⟨b, l⟩⟩
  · rfl
  · rfl
  · rw [eraseReps_cons_cons]
    split
    · next h =>
      rw [ih _ (by simp) rfl, eq_of_beq h]
      simp
    · rw [List.mem_cons, ih _ (by simp) rfl, ← List.mem_cons]

/-- Sorted, a list repeats no element once neighbours do not repeat. -/
theorem pairwise_eraseReps {r : α → α → Prop} (anti : ∀ a b, r a b → r b a → a = b) {l : List α}
    (h : l.Pairwise r) : l.eraseReps.Pairwise fun a b => r a b ∧ a ≠ b := by
  induction hn : l.length using Nat.strong_induction_on generalizing l with
  | _ n ih =>
  subst hn
  rcases l with _ | ⟨a, _ | ⟨b, l⟩⟩
  · exact .nil
  · exact List.pairwise_singleton ..
  · have hab := List.pairwise_cons.1 h
    rw [eraseReps_cons_cons]
    split
    · refine ih _ (by simp) (List.pairwise_cons.2 ⟨fun c hc => hab.1 c (by simp [hc]), ?_⟩) rfl
      exact (List.pairwise_cons.1 hab.2).2
    · next hne =>
      refine List.pairwise_cons.2 ⟨fun c hc => ?_, ih _ (by simp) hab.2 rfl⟩
      rw [mem_eraseReps] at hc
      refine ⟨hab.1 c hc, ?_⟩
      rintro rfl
      -- then `b` stands between two occurrences of `a`
      rcases List.mem_cons.1 hc with rfl | hc
      · exact hne (beq_self_eq_true _)
      · have hba := (List.pairwise_cons.1 hab.2).1 _ hc
        rw [anti _ _ (hab.1 b (by simp)) hba] at hne
        exact hne (beq_self_eq_true _)

theorem eraseReps_eq_self {l : List α} (h : l.Pairwise (· ≠ ·)) : l.eraseReps = l := by
  induction l with
  | nil => rfl
  | cons a l ih =>
    have ha := List.pairwise_cons.1 h
    cases l with
    | nil => rfl
    | cons b l =>
      rw [eraseReps_cons_cons, if_neg (by simp [ha.1 b (by simp)]), ih ha.2]

end Repetitions

theorem importLE_iff {a b : List Char} :
    importLE a b = true ↔
      (isStaticImport a = true ∧ isStaticImport b = false) ∨
        (isStaticImport a = isStaticImport b ∧ ¬b < a) := by
  unfold importLE
  cases isStaticImport a <;> cases isStaticImport b <;> simp

theorem importLE_trans (a b c : List Char) (hab : importLE a b = true)
    (hbc : importLE b c = true) : importLE a c = true := by
  rw [importLE_iff] at *
  rcases hab with ⟨ha, hb⟩ | ⟨ha, hle⟩ <;> rcases hbc with ⟨hb', hc⟩ | ⟨hb', hle'⟩
  · exact .inl ⟨ha, hc⟩
  · exact .inl ⟨ha, hb' ▸ hb⟩
  · exact .inl ⟨ha.trans hb', hc⟩
  · have hle'' := List.le_trans (List.not_lt.1 hle) (List.not_lt.1 hle')
    exact .inr ⟨ha.trans hb', List.not_lt.2 hle''⟩

theorem importLE_total (a b : List Char) : (importLE a b || importLE b a) = true := by
  rw [Bool.or_eq_true, importLE_iff, importLE_iff]
  have hle : ¬b < a ∨ ¬a < b := (List.le_total a b).imp List.not_lt.2 List.not_lt.2
  rcases hle with hle | hle <;>
    cases isStaticImport a <;> cases isStaticImport b <;> simp only [hle, true_and, not_false_eq_true,
      or_true, true_or, and_self, reduceCtorEq, false_and, and_false, false_or, or_false]

theorem importLE_antisymm (a b : List Char) (hab : importLE a b = true)
    (hba : importLE b a = true) : a = b := by
  rw [importLE_iff] at *
  rcases hab with ⟨ha, hb⟩ | ⟨ha, hle⟩ <;> rcases hba with ⟨hb', ha'⟩ | ⟨hb', hle'⟩
  · simp [ha] at ha'
  · simp [ha, hb] at hb'
  · simp [ha, hb'] at ha'
  · exact List.le_antisymm (List.not_lt.1 hle) (List.not_lt.1 hle')

@[simp] theorem sortedImports_nil : sortedImports [] = [] := by
  rw [sortedImports, List.mergeSort_nil]
  rfl

theorem mem_sortedImports {line : List Char} {imports : List (List Char)} :
    line ∈ sortedImports imports ↔ line ∈ imports := by
  rw [sortedImports, mem_eraseReps, List.mem_mergeSort]

theorem sortedImports_ne_nil {imports : List (List Char)} (h : imports ≠ []) :
    sortedImports imports ≠ [] := by
  obtain ⟨line, imports, rfl⟩ := List.exists_cons_of_ne_nil h
  exact List.ne_nil_of_mem (mem_sortedImports.2 (List.mem_cons_self ..))

theorem pairwise_sortedImports (imports : List (List Char)) :
    (sortedImports imports).Pairwise fun a b => importLE a b = true ∧ a ≠ b :=
  pairwise_eraseReps importLE_antisymm (List.pairwise_mergeSort importLE_trans importLE_total _)

theorem sortedImports_of_pairwise {imports : List (List Char)}
    (h : imports.Pairwise fun a b => importLE a b = true ∧ a ≠ b) :
    sortedImports imports = imports := by
  rw [sortedImports, List.mergeSort_of_pairwise (h.imp And.left),
    eraseReps_eq_self (h.imp And.right)]

@[simp] theorem sortedImports_sortedImports (imports : List (List Char)) :
    sortedImports (sortedImports imports) = sortedImports imports :=
  sortedImports_of_pairwise (pairwise_sortedImports imports)

theorem sortedImports_perm {imports : List (List Char)} (h : imports.Nodup) :
    (sortedImports imports).Perm imports := by
  have hp := List.mergeSort_perm imports importLE
  rw [sortedImports, eraseReps_eq_self (hp.nodup_iff.2 h)]
  exact hp

end JpaScaffold.Java.Layout
