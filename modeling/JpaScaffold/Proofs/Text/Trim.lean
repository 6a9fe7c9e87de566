import JpaScaffold.Text.Trim
import Mathlib.Data.List.DropRight
import Mathlib.Tactic

/-!
# Trimmed texts

Trimming keeps a piece of the text from the first to the last character that is not blank. It
changes nothing in a text that neither starts nor ends with a blank, and blanks around a text do not
matter to it.
-/
namespace JpaScaffold.Text

/-- The text neither starts nor ends with a blank. -/
structure Trimmed (cs : List Char) : Prop where
  head : ∀ c, cs.head? = some c → isBlank c = false
  last : ∀ c, cs.getLast? = some c → isBlank c = false

theorem dropEndWhile_eq_rdropWhile (p : Char → Bool) (cs : List Char) :
    dropEndWhile p cs = cs.rdropWhile p := rfl

theorem isPrefix_dropEndWhile (p : Char → Bool) (cs : List Char) : dropEndWhile p cs <+: cs :=
  List.rdropWhile_prefix p cs

theorem trimStart_suffix (cs : List Char) : trimStart cs <:+ cs := List.dropWhile_suffix _

theorem trim_infix (cs : List Char) : trim cs <:+: cs :=
  (isPrefix_dropEndWhile _ _).isInfix.trans (trimStart_suffix cs).isInfix

theorem dropEndWhile_last {p : Char → Bool} {cs : List Char} {c : Char}
    (h : (dropEndWhile p cs).getLast? = some c) : p c = false := by
  have hne : cs.rdropWhile p ≠ [] := by
    intro h0
    rw [dropEndWhile_eq_rdropWhile, h0] at h
    cases h
  have hl := List.rdropWhile_last_not p cs hne
  rw [dropEndWhile_eq_rdropWhile, List.getLast?_eq_getLast_of_ne_nil hne] at h
  cases h
  exact eq_false_of_ne_true hl

theorem trimEnd_last {cs : List Char} {c : Char} (h : (trimEnd cs).getLast? = some c) :
    isBlank c = false :=
  dropEndWhile_last h

theorem trimStart_head {cs : List Char} {c : Char} (h : (trimStart cs).head? = some c) :
    isBlank c = false := by
  have hd := List.head?_dropWhile_not isBlank cs
  rw [trimStart] at h
  rw [h] at hd
  simpa using hd

theorem dropEndWhile_eq_self {p : Char → Bool} {cs : List Char}
    (h : ∀ c, cs.getLast? = some c → p c = false) : dropEndWhile p cs = cs := by
  rw [dropEndWhile_eq_rdropWhile, List.rdropWhile_eq_self_iff]
  intro hne
  simp [h _ (List.getLast?_eq_getLast_of_ne_nil hne)]

theorem trimEnd_eq_self {cs : List Char} (h : ∀ c, cs.getLast? = some c → isBlank c = false) :
    trimEnd cs = cs :=
  dropEndWhile_eq_self h

theorem trimStart_eq_self {cs : List Char} (h : ∀ c, cs.head? = some c → isBlank c = false) :
    trimStart cs = cs := by
  cases cs with
  | nil => rfl
  | cons c cs => simp [trimStart, h c rfl]

theorem trimmed_trim (cs : List Char) : Trimmed (trim cs) := by
  refine ⟨fun c hc => ?_, fun c hc => trimEnd_last hc⟩
  obtain ⟨ds, hds⟩ : trim cs <+: trimStart cs := isPrefix_dropEndWhile _ _
  refine @trimStart_head cs c ?_
  rw [← hds, List.head?_append_of_ne_nil _ (by rintro h; simp [h] at hc), hc]

theorem Trimmed.trim_eq {cs : List Char} (h : Trimmed cs) : trim cs = cs := by
  rw [trim, trimStart_eq_self h.head, trimEnd_eq_self h.last]

@[simp] theorem trim_trim (cs : List Char) : trim (trim cs) = trim cs := (trimmed_trim cs).trim_eq

theorem trim_blanks {gap : List Char} (hg : ∀ c ∈ gap, isBlank c = true) (cs : List Char) :
    trim (gap ++ cs) = trim cs := by
  rw [trim, trimStart, List.dropWhile_append_of_pos hg]
  rfl

theorem dropEndWhile_append_of_pos {p : Char → Bool} {tail : List Char}
    (ht : ∀ c ∈ tail, p c = true) (cs : List Char) :
    dropEndWhile p (cs ++ tail) = dropEndWhile p cs := by
  rw [dropEndWhile, List.reverse_append, List.dropWhile_append_of_pos]
  · rfl
  · intro c hc
    exact ht c (List.mem_reverse.1 hc)

theorem trimEnd_append_blanks {gap : List Char} (hg : ∀ c ∈ gap, isBlank c = true)
    (cs : List Char) : trimEnd (cs ++ gap) = trimEnd cs :=
  dropEndWhile_append_of_pos hg cs

/-- What is left is followed by characters with the property and does not end with one. -/
theorem dropEndWhile_eq_iff {p : Char → Bool} {cs stem : List Char} : dropEndWhile p cs = stem ↔
    (∃ tail, cs = stem ++ tail ∧ ∀ c ∈ tail, p c = true) ∧
      ∀ c, stem.getLast? = some c → p c = false := by
  constructor
  · rintro rfl
    refine ⟨⟨_, (dropEndWhile_append_suffix p cs).symm, fun c hc => ?_⟩,
      fun c hc => dropEndWhile_last hc⟩
    exact List.mem_takeWhile_imp (List.mem_reverse.1 hc)
  · rintro ⟨⟨tail, rfl, htail⟩, hlast⟩
    rw [dropEndWhile_append_of_pos htail, dropEndWhile_eq_self hlast]

theorem exists_blanks_trim (cs : List Char) : ∃ lead trail, cs = lead ++ trim cs ++ trail ∧
    (∀ c ∈ lead, isBlank c = true) ∧ ∀ c ∈ trail, isBlank c = true := by
  have hstart : cs.takeWhile isBlank ++ trimStart cs = cs := List.takeWhile_append_dropWhile
  obtain ⟨⟨trail, hend, htrail⟩, -⟩ :=
    dropEndWhile_eq_iff.1 (rfl : dropEndWhile isBlank (trimStart cs) = trim cs)
  refine ⟨cs.takeWhile isBlank, trail, ?_, fun c hc => List.mem_takeWhile_imp hc, htrail⟩
  rw [List.append_assoc, trim, trimEnd, ← hend, hstart]

theorem trimEnd_append {cs : List Char} (h : ∀ c, cs.getLast? = some c → isBlank c = false)
    (ds : List Char) : trimEnd (cs ++ ds) = cs ++ trimEnd ds := by
  have hcs := trimEnd_eq_self h
  rw [trimEnd, dropEndWhile] at hcs ⊢
  rw [List.reverse_append, List.dropWhile_append]
  split
  · next hall =>
    rw [List.isEmpty_iff] at hall
    rw [hcs, trimEnd, dropEndWhile, hall, List.reverse_nil, List.append_nil]
  · rw [List.reverse_append, List.reverse_reverse]
    rfl

theorem trimStart_append {cs : List Char} (h : trimStart cs ≠ []) (ds : List Char) :
    trimStart (cs ++ ds) = trimStart cs ++ ds := by
  induction cs with
  | nil => exact absurd rfl h
  | cons c cs ih =>
    simp only [trimStart, List.cons_append, List.dropWhile_cons] at h ⊢ ih
    split
    · next hc =>
      rw [if_pos hc] at h
      exact ih h
    · rfl

theorem trim_append_blanks {gap : List Char} (hg : ∀ c ∈ gap, isBlank c = true)
    (cs : List Char) : trim (cs ++ gap) = trim cs := by
  by_cases h : trimStart cs = []
  · have hall : ∀ c ∈ cs, isBlank c = true := List.dropWhile_eq_nil_iff.1 h
    rw [trim_blanks hall]
    have hgap := trim_blanks hg []
    have hcs := trim_blanks hall []
    rw [List.append_nil] at hgap hcs
    rw [hgap, hcs]
  · rw [trim, trimStart_append h, trimEnd_append_blanks hg]
    rfl

theorem trim_dropReturn (cs : List Char) : trim (dropReturn cs) = trim cs := by
  unfold dropReturn
  split
  · next h =>
    obtain ⟨ds, rfl⟩ : ∃ ds, cs = ds ++ ['\r'] := List.getLast?_eq_some_iff.1 h
    rw [List.dropLast_concat, trim_append_blanks (List.forall_mem_singleton.2 (by decide))]
  · rfl

theorem dropEndWhile_cons {p : Char → Bool} {c : Char} (h : p c = false) (cs : List Char) :
    dropEndWhile p (c :: cs) = c :: dropEndWhile p cs := by
  rw [dropEndWhile, List.reverse_cons, List.dropWhile_append]
  split
  · next hall =>
    rw [List.isEmpty_iff] at hall
    simp [dropEndWhile, hall, h]
  · simp [dropEndWhile]

theorem trimEnd_cons {c : Char} (h : isBlank c = false) (cs : List Char) :
    trimEnd (c :: cs) = c :: trimEnd cs :=
  dropEndWhile_cons h cs

end JpaScaffold.Text
