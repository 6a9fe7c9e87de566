import Mathlib.Data.List.Forall2

/-!
# Computations that may fail

What a computation returns, one lemma for each way in which computations are put together.
-/
namespace JpaScaffold

variable {ε ε' α β : Type}

@[simp] theorem ok_bind (a : α) (f : α → Except ε β) : (.ok a : Except ε α) >>= f = f a := rfl

@[simp] theorem error_bind (e : ε) (f : α → Except ε β) : (.error e : Except ε α) >>= f = .error e :=
  rfl

theorem bind_eq_ok {e : Except ε α} {f : α → Except ε β} {b : β} :
    e >>= f = .ok b ↔ ∃ a, e = .ok a ∧ f a = .ok b := by
  cases e with
  | error fault =>
    constructor
    · intro h
      cases h
    · rintro ⟨a, ha, -⟩
      cases ha
  | ok a =>
    constructor
    · intro h
      exact ⟨a, rfl, h⟩
    · rintro ⟨a', ha, h⟩
      cases ha
      exact h

theorem bind_eq_error {e : Except ε α} {f : α → Except ε β} {fault : ε} :
    e >>= f = .error fault ↔ e = .error fault ∨ ∃ a, e = .ok a ∧ f a = .error fault := by
  cases e with
  | error fault' => simp
  | ok a => simp

theorem map_eq_ok {e : Except ε α} {f : α → β} {b : β} :
    e.map f = .ok b ↔ ∃ a, e = .ok a ∧ f a = b := by
  cases e with
  | error fault => simp [Except.map]
  | ok a => simp [Except.map]

theorem map_eq_error {e : Except ε α} {f : α → β} {fault : ε} :
    e.map f = .error fault ↔ e = .error fault := by
  cases e with
  | error fault' => simp [Except.map]
  | ok a => simp [Except.map]

theorem mapError_eq_ok {e : Except ε α} {f : ε → ε'} {a : α} :
    e.mapError f = .ok a ↔ e = .ok a := by
  cases e with
  | error fault => simp [Except.mapError]
  | ok a => simp [Except.mapError]

theorem mapError_eq_error {e : Except ε α} {f : ε → ε'} {fault : ε'} :
    e.mapError f = .error fault ↔ ∃ fault', e = .error fault' ∧ fault = f fault' := by
  cases e with
  | error fault' => simp [Except.mapError, eq_comm]
  | ok a => simp [Except.mapError]

theorem mapM_eq_ok {f : α → Except ε β} {l : List α} {l' : List β} :
    l.mapM f = .ok l' ↔ List.Forall₂ (fun a b => f a = .ok b) l l' := by
  induction l generalizing l' with
  | nil =>
    rw [List.mapM_nil, List.forall₂_nil_left_iff]
    constructor
    · intro h
      cases h
      rfl
    · rintro rfl
      rfl
  | cons a l ih =>
    rw [List.mapM_cons, bind_eq_ok, List.forall₂_cons_left_iff]
    constructor
    · rintro ⟨b, hb, h⟩
      obtain ⟨l'', hl, h⟩ := bind_eq_ok.1 h
      cases h
      exact ⟨b, l'', hb, ih.1 hl, rfl⟩
    · rintro ⟨b, l'', hb, hl, rfl⟩
      exact ⟨b, hb, bind_eq_ok.2 ⟨l'', ih.2 hl, rfl⟩⟩

/-- The first element that fails decides the fault. -/
theorem mapM_eq_error {f : α → Except ε β} {l : List α} {fault : ε} :
    l.mapM f = .error fault ↔ ∃ before a after, l = before ++ a :: after ∧
      (∀ b ∈ before, ∃ c, f b = .ok c) ∧ f a = .error fault := by
  induction l with
  | nil =>
    rw [List.mapM_nil]
    constructor
    · intro h
      cases h
    · rintro ⟨before, a, after, h, -⟩
      cases before <;> cases h
  | cons x l ih =>
    rw [List.mapM_cons, bind_eq_error]
    constructor
    · rintro (hx | ⟨y, hy, h⟩)
      · exact ⟨[], x, l, rfl, List.forall_mem_nil _, hx⟩
      · rcases bind_eq_error.1 h with hl | ⟨ys, -, h⟩
        · obtain ⟨before, a, after, rfl, hbefore, ha⟩ := ih.1 hl
          exact ⟨x :: before, a, after, rfl, List.forall_mem_cons.2 ⟨⟨y, hy⟩, hbefore⟩, ha⟩
        · cases h
    · rintro ⟨before, a, after, h, hbefore, ha⟩
      cases before with
      | nil =>
        cases h
        exact .inl ha
      | cons b before =>
        cases h
        obtain ⟨⟨c, hc⟩, hbefore⟩ := List.forall_mem_cons.1 hbefore
        exact .inr ⟨c, hc, bind_eq_error.2 (.inl (ih.2 ⟨before, a, after, rfl, hbefore, ha⟩))⟩

/-- A function that only checks its argument before it applies `g`, on every element of a list. -/
theorem mapM_checked_eq_ok {f : α → Except ε β} {P : α → Prop} {g : α → β}
    (hf : ∀ a b, f a = .ok b ↔ P a ∧ b = g a) {l : List α} {l' : List β} :
    l.mapM f = .ok l' ↔ (∀ a ∈ l, P a) ∧ l' = l.map g := by
  rw [mapM_eq_ok]
  constructor
  · intro h
    induction h with
    | nil => exact ⟨List.forall_mem_nil _, rfl⟩
    | cons hab _ ih =>
      obtain ⟨hall, rfl⟩ := ih
      obtain ⟨ha, rfl⟩ := (hf _ _).1 hab
      exact ⟨List.forall_mem_cons.2 ⟨ha, hall⟩, rfl⟩
  · rintro ⟨hall, rfl⟩
    refine List.forall₂_map_right_iff.2 (List.forall₂_same.2 ?_)
    intro a ha
    exact (hf _ _).2 ⟨hall a ha, rfl⟩

end JpaScaffold
