import JpaScaffold.Proofs.Layout.Move
import JpaScaffold.Proofs.Layout.Pieces

/-!
# Statements that are being read

The tokens of a statement are held back until it ends. Whether a token is held depends on what the
tokens say and on the brackets open so far, so the same tokens, spaced anew, are held again by every
state in which a statement can start.
-/
namespace JpaScaffold.Java.Layout

variable {o : Options} {s : State}

theorem run_of_move {previous : Option Token} {t : Token} {rest : List Token} {p : Progress}
    (h : Move o s previous t rest p) :
    run o s previous (t :: rest) = run o p.state p.previous p.rest := by
  rw [run]
  split
  · next e he =>
    rw [step_of_move h] at he
    cases he
  · next p' hp =>
    rw [step_of_move h] at hp
    cases hp
    rfl

theorem run_of_error {previous : Option Token} {t : Token} {rest : List Token} {e : SourceError}
    (h : step o s previous t rest = .error e) : run o s previous (t :: rest) = .error e := by
  rw [run]
  split
  · next e' he =>
    rw [h] at he
    cases he
    rfl
  · next p hp =>
    rw [h] at hp
    cases hp

theorem step_previous {t : Token} (ht : t.kind ≠ .lineComment) (previous previous' : Option Token)
    (rest : List Token) : step o s previous t rest = step o s previous' t rest := by
  unfold step
  rw [if_neg ht, if_neg ht]

theorem run_previous {ts : List Token} (h : NoLineComment ts) (previous previous' : Option Token) :
    run o s previous ts = run o s previous' ts := by
  cases ts with
  | nil => rw [run, run]
  | cons t rest =>
    have ht := (noLineComment_cons.1 h).1
    cases hs : step o s previous t rest with
    | error e =>
      rw [run_of_error hs, run_of_error (step_previous ht previous previous' rest ▸ hs)]
    | ok p =>
      have hs' := step_previous ht previous previous' rest ▸ hs
      rw [run_of_move (move_of_step hs), run_of_move (move_of_step hs')]

/-- The brackets open behind a token, and whether the statement has an assignment. -/
def shift (brackets : List Bracket) (assigned : Bool) (t : Token) : Option (List Bracket × Bool) :=
  match State.opens? t, State.closes? t with
  | some b, _ => some (b :: brackets, assigned)
  | none, some b =>
    match brackets with
    | opened :: rest => if opened = b then some (rest, assigned) else none
    | [] => none
  | none, none => some (brackets, assigned || (t.isPunct ['='] && brackets.isEmpty))

theorem shift_of_pushToken {t : Token} {s' : State} (h : s.pushToken t = .ok s') :
    shift (s.nesting.map Prod.fst) s.assigned t = some (s'.nesting.map Prod.fst, s'.assigned) ∧
      s' = { s with
        pending := s.pending ++ [t], nesting := s'.nesting, assigned := s'.assigned } := by
  unfold State.pushToken at h
  split at h
  · next b _ he =>
    cases h
    exact ⟨by simp [shift, he], rfl⟩
  · next b he hc =>
    split at h
    · next hn =>
      split at h
      · next hb =>
        cases h
        exact ⟨by simp [shift, he, hc, hn, hb], rfl⟩
      · cases h
    · cases h
  · next he hc =>
    cases h
    exact ⟨by simp [shift, he, hc], rfl⟩

theorem pushToken_of_shift {t : Token} {brackets brackets' : List Bracket} {assigned' : Bool}
    (hn : s.nesting = brackets.map (·, 0)) (ht : t.line = 0)
    (h : shift brackets s.assigned t = some (brackets', assigned')) :
    s.pushToken t = .ok { s with
      pending := s.pending ++ [t], nesting := brackets'.map (·, 0), assigned := assigned' } := by
  unfold shift at h
  unfold State.pushToken
  cases he : State.opens? t with
  | some b =>
    rw [he] at h
    cases h
    rw [hn, ht]
    rfl
  | none =>
    cases hc : State.closes? t with
    | some b =>
      rw [he, hc] at h
      cases brackets with
      | nil => cases h
      | cons opened rest =>
        dsimp only at h
        split at h
        · next hb =>
          cases h
          simp [hn, hb]
        · cases h
    | none =>
      rw [he, hc] at h
      cases h
      simp [hn]

/-- The tokens are held back as a statement, which leaves some brackets open. The statement is fresh
if it continues no closed block. -/
inductive Held (fresh : Bool) : List Token → List Bracket → Bool → Prop
  | nil : Held fresh [] [] false
  | push {ts : List Token} {brackets brackets' : List Bracket} {assigned assigned' : Bool}
      {t : Token} (h : Held fresh ts brackets assigned)
      (hb : t.kind = .blockComment → ts = [] → fresh = false)
      (hopen : t.isPunct ['{'] = true → brackets = [] → assigned = true)
      (hclose : t.isPunct ['}'] = true → brackets ≠ [])
      (hend : t.isPunct [';'] = true → brackets ≠ [])
      (hs : shift brackets assigned t = some (brackets', assigned')) :
      Held fresh (ts ++ [t]) brackets' assigned'

theorem shift_of_content {t t' : Token} (h : t.content = t'.content) (brackets : List Bracket)
    (assigned : Bool) : shift brackets assigned t = shift brackets assigned t' := by
  simp only [shift, State.opens?, State.closes?, isPunct_of_content h]

theorem Held.of_contents {fresh : Bool} {ts ts' : List Token} {brackets : List Bracket}
    {assigned : Bool} (h : Held fresh ts brackets assigned)
    (hc : ts'.map Token.content = ts.map Token.content) : Held fresh ts' brackets assigned := by
  induction h generalizing ts' with
  | nil =>
    obtain rfl : ts' = [] := by simpa using hc
    exact .nil
  | @push ts _ _ _ _ t h hb hopen hclose hend hs ih =>
    rw [List.map_append] at hc
    obtain ⟨us, vs, rfl, hus, hvs⟩ := List.map_eq_append_iff.1 hc
    obtain ⟨t', rfl, ht⟩ : ∃ t', vs = [t'] ∧ t'.content = t.content := by
      simpa [List.map_eq_cons_iff] using hvs
    have hk : t'.kind = t.kind := congrArg Prod.fst ht
    have hnil : us = [] → ts = [] := by
      rintro rfl
      simpa using hus.symm
    refine .push (ih hus) (fun hc hn => hb (hk ▸ hc) (hnil hn)) ?_ ?_ ?_ ?_
    · rwa [isPunct_of_content ht]
    · rwa [isPunct_of_content ht]
    · rwa [isPunct_of_content ht]
    · rwa [shift_of_content ht]

/-- The first tokens of a statement do not start an annotation. -/
def PlainStart (fresh : Bool) (ts : List Token) : Prop :=
  fresh = true → ∀ t rest, ts = t :: rest → startsAnnotation t rest = false

/-- Tokens that are held as a statement are read as one. -/
theorem Held.run_eq {ts rest : List Token} {brackets : List Bracket} {assigned : Bool}
    (h : Held s.carry.isNone ts brackets assigned) (hp : s.pending = []) (hn : s.nesting = [])
    (ha : s.assigned = false) (hz : ∀ t ∈ ts, t.line = 0) (hl : NoLineComment (ts ++ rest))
    (hs : ts ≠ [] → PlainStart s.carry.isNone (ts ++ rest)) :
    run o s none (ts ++ rest) =
      run o { s with
        pending := ts, nesting := brackets.map (·, 0), assigned := assigned } none rest := by
  generalize hfresh : s.carry.isNone = fresh at h hs
  -- by induction on what is held: its last token is pushed behind the others
  induction h generalizing rest with
  | nil =>
    rw [List.nil_append, List.map_nil, ← hp, ← hn, ← ha]
  | @push ts brackets brackets' assigned assigned' t h hb hopen hclose hend hsh ih =>
    rw [List.append_assoc] at hl hs ⊢
    have hz' : ∀ u ∈ ts, u.line = 0 := fun u hu => hz u (List.mem_append_left _ hu)
    rw [ih hz' hl (fun _ => hs (by simp))]
    have ht : t.kind ≠ .lineComment := hl t (by simp)
    have hpush := pushToken_of_shift
      (s := { s with
        pending := ts, nesting := brackets.map (·, 0), assigned := assigned }) rfl
      (hz t (by simp)) hsh
    have hmove : Move o _ none t rest _ := .token ht (fun hc => ?_) (fun hst => ?_) (fun hc hb' => ?_)
      (fun hc => ?_) (fun hc => ?_) hpush
    · rw [List.singleton_append, run_of_move hmove]
      refine run_previous (fun u hu => hl u (by simp [hu])) _ _
    · have hts : ts ≠ [] ∨ fresh = false := by
        by_cases hnil : ts = []
        · exact .inr (hb hc hnil)
        · exact .inl hnil
      rcases hts with hts | hts
      · simp [State.atStart, hts]
      · simp [State.atStart, Option.isNone_eq_false_iff.1 (hfresh.trans hts)]
    · obtain ⟨hnil, hcarry⟩ := State.atStart_iff.1 hst
      subst hnil
      exact hs (by simp) (by rw [← hfresh, hcarry]; rfl) t rest rfl
    · exact hopen hc (by simpa using hb')
    · simpa using hclose hc
    · simpa using hend hc

/-- No statement has begun. -/
structure Idle (s : State) : Prop where
  pending : s.pending = []
  nesting : s.nesting = []
  assigned : s.assigned = false

theorem Held.run_step {ps rest : List Token} {assigned : Bool} {t : Token} {p : Progress}
    (h : Held s.carry.isNone ps [] assigned) (hi : Idle s) (hz : ∀ u ∈ ps, u.line = 0)
    (hl : NoLineComment (ps ++ t :: rest))
    (hs : ps ≠ [] → PlainStart s.carry.isNone (ps ++ t :: rest))
    (hm : Move o { s with pending := ps, assigned := assigned } none t rest p) :
    run o s none (ps ++ t :: rest) = run o p.state none p.rest := by
  have hheld := h.run_eq (o := o) hi.pending hi.nesting hi.assigned hz hl hs
  have hstate : { s with pending := ps, nesting := [], assigned := assigned } =
      { s with pending := ps, assigned := assigned } := by rw [hi.nesting]
  rw [hheld, List.map_nil, hstate, run_of_move hm]
  refine run_previous ?_ _ none
  obtain ⟨taken, htaken, -, -⟩ := exists_taken hm
  rw [htaken] at hl
  exact (noLineComment_append.1 (noLineComment_append.1 hl).2).2

theorem line_leading (ts : List Token) : ∀ t ∈ leading ts, t.line = 0 := by
  cases ts with
  | nil => exact List.forall_mem_nil _
  | cons t ts =>
    intro u hu
    simp only [leading, List.mem_cons, List.mem_map] at hu
    rcases hu with rfl | ⟨v, -, rfl⟩
    · rfl
    · rfl

end JpaScaffold.Java.Layout
