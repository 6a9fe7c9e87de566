import JpaScaffold.Java.Layout
import Mathlib.Tactic

/-!
# The moves of a layout

A step of a layout is one of eight moves, each with the condition under which it is made. A trace
is a whole run, move by move.
-/
namespace JpaScaffold.Java

theorem Token.isPunct_iff {t : Token} {text : List Char} :
    t.isPunct text = true ↔ t.kind = .punct ∧ t.text = text := by
  simp [Token.isPunct]

namespace Layout

theorem State.atStart_iff {s : State} : s.atStart = true ↔ s.pending = [] ∧ s.carry = none := by
  simp [State.atStart]

/-- What a step does with the token `t` in front of the tokens `rest`. -/
inductive Move (o : Options) (s : State) (previous : Option Token) (t : Token)
    (rest : List Token) : Progress → Prop
  | lineComment (hk : t.kind = .lineComment) :
      Move o s previous t rest ⟨s.lineComment o t previous, some t, rest⟩
  | blockComment (hk : t.kind = .blockComment) (hs : s.atStart = true) :
      Move o s previous t rest ⟨s.decorate o (commentLines t.text), some t, rest⟩
  | decoration {name : Token} {more tail rest' : List Token} (hr : rest = name :: more)
      (hs : s.atStart = true) (ha : startsAnnotation t rest = true)
      (ht : annotationTail more = some (tail, rest')) :
      Move o s previous t rest
        ⟨s.decorate o [joinTokens (t :: name :: tail)], (t :: name :: tail).getLast?, rest'⟩
  | emptyBlock {next : Token} {rest' : List Token} (hr : rest = next :: rest')
      (ht : t.isPunct ['{'] = true) (hn : s.nesting = []) (ha : s.assigned = false)
      (hc : next.isPunct ['}'] = true) :
      Move o s previous t rest ⟨s.emptyBlock o rest'.head?, some next, rest'⟩
  | openBlock (ht : t.isPunct ['{'] = true) (hn : s.nesting = []) (ha : s.assigned = false)
      (hr : ∀ next, rest.head? = some next → next.isPunct ['}'] = false) :
      Move o s previous t rest ⟨s.openBlock o t.line, some t, rest⟩
  | closeBlock {s' : State} (ht : t.isPunct ['}'] = true) (hn : s.nesting = [])
      (hs : s.closeBlock o t.line rest.head? = .ok s') :
      Move o s previous t rest ⟨s', some t, rest⟩
  | statement (ht : t.isPunct [';'] = true) (hn : s.nesting = []) :
      Move o s previous t rest
        ⟨State.endStatement { s with pending := s.pending ++ [t] } o, some t, rest⟩
  | token {s' : State} (hl : t.kind ≠ .lineComment)
      (hb : t.kind = .blockComment → s.atStart = false)
      (ha : s.atStart = true → startsAnnotation t rest = false)
      (hopen : t.isPunct ['{'] = true → s.nesting = [] → s.assigned = true)
      (hclose : t.isPunct ['}'] = true → s.nesting ≠ [])
      (hend : t.isPunct [';'] = true → s.nesting ≠ [])
      (hp : s.pushToken t = .ok s') :
      Move o s previous t rest ⟨s', some t, rest⟩

theorem startsAnnotation_isPunct {t : Token} {rest : List Token}
    (h : startsAnnotation t rest = true) : t.isPunct ['@'] = true := by
  cases rest with
  | nil => cases h
  | cons next rest =>
    simp only [ startsAnnotation, Bool.and_eq_true] at h
    exact h.1.1

theorem not_startsAnnotation {t : Token} {text : List Char} (h : t.isPunct text = true)
    (hne : text ≠ ['@']) (rest : List Token) : startsAnnotation t rest = false := by
  by_contra ha
  have hat := startsAnnotation_isPunct (eq_true_of_ne_false ha)
  rw [Token.isPunct_iff] at h hat
  exact hne (h.2.symm.trans hat.2)

theorem isPunct_disjoint {t : Token} {a b : List Char} (h : t.isPunct a = true) (hne : a ≠ b) :
    t.isPunct b = false := by
  by_contra hb
  have hb := eq_true_of_ne_false hb
  rw [Token.isPunct_iff] at h hb
  exact hne (h.2.symm.trans hb.2)

theorem kind_of_isContinuation {t : Token} (h : isContinuation (some t) = true) : t.kind = .word := by
  simp only [isContinuation, List.any_eq_true, Token.isTheWord, Bool.and_eq_true] at h
  obtain ⟨_, _, hk, _⟩ := h
  exact eq_of_beq hk

theorem move_of_step {o : Options} {s : State} {previous : Option Token} {t : Token}
    {rest : List Token} {p : Progress} (h : step o s previous t rest = .ok p) :
    Move o s previous t rest p := by
  have mapped {e : Except SourceError State}
      (h : (e.map fun s => (⟨s, some t, rest⟩ : Progress)) = .ok p) :
      ∃ s', e = .ok s' ∧ p = ⟨s', some t, rest⟩ := by
    cases e with
    | error => cases h
    | ok s' => cases h; exact ⟨s', rfl, rfl⟩
  -- each move comes with the tests in front of its own, which have failed
  unfold step at h
  split at h
  · next hk => cases h; exact .lineComment hk
  next hl =>
  split at h
  · next hb => cases h; exact .blockComment hb.1 hb.2
  next hb =>
  split at h
  · next ha =>
    cases rest with
    | nil => cases h
    | cons name more =>
      simp only [ readAnnotation] at h
      split at h
      · next tail rest' ht => cases h; exact .decoration rfl ha.1 ha.2 ht
      · cases h
  next ha =>
  split at h
  · next ho =>
    obtain ⟨ht, hn, has⟩ := ho
    have has : s.assigned = false := eq_false_of_ne_true has
    cases h
    cases rest with
    | nil => exact .openBlock ht (List.isEmpty_iff.1 hn) has (by simp)
    | cons next rest' =>
      simp only [readBrace]
      split
      · next hc => exact .emptyBlock rfl ht (List.isEmpty_iff.1 hn) has hc
      · next hc =>
        refine .openBlock ht (List.isEmpty_iff.1 hn) has fun next' hn' => ?_
        cases hn'
        exact eq_false_of_ne_true hc
  next ho =>
  split at h
  · next hc =>
    obtain ⟨s', hs', rfl⟩ := mapped h
    exact .closeBlock hc.1 (List.isEmpty_iff.1 hc.2) hs'
  next hc =>
  split at h
  · next he =>
    cases h
    exact .statement he.1 (List.isEmpty_iff.1 he.2)
  next he =>
  obtain ⟨s', hs', rfl⟩ := mapped h
  refine .token hl (fun hk => ?_) (fun hs => ?_) (fun ht hn => ?_) (fun ht hn => ?_)
    (fun ht hn => ?_) hs'
  · exact eq_false_of_ne_true fun hs => hb ⟨hk, hs⟩
  · exact eq_false_of_ne_true fun h => ha ⟨hs, h⟩
  · exact eq_true_of_ne_false fun h => ho ⟨ht, by simp [hn], by simp [h]⟩
  · exact hc ⟨ht, by simp [hn]⟩
  · exact he ⟨ht, by simp [hn]⟩

theorem step_of_move {o : Options} {s : State} {previous : Option Token} {t : Token}
    {rest : List Token} {p : Progress} (h : Move o s previous t rest p) :
    step o s previous t rest = .ok p := by
  have punct {text : List Char} (ht : t.isPunct text = true) (hne : text ≠ ['@']) :
      t.kind ≠ .lineComment ∧ ¬ (t.kind = .blockComment ∧ s.atStart = true) ∧
        ¬ (s.atStart = true ∧ startsAnnotation t rest = true) := by
    have hk := (Token.isPunct_iff.1 ht).1
    refine ⟨by simp [hk], by simp [hk], fun ha => ?_⟩
    rw [ not_startsAnnotation ht hne] at ha
    exact absurd ha.2 (by decide)
  cases h with
  | lineComment hk => simp [step, hk]
  | blockComment hk hs => simp [step, hk, hs]
  | decoration hr hs ha ht =>
    have hk := (Token.isPunct_iff.1 (startsAnnotation_isPunct ha)).1
    subst hr
    simp [step, hk, hs, ha, readAnnotation, ht]
  | emptyBlock hr ht hn ha hc =>
    obtain ⟨h1, h2, h3⟩ := punct ht (by decide)
    unfold step
    rw [if_neg h1, if_neg h2, if_neg h3, if_pos ⟨ht, by simp [hn], by simp [ha]⟩, hr]
    simp [readBrace, hc]
  | openBlock ht hn ha hr =>
    obtain ⟨h1, h2, h3⟩ := punct ht (by decide)
    unfold step
    rw [if_neg h1, if_neg h2, if_neg h3, if_pos ⟨ht, by simp [hn], by simp [ha]⟩]
    cases rest with
    | nil => rfl
    | cons next rest' => simp [readBrace, hr next rfl]
  | closeBlock ht hn hs =>
    obtain ⟨h1, h2, h3⟩ := punct ht (by decide)
    have ho : t.isPunct ['{'] = false := isPunct_disjoint ht (by decide)
    unfold step
    rw [if_neg h1, if_neg h2, if_neg h3, if_neg (by simp [ho]),
      if_pos ⟨ht, by simp [hn]⟩, hs]
    rfl
  | statement ht hn =>
    obtain ⟨h1, h2, h3⟩ := punct ht (by decide)
    have ho : t.isPunct ['{'] = false := isPunct_disjoint ht (by decide)
    have hc : t.isPunct ['}'] = false := isPunct_disjoint ht (by decide)
    unfold step
    rw [if_neg h1, if_neg h2, if_neg h3, if_neg (by simp [ho]), if_neg (by simp [hc]),
      if_pos ⟨ht, by simp [hn]⟩]
  | token hl hb ha hopen hclose hend hp =>
    unfold step
    rw [if_neg hl, if_neg, if_neg, if_neg, if_neg, if_neg, hp]
    · rfl
    · rintro ⟨ht, hn⟩
      exact hend ht (List.isEmpty_iff.1 hn)
    · rintro ⟨ht, hn⟩
      exact hclose ht (List.isEmpty_iff.1 hn)
    · rintro ⟨ht, hn, has⟩
      exact has (hopen ht (List.isEmpty_iff.1 hn))
    · rintro ⟨hs, hsa⟩
      rw [ha hs] at hsa
      cases hsa
    · rintro ⟨hk, hs⟩
      rw [hb hk] at hs
      cases hs

theorem step_eq_ok_iff {o : Options} {s : State} {previous : Option Token} {t : Token}
    {rest : List Token} {p : Progress} :
    step o s previous t rest = .ok p ↔ Move o s previous t rest p :=
  ⟨move_of_step, step_of_move⟩

/-- A run of a layout from one state to another that reads all tokens. -/
inductive Trace (o : Options) : State → Option Token → List Token → State → Prop
  | nil (s : State) (previous : Option Token) : Trace o s previous [] s
  | cons {s s' : State} {previous : Option Token} {t : Token} {rest : List Token} {p : Progress}
      (h : Move o s previous t rest p) (ht : Trace o p.state p.previous p.rest s') :
      Trace o s previous (t :: rest) s'

theorem trace_of_run {o : Options} {s s' : State} {previous : Option Token} {ts : List Token}
    (h : run o s previous ts = .ok s') : Trace o s previous ts s' := by
  induction hn : ts.length using Nat.strong_induction_on generalizing s previous ts with
  | _ n ih =>
  subst hn
  cases ts with
  | nil =>
    rw [run] at h
    cases h
    exact .nil _ _
  | cons t rest =>
    rw [run] at h
    split at h
    · cases h
    · next p hp => exact .cons (move_of_step hp) (ih _ (Nat.lt_succ_of_le (step_rest hp)) h rfl)

theorem run_of_trace {o : Options} {s s' : State} {previous : Option Token} {ts : List Token}
    (h : Trace o s previous ts s') : run o s previous ts = .ok s' := by
  induction h with
  | nil s previous => rw [run]
  | cons h ht ih =>
    rw [run]
    split
    · next e he => rw [step_of_move h] at he; cases he
    · next p hp =>
      rw [step_of_move h] at hp
      cases hp
      exact ih

/-- What one step of a run reads. -/
structure Visit where
  /-- The state in front of the step. -/
  state : State
  /-- The tokens that the step reads. -/
  taken : List Token
  /-- The tokens behind them. -/
  rest : List Token

/-- The steps of a run, in order. -/
def visits (o : Options) (s : State) (previous : Option Token) : List Token → List Visit
  | [] => []
  | t :: rest =>
    match h : step o s previous t rest with
    | .error _ => []
    | .ok p =>
      have := step_rest h
      ⟨s, (t :: rest).take (rest.length + 1 - p.rest.length), p.rest⟩ ::
        visits o p.state p.previous p.rest
termination_by ts => ts.length
decreasing_by simp only [List.length_cons]; omega

@[simp] theorem visits_nil (o : Options) (s : State) (previous : Option Token) :
    visits o s previous [] = [] := by
  rw [visits]

theorem visits_cons {o : Options} {s : State} {previous : Option Token} {t : Token}
    {rest taken : List Token} {p : Progress} (h : Move o s previous t rest p)
    (ht : t :: rest = taken ++ p.rest) :
    visits o s previous (t :: rest) =
      ⟨s, taken, p.rest⟩ :: visits o p.state p.previous p.rest := by
  have hl : rest.length + 1 - p.rest.length = taken.length := by
    have hlen := congrArg List.length ht
    simp only [List.length_cons, List.length_append] at hlen
    omega
  rw [visits]
  split
  · next e he =>
    rw [step_of_move h] at he
    cases he
  · next p' hp =>
    rw [step_of_move h] at hp
    cases hp
    rw [hl, ht, List.take_left]

theorem exists_taken {o : Options} {s : State} {previous : Option Token} {t : Token}
    {rest : List Token} {p : Progress} (h : Move o s previous t rest p) :
    ∃ taken, t :: rest = taken ++ p.rest ∧ p.previous = taken.getLast? ∧ taken ≠ [] := by
  cases h with
  | lineComment => exact ⟨[t], rfl, rfl, by simp⟩
  | blockComment => exact ⟨[t], rfl, rfl, by simp⟩
  | @decoration name more tail rest' hr hs ha ht =>
    refine ⟨t :: name :: tail, ?_, rfl, by simp⟩
    rw [hr, ← annotationTail_append ht]
    rfl
  | @emptyBlock next rest' hr => exact ⟨[t, next], by rw [hr]; rfl, rfl, by simp⟩
  | openBlock => exact ⟨[t], rfl, rfl, by simp⟩
  | closeBlock => exact ⟨[t], rfl, rfl, by simp⟩
  | statement => exact ⟨[t], rfl, rfl, by simp⟩
  | token => exact ⟨[t], rfl, rfl, by simp⟩

end Layout

end JpaScaffold.Java
