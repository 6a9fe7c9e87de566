import JpaScaffold.Proofs.Layout.Stack

/-!
# Reading by position

The loop looks for the next tokens by their positions, a layout has them in front of it. What the
loop finds is there, so one pass of the loop is one step of the layout, and the whole loop is a run.
-/
namespace JpaScaffold.Java.Layout

/-! ## Annotations -/

theorem dottedEnd_eq : ∀ (j : Nat) (ts : List Token), dottedEnd j ts = j + (dottedTail ts).1.length
  | _, [] => rfl
  | _, [_] => rfl
  | j, dot :: name :: rest => by
    rw [dottedEnd, dottedTail]
    split
    · rw [dottedEnd_eq (j + 2) rest]
      change _ = j + ((dottedTail rest).1.length + 2)
      omega
    · rfl

/-- What an annotation takes, as the end of what it takes. -/
def endBehind (line j : Nat) (taken : Option (List Token × List Token)) : Except Stop Nat :=
  match taken with
  | some (tail, _) => .ok (j + tail.length)
  | none => .error (.source ⟨line, .openAnnotationArguments⟩)

theorem endBehind_cons (line j : Nat) (t : Token) (taken : Option (List Token × List Token)) :
    endBehind line j (taken.map fun (tail, rest) => (t :: tail, rest)) =
      endBehind line (j + 1) taken := by
  cases taken with
  | none => rfl
  | some taken =>
    rw [Option.map_some, endBehind, endBehind, List.length_cons]
    congr 1
    omega

theorem argumentsEnd_eq (line inner j : Nat) (ts : List Token) :
    argumentsEnd line (inner + 1) j ts = endBehind line j (argumentTail inner ts) := by
  induction ts generalizing inner j with
  | nil => rfl
  | cons t rest ih =>
    rw [argumentsEnd, argumentTail.eq_def]
    dsimp only
    split
    · rw [ih, endBehind_cons]
    · split
      · rw [minus_succ, ok_bind]
        cases inner with
        | zero => rfl
        | succ inner => rw [if_neg (by omega), ih, endBehind_cons]
      · rw [ih, endBehind_cons]

theorem annotationEnd_eq (before : List Token) (t name : Token) (more : List Token) :
    annotationEnd (before ++ t :: name :: more) before.length =
      endBehind t.line (before.length + 2) (annotationTail more) := by
  have hbehind : (before ++ t :: name :: more).drop (before.length + 2) = more := by
    rw [← List.drop_drop, List.drop_left]
    rfl
  rw [annotationEnd, hbehind, dottedEnd_eq, annotationTail]
  have happend := dottedTail_append more
  revert happend
  generalize dottedTail more = split
  obtain ⟨dotted, left⟩ := split
  intro happend
  dsimp only at happend ⊢
  have hdrop : (before ++ t :: name :: more).drop (before.length + 2 + dotted.length) = left := by
    rw [← List.drop_drop, hbehind, ← happend, List.drop_left]
  rw [← List.head?_drop, hdrop, elementAt_append_cons]
  cases left with
  | nil => rfl
  | cons u left =>
    rw [List.head?_cons, Option.any_some]
    dsimp only
    split
    · next hopen =>
      have hcount : argumentsEnd t.line 0 (before.length + 2 + dotted.length) (u :: left) =
          argumentsEnd t.line 1 (before.length + 2 + dotted.length + 1) left := by
        rw [argumentsEnd, if_pos hopen]
      rw [ok_bind, hcount, argumentsEnd_eq]
      cases argumentTail 0 left with
      | none => rfl
      | some taken =>
        simp only [endBehind, Option.map_some, List.length_append, List.length_cons]
        congr 1
        omega
    · rfl

/-! ## One pass of the loop -/

theorem tokenBefore_eq (before : List Token) (t : Token) (rest : List Token) :
    tokenBefore (before ++ t :: rest) before.length = .ok before.getLast? := by
  cases before using List.reverseRecOn with
  | nil => rfl
  | append_singleton before p _ =>
    have hlook : elementAt (before ++ p :: t :: rest) (before.length + 1 - 1) = .ok p :=
      elementAt_append_cons before (t :: rest) p
    rw [tokenBefore, if_neg (by simp), List.append_assoc, List.length_append, List.length_singleton,
      List.singleton_append, hlook, List.getLast?_concat]
    rfl

/-- Where the loop goes on behind a step, and with what. -/
def Progress.onStack (tokens : List Token) (p : Progress) : Nat × Machine :=
  (tokens.length - p.rest.length, p.state.machine)

/-- What a step returns, as a pass of the loop returns it. -/
def passed (tokens : List Token) (e : Except SourceError Progress) : Except Stop (Nat × Machine) :=
  (e.map (Progress.onStack tokens)).mapError .source

theorem passed_ok (before taken rest : List Token) (s : State) (previous : Option Token) :
    passed (before ++ (taken ++ rest)) (.ok ⟨s, previous, rest⟩) =
      .ok (before.length + taken.length, s.machine) := by
  simp [passed, Progress.onStack, Except.map, Except.mapError]
  omega

theorem passed_map (before rest : List Token) (t : Token) (previous : Option Token)
    (e : Except SourceError State) :
    passed (before ++ t :: rest) (e.map fun s => ⟨s, previous, rest⟩) =
      (onStack e).map (before.length + 1, ·) := by
  cases e with
  | error e => rfl
  | ok s => exact passed_ok before [t] rest s previous

theorem annotationPass_eq (o : Options) (s : State) (before : List Token) (t name : Token)
    (more : List Token) :
    annotationPass o (before ++ t :: name :: more) before.length s.machine =
      passed (before ++ t :: name :: more) ( readAnnotation o s t name more) := by
  rw [annotationPass, annotationEnd_eq, readAnnotation]
  cases htail : annotationTail more with
  | none => rfl
  | some taken =>
    obtain ⟨tail, rest⟩ := taken
    have hmore := annotationTail_append htail
    have hslice := slice_append before (t :: name :: tail) rest
    have hpassed := passed_ok before (t :: name :: tail) rest
    have htokens : before ++ t :: name :: more = before ++ (t :: name :: tail ++ rest) := by
      rw [← hmore]
      rfl
    have hend : before.length + 2 + tail.length = before.length + (t :: name :: tail).length := by
      simp only [List.length_cons]
      omega
    rw [htokens]
    dsimp only [endBehind]
    rw [ok_bind, hend, hslice, ok_bind, machine_decorate, hpassed]
    rfl

/-- One pass of the loop is one step of the layout. -/
theorem iterate_eq (o : Options) (s : State) (before : List Token) (t : Token) (rest : List Token) :
    iterate o (before ++ t :: rest) before.length s.machine =
      passed (before ++ t :: rest) (step o s before.getLast? t rest) := by
  have hdrop : (before ++ t :: rest).drop (before.length + 1) = rest := by
    rw [← List.drop_drop, List.drop_left]
    rfl
  have hnext : (before ++ t :: rest)[before.length + 1]? = rest.head? := by
    rw [← List.head?_drop, hdrop]
  have hone := passed_ok before [t] rest
  rw [List.singleton_append, List.length_singleton] at hone
  rw [iterate, elementAt_append_cons, ok_bind, tokenBefore_eq, ok_bind, hdrop, hnext, machine_pending,
    machine_carry, machine_nesting, machine_assigned, step.eq_def]
  simp only [← State.atStart.eq_1]
  -- the two make the same tests in the same order
  split
  · rw [machine_lineComment, hone]
    rfl
  split
  · rw [machine_decorate, hone]
    rfl
  split
  · next ha =>
    cases rest with
    | nil => cases ha.2
    | cons name more => exact annotationPass_eq o s before t name more
  split
  · cases rest with
    | nil =>
      rw [List.head?_nil, Option.any_none, if_neg (by decide), machine_openBlock, readBrace, hone]
      rfl
    | cons next rest =>
      have hfar : (before ++ t :: next :: rest)[before.length + 2]? = rest.head? := by
        rw [← List.head?_drop, ← List.drop_drop, List.drop_left]
        rfl
      rw [List.head?_cons, Option.any_some, readBrace]
      split
      · have htwo := passed_ok before [t, next] rest
        rw [hfar, machine_emptyBlock]
        exact (htwo _ _).symm
      · rw [machine_openBlock, hone]
        rfl
  split
  · rw [machine_closeBlock, passed_map]
  split
  · have hend := machine_endStatement { s with pending := s.pending ++ [t] } o
    rw [hone]
    exact congrArg (Except.map (before.length + 1, ·)) hend
  · rw [machine_pushToken, passed_map]

end JpaScaffold.Java.Layout
