import JpaScaffold.Java.Layout.State
import JpaScaffold.Java.Lexer

/-!
Layout of Java source. The tokens are read from left to right; statements are written on a line
each, blocks are set in, members of a type are separated by empty lines, and imports are sorted.
Main statement: a step reads on; it leaves no more than the tokens behind the first one.
-/
namespace JpaScaffold.Java.Layout

/-- A layout in progress: its state, the token read last, and the tokens to come. -/
structure Progress where
  state : State
  previous : Option Token
  rest : List Token
  deriving DecidableEq

/-- No statement has begun and none is continued. -/
def State.atStart (s : State) : Bool := s.pending.isEmpty && s.carry.isNone

/-- An annotation in front of a member, whose first two tokens are `t` and `name`. -/
def readAnnotation (o : Options) (s : State) (t name : Token) (rest : List Token) :
    Except SourceError Progress :=
  match annotationTail rest with
  | some (tail, rest') =>
    let taken := t :: name :: tail
    .ok ⟨s.decorate o [joinTokens taken], taken.getLast?, rest'⟩
  | none => .error ⟨t.line, .openAnnotationArguments⟩

/-- An opening brace outside all brackets and initial values. -/
def readBrace (o : Options) (s : State) (t : Token) (rest : List Token) : Progress :=
  match rest with
  | next :: rest' =>
    if next.isPunct ['}'] then ⟨s.emptyBlock o rest'.head?, some next, rest'⟩
    else ⟨s.openBlock o t.line, some t, rest⟩
  | [] => ⟨s.openBlock o t.line, some t, rest⟩

/-- Reads the token `t`, with what belongs to it. -/
def step (o : Options) (s : State) (previous : Option Token) (t : Token) (rest : List Token) :
    Except SourceError Progress :=
  if t.kind = .lineComment then .ok ⟨s.lineComment o t previous, some t, rest⟩
  else if t.kind = .blockComment ∧ s.atStart then
    .ok ⟨s.decorate o (commentLines t.text), some t, rest⟩
  else if s.atStart ∧ startsAnnotation t rest then
    match rest with
    | name :: rest' => readAnnotation o s t name rest'
    | [] => .error ⟨t.line, .openAnnotationArguments⟩
  else if t.isPunct ['{'] ∧ s.nesting.isEmpty ∧ ¬ s.assigned then .ok (readBrace o s t rest)
  else if t.isPunct ['}'] ∧ s.nesting.isEmpty then
    (s.closeBlock o t.line rest.head?).map fun s => ⟨s, some t, rest⟩
  else if t.isPunct [';'] ∧ s.nesting.isEmpty then
    .ok ⟨State.endStatement { s with pending := s.pending ++ [t] } o, some t, rest⟩
  else (s.pushToken t).map fun s => ⟨s, some t, rest⟩

theorem readAnnotation_rest {o : Options} {s : State} {t name : Token} {rest : List Token}
    {p : Progress} (h : readAnnotation o s t name rest = .ok p) :
    p.rest.length ≤ rest.length := by
  unfold readAnnotation at h
  split at h
  · next tail rest' ht =>
    cases h
    simp [← annotationTail_append ht]
  · cases h

theorem readBrace_rest (o : Options) (s : State) (t : Token) (rest : List Token) :
    (readBrace o s t rest).rest.length ≤ rest.length := by
  unfold readBrace
  split
  · split <;> simp
  · simp

/-- A step reads on: what it leaves is no longer than the tokens behind the one it starts with. -/
theorem step_rest {o : Options} {s : State} {previous : Option Token} {t : Token}
    {rest : List Token} {p : Progress} (h : step o s previous t rest = .ok p) :
    p.rest.length ≤ rest.length := by
  have mapped {e : Except SourceError State}
      (h : (e.map fun s => (⟨s, some t, rest⟩ : Progress)) = .ok p) :
      p.rest.length ≤ rest.length := by
    cases e with
    | error => cases h
    | ok => cases h; exact Nat.le_refl _
  unfold step at h
  split at h
  · cases h; exact Nat.le_refl _
  · split at h
    · cases h; exact Nat.le_refl _
    · split at h
      · split at h
        · have := readAnnotation_rest h
          simp only [List.length_cons]
          omega
        · cases h
      · split at h
        · cases h; exact readBrace_rest o s t rest
        · split at h
          · exact mapped h
          · split at h
            · cases h; exact Nat.le_refl _
            · exact mapped h

def run (o : Options) (s : State) (previous : Option Token) :
    List Token → Except SourceError State
  | [] => .ok s
  | t :: rest =>
    match h : step o s previous t rest with
    | .error e => .error e
    | .ok p =>
      have := step_rest h
      run o p.state p.previous p.rest
termination_by ts => ts.length
decreasing_by simp only [List.length_cons]; omega

/-- The text of the lines, each ended by a line feed. -/
def unlines (lines : List (List Char)) : List Char := lines.flatMap fun l => l ++ ['\n']

/-- The text of a finished layout. Nothing may be left open. -/
def finish (o : Options) (s : State) : Except SourceError (List Char) :=
  if !s.pending.isEmpty then .error (State.danglingAt s.pending)
  else
    match s.nesting, s.outer with
    | (bracket, line) :: _, _ => .error ⟨line, .missing bracket⟩
    | [], _ :: _ => .error ⟨s.scope.openedAt, .missing .curly⟩
    | [], [] =>
      let s := match s.carry with
        | some closed => { s with carry := none }.pushLine o closed
        | none => s
      .ok (unlines s.flushImports.out)

def layoutTokens (o : Options) (tokens : List Token) : Except SourceError (List Char) :=
  (run o {} none tokens).bind (finish o)

def format (o : Options) (source : List Char) : Except SourceError (List Char) :=
  (tokenize source).bind (layoutTokens o)

end JpaScaffold.Java.Layout
