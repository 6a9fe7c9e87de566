import JpaScaffold.Proofs.Layout.Checked
import JpaScaffold.Proofs.Layout.Pieces

/-!
# The points before which a statement is broken

A statement is broken before each point that stands outside all brackets and directly behind a closing
parenthesis. The positions of these points are found in one pass, and the slices between them are the
pieces of the statement.
-/
namespace JpaScaffold.Java.Layout

variable {ts before : List Token} {t p : Token} {pieces : List (List Token)} {depth n : Nat}

/-- The position `n` of the token `t`, if that is a point outside all brackets and the token before it
is a closing parenthesis. -/
def breakAt (tokens : List Token) (depth n : Nat) (t : Token) : Except Stop (List Nat) :=
  if t.isPunct ['.'] && depth == 0 && decide (0 < n) then
    (elementAt tokens (n - 1)).map fun p => if p.isPunct [')'] then [n] else []
  else .ok []

/-- The positions of the points before which the tokens from position `n` on are broken, where
`depth` brackets are open in front of them. -/
def breaksFrom (tokens : List Token) (depth n : Nat) : List Token → Except Stop (List Nat)
  | [] => .ok []
  | t :: rest => do
    let here ← breakAt tokens depth n t
    let more ← breaksFrom tokens (depthBehind depth t) (n + 1) rest
    return here ++ more

/-- The positions of the points before which a statement is broken. -/
def chainBreaks (tokens : List Token) : Except Stop (List Nat) := breaksFrom tokens 0 0 tokens

/-- The slices of the tokens that start at the given positions, each up to the next one. -/
def slicesAt (tokens : List Token) : List Nat → Except Stop (List (List Token))
  | [] => .ok []
  | [start] => do
    let last ← slice tokens start tokens.length
    return [last]
  | start :: next :: starts => do
    let piece ← slice tokens start next
    let more ← slicesAt tokens (next :: starts)
    return piece :: more

/-- The positions at which pieces start, of which the first one starts at `n`. -/
def startsOf (n : Nat) : List (List Token) → List Nat
  | [] => []
  | piece :: pieces => n :: startsOf (n + piece.length) pieces

theorem slicesAt_startsOf (before : List Token) (pieces : List (List Token)) :
    slicesAt (before ++ pieces.flatten) (startsOf before.length pieces) = .ok pieces := by
  induction pieces generalizing before with
  | nil => rfl
  | cons piece pieces ih =>
    have hmore := ih (before ++ piece)
    rw [List.append_assoc, List.length_append, ← List.flatten_cons] at hmore
    cases pieces with
    | nil =>
      rw [startsOf, startsOf, slicesAt, List.flatten_singleton, slice_end]
      rfl
    | cons next pieces =>
      rw [startsOf] at hmore ⊢
      rw [startsOf, slicesAt, hmore, List.flatten_cons, slice_append]
      rfl

theorem startsOf_pieces (depth n : Nat) (t p : Token) (rest : List Token) :
    startsOf (n + (chainPieces depth (p :: t :: rest)).1.length) (chainPieces depth (p :: t :: rest)).2 =
      (if breaksBetween depth p t then [n + 1] else []) ++
        startsOf (n + 1 + (chainPieces (depthBehind depth p) (t :: rest)).1.length)
          (chainPieces (depthBehind depth p) (t :: rest)).2 := by
  rw [chainPieces_cons_cons]
  split
  · rfl
  · rw [List.length_cons, List.nil_append]
    congr 1
    omega

theorem breakAt_eq (depth : Nat) (before : List Token) (p t : Token) (rest : List Token) :
    breakAt (before ++ p :: t :: rest) (depthBehind depth p) (before.length + 1) t =
      .ok (if breaksBetween depth p t then [before.length + 1] else []) := by
  have hlook : elementAt (before ++ p :: t :: rest) (before.length + 1 - 1) = .ok p :=
    elementAt_append_cons before (t :: rest) p
  rw [breakAt, hlook]
  cases hdot : t.isPunct ['.'] <;> cases hcall : p.isPunct [')'] <;>
    cases hdepth : decide (depthBehind depth p = 0) <;>
      simp_all [breaksBetween, Except.map]

theorem breaksFrom_eq (depth : Nat) (before : List Token) (p : Token) (rest : List Token) :
    breaksFrom (before ++ p :: rest) (depthBehind depth p) (before.length + 1) rest =
      .ok (startsOf (before.length + (chainPieces depth (p :: rest)).1.length)
        (chainPieces depth (p :: rest)).2) := by
  induction rest generalizing depth before p with
  | nil => rfl
  | cons t rest ih =>
    have hmore := ih (depthBehind depth p) (before ++ [p]) t
    rw [List.append_assoc, List.singleton_append, List.length_append, List.length_singleton] at hmore
    rw [breaksFrom, breakAt_eq, ok_bind, hmore, ok_bind, startsOf_pieces]
    rfl

theorem chainBreaks_eq (ts : List Token) :
    chainBreaks ts = .ok (startsOf (chainPieces 0 ts).1.length (chainPieces 0 ts).2) := by
  cases ts with
  | nil => rfl
  | cons t rest =>
    have hmore := breaksFrom_eq 0 [] t rest
    rw [List.nil_append, List.length_nil, Nat.zero_add, Nat.zero_add] at hmore
    have hhere : breakAt (t :: rest) 0 0 t = .ok [] := by simp [breakAt]
    rw [chainBreaks, breaksFrom, hhere, ok_bind, hmore]
    rfl

theorem slicesAt_chainBreaks (ts : List Token) :
    slicesAt ts (startsOf (chainPieces 0 ts).1.length (chainPieces 0 ts).2) =
      .ok (chainPieces 0 ts).2 := by
  have h := slicesAt_startsOf (chainPieces 0 ts).1 (chainPieces 0 ts).2
  rwa [chainPieces_append] at h

end JpaScaffold.Java.Layout
