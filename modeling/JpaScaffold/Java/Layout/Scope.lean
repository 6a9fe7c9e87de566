import JpaScaffold.Java.Token

/-!
The places that members of a layout stand in, and how a member is recognised by its tokens.
-/
namespace JpaScaffold.Java.Layout

/-- How wide a step of indentation is, and how wide a line may be. -/
structure Options where
  tabWidth : Nat
  printWidth : Nat
  deriving DecidableEq

/-- What the members of a block are: declarations of a file, members of a type, constants and
members of an enumeration, or statements. -/
inductive ScopeKind where
  | file
  | type
  | enum
  | code
  deriving DecidableEq

/-- A block that is not closed yet. -/
structure Scope where
  kind : ScopeKind
  /-- The line of its opening brace. -/
  openedAt : Nat
  /-- Comments or annotations of a member that is not finished were written. -/
  inElement : Bool := false
  /-- The member before was a field without comments and annotations. -/
  afterField : Bool := false
  deriving DecidableEq

def typeKeywords : List (List Char) :=
  ["class".toList, "interface".toList, "enum".toList, "record".toList]

/-- The words that continue the statement whose block was closed. -/
def continuations : List (List Char) := ["else".toList, "catch".toList, "finally".toList]

/-- The block behind a header: the first type keyword decides. -/
def blockKind (header : List Token) : ScopeKind :=
  match header.find? (fun t => typeKeywords.any t.isTheWord) with
  | some t => if t.text = "enum".toList then .enum else .type
  | none => .code

/-- A declaration is a field unless a parameter list comes before any initial value. -/
def isField : List Token → Bool
  | [] => true
  | t :: rest =>
    if t.isPunct ['='] then true
    else if t.isPunct ['('] then false
    else isField rest

/-- The next token continues the statement whose block is closed. -/
def isContinuation : Option Token → Bool
  | some t => continuations.any t.isTheWord
  | none => false

/-- An annotation starts here: `@` and a word, but not the declaration of an annotation type. -/
def startsAnnotation (t : Token) : List Token → Bool
  | next :: _ => t.isPunct ['@'] && next.isWord && next.text != "interface".toList
  | [] => false

/-- The tokens in front that continue a dotted name. -/
def dottedTail : List Token → List Token × List Token
  | dot :: name :: rest =>
    if dot.isPunct ['.'] && name.isWord then
      let (taken, left) := dottedTail rest
      (dot :: name :: taken, left)
    else ([], dot :: name :: rest)
  | ts => ([], ts)

/-- The tokens up to and with the closing parenthesis that matches one already open; `inner` counts
the parentheses that are open inside it. -/
def argumentTail (inner : Nat) : List Token → Option (List Token × List Token)
  | [] => none
  | t :: rest =>
    if t.isPunct ['('] then (argumentTail (inner + 1) rest).map fun (a, r) => (t :: a, r)
    else if t.isPunct [')'] then
      match inner with
      | 0 => some ([t], rest)
      | n + 1 => (argumentTail n rest).map fun (a, r) => (t :: a, r)
    else (argumentTail inner rest).map fun (a, r) => (t :: a, r)

/-- The rest of an annotation behind `@` and its first word, and the tokens after it; `none` if its
parenthesis stays open. -/
def annotationTail (ts : List Token) : Option (List Token × List Token) :=
  match dottedTail ts with
  | (name, t :: rest) =>
    if t.isPunct ['('] then (argumentTail 0 rest).map fun (a, r) => (name ++ t :: a, r)
    else some (name, t :: rest)
  | (name, []) => some (name, [])

theorem dottedTail_append (ts : List Token) : (dottedTail ts).1 ++ (dottedTail ts).2 = ts := by
  fun_induction dottedTail ts <;> simp_all

theorem argumentTail_append {inner : Nat} {ts a r : List Token}
    (h : argumentTail inner ts = some (a, r)) : a ++ r = ts := by
  induction ts generalizing inner a r with
  | nil => simp [argumentTail] at h
  | cons t rest ih =>
    have push {o : Option (List Token × List Token)} (ho : ∀ a r, o = some (a, r) → a ++ r = rest)
        (h : (o.map fun (a, r) => (t :: a, r)) = some (a, r)) : a ++ r = t :: rest := by
      obtain ⟨⟨a', r'⟩, h', he⟩ := Option.map_eq_some_iff.1 h
      simp only [Prod.mk.injEq] at he
      simp [← he.1, ← he.2, ho _ _ h']
    unfold argumentTail at h
    split at h
    · exact push (fun _ _ => ih) h
    · split at h
      · split at h
        · simp only [Option.some.injEq, Prod.mk.injEq] at h
          simp [← h.1, ← h.2]
        · exact push (fun _ _ => ih) h
      · exact push (fun _ _ => ih) h

/-- An annotation loses no token. -/
theorem annotationTail_append {ts a r : List Token} (h : annotationTail ts = some (a, r)) :
    a ++ r = ts := by
  have hd := dottedTail_append ts
  unfold annotationTail at h
  split at h
  · next name t rest hs =>
    rw [hs] at hd
    split at h
    · obtain ⟨⟨a', r'⟩, h', he⟩ := Option.map_eq_some_iff.1 h
      simp only [Prod.mk.injEq] at he
      simp [← he.1, ← he.2, ← hd, ← argumentTail_append h']
    · simp only [Option.some.injEq, Prod.mk.injEq] at h
      simpa [← h.1, ← h.2] using hd
  · next name hs =>
    rw [hs] at hd
    simp only [Option.some.injEq, Prod.mk.injEq] at h
    simpa [← h.1, ← h.2] using hd

end JpaScaffold.Java.Layout
