import JpaScaffold.Java.SourceError
import JpaScaffold.Proofs.Results

/-!
# Accesses that are checked

A list is looked into by position, and cut between two positions. Where the position is not there, or
more is taken away from a number than there is, the access fails; nothing stands in for what is
missing.
-/
namespace JpaScaffold.Java.Layout

/-- Why a loop by positions stops: an access fails, the loop goes on too long, or the source is
wrong. -/
inductive Stop where
  | access
  | endless
  | source (e : SourceError)
  deriving DecidableEq

variable {α : Type}

def elementAt (l : List α) (i : Nat) : Except Stop α :=
  match l[i]? with
  | some a => .ok a
  | none => .error .access

def slice (l : List α) (i j : Nat) : Except Stop (List α) :=
  if i ≤ j ∧ j ≤ l.length then .ok ((l.drop i).take (j - i)) else .error .access

def minus (i j : Nat) : Except Stop Nat := if j ≤ i then .ok (i - j) else .error .access

theorem elementAt_append_cons (before behind : List α) (a : α) :
    elementAt (before ++ a :: behind) before.length = .ok a := by
  simp [elementAt]

theorem minus_succ (i : Nat) : minus (i + 1) 1 = .ok i := if_pos (by omega)

theorem slice_append (before l behind : List α) :
    slice (before ++ (l ++ behind)) before.length (before.length + l.length) = .ok l := by
  rw [slice, if_pos ⟨by omega, by simp⟩]
  simp

theorem slice_front (l behind : List α) : slice (l ++ behind) 0 l.length = .ok l := by
  have h := slice_append [] l behind
  rwa [List.nil_append, List.length_nil, Nat.zero_add] at h

theorem slice_end (before l : List α) :
    slice (before ++ l) before.length (before ++ l).length = .ok l := by
  have h := slice_append before l []
  rwa [List.append_nil, ← List.length_append] at h

end JpaScaffold.Java.Layout
