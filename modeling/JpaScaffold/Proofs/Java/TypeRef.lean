import JpaScaffold.Java.TypeRef
import JpaScaffold.Proofs.Text.Trim

/-!
# Types as texts

A name without blanks, brackets and commas writes the type of that name.
-/
namespace JpaScaffold.Java.TypeRef

theorem readDims_nil : readDims [] = (0, []) := by
  rw [readDims]
  simp [Text.trimStart]

/-- The name of a type is read as that type. -/
theorem parse_name {s : String} (hn : isQualifiedName s.toList = true)
    (ht : Text.trim s.toList = s.toList) (he : s.toList.all (!endsName ·) = true) :
    parse s = .ok (.mk s [] 0) := by
  have hne : s.toList ≠ [] := by
    intro h
    rw [h] at hn
    revert hn
    decide
  have htake : s.toList.takeWhile (!endsName ·) = s.toList :=
    List.takeWhile_eq_self_iff.2 (List.all_eq_true.1 he)
  have hdrop : s.toList.dropWhile (!endsName ·) = [] :=
    List.dropWhile_eq_nil_iff.2 (List.all_eq_true.1 he)
  have hs : s.isEmpty = false := by
    cases hs : s.isEmpty with
    | false => rfl
    | true =>
      rw [String.isEmpty_iff] at hs
      simp [hs] at hne
  have hname : readName s.toList = some (s, []) := by
    unfold readName
    rw [htake, ht, String.ofList_toList, qualifiedName, if_neg (by simp [hs]), if_pos hn, hdrop]
  have hread : read s.toList =
      some ⟨(.mk s [] 0, []), by simpa using List.length_pos_iff.2 hne⟩ := by
    unfold read
    split
    · next h =>
      rw [hname] at h
      cases h
    · next name rest h =>
      rw [hname] at h
      cases h
    · next name rest h' h =>
      rw [hname] at h
      cases h
      simp [readDims_nil]
  have hempty : s.toList.isEmpty = false := by simpa using hne
  have hblank : Text.trim [] = [] := rfl
  unfold parse
  generalize Text.trim s.toList = cs at ht
  subst ht
  simp only [hempty, hread, hblank, List.isEmpty_nil, Bool.false_eq_true, if_false, if_true]

end JpaScaffold.Java.TypeRef
