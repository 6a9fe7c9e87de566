import JpaScaffold.Proofs.Java.Build
import JpaScaffold.Proofs.Text.Trim

/-!
# Sets of imports

A set of imports holds trimmed dotted names, each once. Adding names keeps that, loses none, and
adding the names of a set to an empty one leads to the set again.
-/
namespace JpaScaffold.Java.ImportSet

variable {s s' : ImportSet} {name : String} {names : List String}

/-- Every name is trimmed, is a dotted name, and stands in the set once. -/
structure Sound (s : ImportSet) : Prop where
  nodup : s.names.Nodup
  trimmed : ∀ n ∈ s.names, Text.mapChars Text.trim n = n
  qualified : ∀ n ∈ s.names, isQualifiedName n.toList = true

theorem sound_empty : Sound {} := ⟨.nil, List.forall_mem_nil _, List.forall_mem_nil _⟩

theorem trim_trim (name : String) :
    Text.mapChars Text.trim (Text.mapChars Text.trim name) = Text.mapChars Text.trim name := by
  rw [Text.mapChars, Text.toList_mapChars, Text.trim_trim]
  rfl

theorem add_of_mem (h : Text.mapChars Text.trim name ∈ s.names) : s.add name = .ok s :=
  if_pos (List.contains_iff_mem.2 h)

theorem add_of_notMem (h : Text.mapChars Text.trim name ∉ s.names) :
    s.add name = (qualifiedName .importName (Text.mapChars Text.trim name)).map
      fun name => ⟨s.names ++ [name]⟩ :=
  if_neg fun hc => h (List.contains_iff_mem.1 hc)

theorem addAll_cons (s : ImportSet) (name : String) (names : List String) :
    s.addAll (name :: names) = s.add name >>= fun s => s.addAll names :=
  List.foldlM_cons

theorem addAll_append (s : ImportSet) (names names' : List String) :
    s.addAll (names ++ names') = s.addAll names >>= fun s => s.addAll names' :=
  List.foldlM_append

theorem mem_add (h : s.add name = .ok s') {n : String} :
    n ∈ s'.names ↔ n ∈ s.names ∨ n = Text.mapChars Text.trim name := by
  by_cases hm : Text.mapChars Text.trim name ∈ s.names
  · rw [add_of_mem hm] at h
    cases h
    exact ⟨.inl, fun hn => hn.elim id fun hn => hn ▸ hm⟩
  · rw [add_of_notMem hm] at h
    obtain ⟨name', hname, rfl⟩ := map_eq_ok.1 h
    obtain ⟨-, rfl⟩ := qualifiedName_eq_ok.1 hname
    rw [List.mem_append, List.mem_singleton]

/-- Adding names loses none, and adds the names that were given without the blanks around them. -/
theorem mem_addAll (h : s.addAll names = .ok s') {n : String} :
    n ∈ s'.names ↔ n ∈ s.names ∨ ∃ name ∈ names, n = Text.mapChars Text.trim name := by
  induction names generalizing s with
  | nil =>
    cases h
    simp
  | cons name names ih =>
    rw [addAll_cons] at h
    obtain ⟨s₁, hadd, h⟩ := bind_eq_ok.1 h
    rw [ih h, mem_add hadd, or_assoc]
    simp only [List.mem_cons, exists_eq_or_imp]

theorem exists_addAll (s : ImportSet)
    (h : ∀ name ∈ names, isQualifiedName (Text.trim name.toList) = true) :
    ∃ s', s.addAll names = .ok s' := by
  induction names generalizing s with
  | nil => exact ⟨s, rfl⟩
  | cons name names ih =>
    obtain ⟨hname, hnames⟩ := List.forall_mem_cons.1 h
    have hadd : ∃ s₁, s.add name = .ok s₁ := by
      by_cases hm : Text.mapChars Text.trim name ∈ s.names
      · exact ⟨s, add_of_mem hm⟩
      · rw [add_of_notMem hm, qualifiedName_eq_ok.2 ⟨by rwa [Text.toList_mapChars], rfl⟩]
        exact ⟨_, rfl⟩
    obtain ⟨s₁, hs₁⟩ := hadd
    obtain ⟨s', hs'⟩ := ih s₁ hnames
    exact ⟨s', by rw [addAll_cons]; exact bind_eq_ok.2 ⟨s₁, hs₁, hs'⟩⟩

theorem Sound.add (hs : Sound s) (h : s.add name = .ok s') : Sound s' := by
  by_cases hm : Text.mapChars Text.trim name ∈ s.names
  · rw [add_of_mem hm] at h
    cases h
    exact hs
  · rw [add_of_notMem hm] at h
    obtain ⟨name', hname, rfl⟩ := map_eq_ok.1 h
    obtain ⟨hqualified, rfl⟩ := qualifiedName_eq_ok.1 hname
    refine ⟨?_, ?_, ?_⟩
    · exact List.nodup_append.2 ⟨hs.nodup, List.nodup_singleton _, by
        rintro n hn _ hn' rfl
        exact hm (List.mem_singleton.1 hn' ▸ hn)⟩
    · intro n hn
      rcases List.mem_append.1 hn with hn | hn
      · exact hs.trimmed n hn
      · rw [List.mem_singleton.1 hn, trim_trim]
    · intro n hn
      rcases List.mem_append.1 hn with hn | hn
      · exact hs.qualified n hn
      · rw [List.mem_singleton.1 hn]
        exact hqualified

theorem Sound.addAll (hs : Sound s) (h : s.addAll names = .ok s') : Sound s' := by
  induction names generalizing s with
  | nil =>
    cases h
    exact hs
  | cons name names ih =>
    rw [addAll_cons] at h
    obtain ⟨s₁, hadd, h⟩ := bind_eq_ok.1 h
    exact ih (hs.add hadd) h

/-- The names of a set, added one by one, stand in the set in their order. -/
theorem Sound.addAll_names (hs : Sound s) : ImportSet.addAll {} s.names = .ok s := by
  have hread (taken rest : List String) (hsplit : s.names = taken ++ rest) :
      ImportSet.addAll ⟨taken⟩ rest = .ok s := by
    induction rest generalizing taken with
    | nil =>
      rw [List.append_nil] at hsplit
      rw [← hsplit]
      rfl
    | cons name rest ih =>
      have hmem : name ∈ s.names := by simp [hsplit]
      have hnew : name ∉ taken := by
        have hnodup := hs.nodup
        rw [hsplit, List.nodup_append] at hnodup
        exact fun h => hnodup.2.2 name h name (by simp) rfl
      have hadd : ImportSet.add ⟨taken⟩ name = .ok ⟨taken ++ [name]⟩ := by
        rw [add_of_notMem (by rwa [hs.trimmed name hmem]), hs.trimmed name hmem]
        exact map_eq_ok.2 ⟨name, qualifiedName_eq_ok.2 ⟨hs.qualified name hmem, rfl⟩, rfl⟩
      rw [addAll_cons, hadd]
      exact ih _ (by rw [hsplit, List.append_assoc, List.singleton_append])
  exact hread [] s.names rfl

end JpaScaffold.Java.ImportSet
