import JpaScaffold.Proofs.Batch.Paths

/-!
# A directory that takes every file

Package directories have no point in their names, and files of Java source have one. So in a
directory of such files no file is where a package goes, and no directory where a file goes: whatever
was generated there before, one more file can be written.
-/
namespace JpaScaffold.GeneratedFile

open Files (IsName Path Tree)

variable {f : GeneratedFile} {files : List GeneratedFile} {root p : Path} {tree : Tree}

theorem no_point_of_mem_segments {package name : String}
    (h : Java.isQualifiedName package.toList = true) (hname : name ∈ segments package) :
    '.' ∉ name.toList := by
  obtain ⟨cs, hcs, rfl⟩ := List.mem_map.1 hname
  rw [String.toList_ofList]
  rcases Java.simple_or_star_of_isQualifiedName h cs hcs with hsimple | rfl
  · intro hmem
    have hword := Java.isWordChar_of_isSimpleName hsimple '.' hmem
    revert hword
    decide +kernel
  · decide

/-- Below the directory all files are generated ones, and no directory has a point in its name. -/
structure Filed (root : Path) (tree : Tree) : Prop where
  exists_root : ∃ es, tree.get? root = some (.directory es)
  named_of_file : ∀ p text, tree.get? (root ++ p) = some (.file text) →
    ∃ f : GeneratedFile, f.Named ∧ p = f.path
  no_point_of_directory : ∀ p es, tree.get? (root ++ p) = some (.directory es) →
    ∀ name ∈ p, '.' ∉ name.toList

theorem filed_of_empty (h : tree.get? root = some .empty) : Filed root tree := by
  have hbelow (p : Path) (node : Tree) (hp : p ≠ []) : tree.get? (root ++ p) ≠ some node := by
    obtain ⟨name, rest, rfl⟩ := List.exists_cons_of_ne_nil hp
    rw [Tree.get?_append, h]
    rintro ⟨⟩
  refine ⟨⟨[], h⟩, fun p text hfile => ?_, fun p es hdirectory => ?_⟩
  · by_cases hp : p = []
    · subst hp
      rw [List.append_nil, h] at hfile
      cases hfile
    · exact absurd hfile (hbelow p _ hp)
  · by_cases hp : p = []
    · subst hp
      exact List.forall_mem_nil _
    · exact absurd hdirectory (hbelow p _ hp)

/-- No file is in the way of a package. -/
theorem Filed.no_file_above {package : String} {d : Path} (hfiled : Filed root tree)
    (hpackage : Java.isQualifiedName package.toList = true) (hd : d <+: root ++ segments package)
    (text : String) : tree.get? d ≠ some (.file text) := by
  obtain ⟨es, hroot⟩ := hfiled.exists_root
  intro hfile
  rcases List.prefix_or_prefix_of_prefix hd (List.prefix_append root _) with hup | ⟨p, rfl⟩
  · by_cases hne : d = root
    · rw [hne, hroot] at hfile
      cases hfile
    · obtain ⟨es', hes'⟩ := Tree.exists_directory_above hroot hup hne
      rw [hes'] at hfile
      cases hfile
  · obtain ⟨f, hf, rfl⟩ := hfiled.named_of_file p text hfile
    have hname : f.typeName ++ ".java" ∈ segments package := by
      apply ((List.prefix_append_right_inj root).1 hd).subset
      rw [path]
      exact List.mem_append_right _ (List.mem_singleton_self _)
    apply no_point_of_mem_segments hpackage hname
    rw [String.toList_append]
    exact List.mem_append_right _ (by decide)

/-- The file that was written is a generated one, and so only directories lead to it. -/
theorem Filed.of_write {final : Tree} (hfiled : Filed root tree) (h : f.Named)
    (hwrite : f.write root tree = (final, true))
    (hself : final.get? (root ++ f.path) = some (.file f.contents)) : Filed root final := by
  have hpath := h.path_eq
  have hother (q : Path) (hq : ¬q <+: root ++ f.path) : final.get? q = tree.get? q := by
    have hsame := h.get?_write_elsewhere tree hq
    rwa [hwrite] at hsame
  refine ⟨?_, fun p text hfile => ?_, fun p es hdirectory => ?_⟩
  · exact Tree.exists_directory_above hself (List.prefix_append root _) (by simp [hpath])
  · by_cases hp : root ++ p <+: root ++ f.path
    · by_cases hne : root ++ p = root ++ f.path
      · exact ⟨f, h, List.append_cancel_left hne⟩
      · obtain ⟨es, hes⟩ := Tree.exists_directory_above hself hp hne
        rw [hes] at hfile
        cases hfile
    · exact hfiled.named_of_file p text (hother _ hp ▸ hfile)
  · by_cases hp : root ++ p <+: root ++ f.path
    · have hne : p ≠ f.path := by
        rintro rfl
        rw [hself] at hdirectory
        cases hdirectory
      have hsegments : p <+: segments f.package := by
        have hbelow := (List.prefix_append_right_inj root).1 hp
        rw [hpath] at hbelow hne
        exact (List.prefix_concat_iff.1 hbelow).resolve_left hne
      exact fun name hname => no_point_of_mem_segments h.package (hsegments.subset hname)
    · exact hfiled.no_point_of_directory p es (hother _ hp ▸ hdirectory)

/-- A file of short names can be written, and leaves a directory that takes every file. -/
theorem Filed.exists_write (hfiled : Filed root tree) (h : f.Named)
    (hshort : ∀ name ∈ f.path, name.utf8ByteSize ≤ Tree.nameLimit) :
    ∃ tree', f.write root tree = (tree', true) ∧ Filed root tree' := by
  have hpath := h.path_eq
  have hdrop : f.path.dropLast = segments f.package := by rw [hpath, List.dropLast_concat]
  have hsegment : ∀ name ∈ segments f.package, IsName name ∧ name.utf8ByteSize ≤ Tree.nameLimit :=
    fun name hname => ⟨isName_of_mem_segments h.package hname,
      hshort name (hpath ▸ List.mem_append_left _ hname)⟩
  have hpoint : '.' ∈ (f.typeName ++ ".java").toList := by
    rw [String.toList_append]
    exact List.mem_append_right _ (by decide)
  obtain ⟨es, hroot⟩ := hfiled.exists_root
  obtain ⟨entered, hentered⟩ := Tree.exists_enter hsegment hroot
    (fun d hd text => hfiled.no_file_above h.package hd text)
  obtain ⟨es', hpackage⟩ := Tree.get?_enter hentered
  rw [Path.foldl_follow fun name hname => (hsegment name hname).1] at hpackage
  -- no directory is in the way either, since the name of the file has a point in it
  have hfree : ∀ es, entered.get? (root ++ segments f.package ++ [f.typeName ++ ".java"]) ≠
      some (.directory es) := by
    intro es hdirectory
    have hnot : ¬root ++ segments f.package ++ [f.typeName ++ ".java"] <+:
        root ++ segments f.package := fun hp => by
      have hlength := hp.length_le
      rw [List.length_append, List.length_singleton] at hlength
      exact Nat.not_succ_le_self _ hlength
    have hsame := Tree.get?_enter_elsewhere (fun name hname => (hsegment name hname).1) hnot tree
    rw [hentered] at hsame
    rw [hsame, List.append_assoc] at hdirectory
    exact hfiled.no_point_of_directory _ es hdirectory _ (List.mem_append_right _ List.mem_cons_self) hpoint
  obtain ⟨final, hfinal⟩ := Tree.exists_write f.contents hpackage (hshort _ (by simp [hpath])) hfree
  rw [List.append_assoc, ← hpath] at hfinal
  have hwrite : f.write root tree = (final, true) := by
    rw [write, hdrop, hentered]
    dsimp only
    rw [hfinal]
  exact ⟨final, hwrite, hfiled.of_write h hwrite (Tree.get?_write_self hfinal)⟩

/-- Files of short names can all be written, in any number and whatever they overwrite. -/
theorem Filed.exists_writeAll (hfiled : Filed root tree) (hnamed : ∀ f ∈ files, f.Named)
    (hshort : ∀ f ∈ files, ∀ name ∈ f.path, name.utf8ByteSize ≤ Tree.nameLimit) :
    ∃ final, Batch.writeAll root files tree = some final := by
  induction files generalizing tree with
  | nil => exact ⟨tree, rfl⟩
  | cons f rest ih =>
    obtain ⟨hf, hrest⟩ := List.forall_mem_cons.1 hnamed
    obtain ⟨hfshort, hrestshort⟩ := List.forall_mem_cons.1 hshort
    obtain ⟨tree', hwrite, hfiled'⟩ := hfiled.exists_write hf hfshort
    obtain ⟨final, hfinal⟩ := ih hfiled' hrest hrestshort
    exact ⟨final, by rw [Batch.writeAll, hwrite]; exact hfinal⟩

end JpaScaffold.GeneratedFile
