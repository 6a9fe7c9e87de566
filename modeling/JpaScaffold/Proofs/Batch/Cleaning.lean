import JpaScaffold.Proofs.Batch.Written

/-!
# What a run leaves in the tree

A run touches the files below its output directory only: those that it lists, and with `clean` those
that it finds there. The directory is looked for before missing directories are created, so one that
only a missing directory leads to is not cleaned.
-/
namespace JpaScaffold.Batch

open Files (Path Place Tree)
open GeneratedFile (overlay)

variable {c : Config} {o : Options} {format : Formatter} {tree tree' : Tree} {s : State}
  {written : List GeneratedFile} {script : String} {root p q : Path} {texts : Path → Option String}

theorem overlay_of_not_below (hq : ¬root <+: q) : overlay root written texts q = texts q := by
  apply GeneratedFile.overlay_of_forall_ne
  rintro f _ rfl
  exact hq (List.prefix_append root f.path)

theorem overlay_of_not_listed (hp : p ∉ written.map GeneratedFile.path) :
    overlay root written texts (root ++ p) = texts (root ++ p) := by
  apply GeneratedFile.overlay_of_forall_ne
  intro f hf hsame
  apply hp
  rw [List.append_cancel_left hsame]
  exact List.mem_map_of_mem hf

theorem isSome_overlay_of_listed (hp : p ∈ written.map GeneratedFile.path) :
    (overlay root written texts (root ++ p)).isSome = true := by
  obtain ⟨before, f, after, rfl, rfl, hlast⟩ := GeneratedFile.exists_last hp
  rw [GeneratedFile.overlay_last hlast]
  rfl

/-- The output directory is removed if it is found, and nothing else may lie there. -/
theorem removeOutput_eq_true (h : State.removeOutput o tree = (tree', true)) :
    tree.finds o.output = false ∧ tree' = tree ∨
      tree.finds o.output = true ∧ tree' = tree.remove o.output.path ∧
        ∃ es, tree.get? o.output.path = some (.directory es) := by
  unfold State.removeOutput at h
  split at h
  · next hfinds =>
    cases h
    exact .inl ⟨by simpa using hfinds, rfl⟩
  · next hfinds =>
    split at h
    · cases h
    · next hdirectory =>
      split at h
      · cases h
      · cases h
        have hany : (tree.get? o.output.path).any Tree.isDirectory = true := by
          simpa using hdirectory
        obtain ⟨node, hnode, hkind⟩ := (Option.any_eq_true _ _).1 hany
        cases node with
        | file text => cases hkind
        | directory es => exact .inr ⟨by simpa using hfinds, rfl, es, hnode⟩

/-- Preparing the output directory changes no text unless the directory is removed. -/
theorem prepareOutput_eq_true (h : State.prepareOutput o tree = (tree', true)) :
    (o.clean = false ∨ tree.finds o.output = false) ∧ tree'.file? = tree.file? ∨
      o.clean = true ∧ tree.finds o.output = true ∧
        tree'.file? = (tree.remove o.output.path).file? ∧
        ∃ es, tree.get? o.output.path = some (.directory es) := by
  have hentered (t : Tree) (ht : t.enter [] o.output.steps = (tree', true)) :
      tree'.file? = t.file? := by
    funext q
    have hsame := Tree.file?_enter [] t o.output.steps q
    rwa [ht] at hsame
  unfold State.prepareOutput at h
  cases hclean : o.clean with
  | false =>
    rw [hclean] at h
    exact .inl ⟨.inl rfl, hentered tree h⟩
  | true =>
    rw [hclean, if_pos rfl] at h
    split at h
    · cases h
    · next removed hremoved =>
      rcases removeOutput_eq_true hremoved with ⟨hfinds, rfl⟩ | ⟨hfinds, rfl, hdirectory⟩
      · exact .inl ⟨.inr hfinds, hentered _ h⟩
      · exact .inr ⟨rfl, hfinds, hentered _ h, hdirectory⟩

theorem file?_prepareOutput_of_not_below (h : State.prepareOutput o tree = (tree', true))
    (hq : ¬o.output.path <+: q) : tree'.file? q = tree.file? q := by
  rcases prepareOutput_eq_true h with ⟨-, htexts⟩ | ⟨-, -, htexts, -⟩
  · rw [htexts]
  · rw [htexts, Tree.file?_remove_elsewhere hq]

theorem file?_of_get?_eq_none (h : tree.get? root = none) (p : Path) :
    tree.file? (root ++ p) = none := by
  rw [Tree.file?, Tree.get?_append, h]
  rfl

theorem file?_prepareOutput_of_clean (h : State.prepareOutput o tree = (tree', true))
    (hclean : o.clean = true)
    (hfound : tree.finds o.output = true ∨ tree.get? o.output.path = none) (p : Path) :
    tree'.file? (o.output.path ++ p) = none := by
  rcases prepareOutput_eq_true h with ⟨hkept, htexts⟩ | ⟨-, -, htexts, es, hes⟩
  · rw [htexts]
    rcases hfound with hfinds | hnone
    · rw [hclean, hfinds] at hkept
      simp at hkept
    · exact file?_of_get?_eq_none hnone p
  · rw [htexts]
    exact Tree.file?_remove_below hes p

/-- A run that ends has changed nothing outside its output directory. Below it a file that is not
listed stays as it was, or is removed if the directory is cleaned. -/
theorem run_changes_output_only (h : run c o format tree script = (s, none)) :
    (∀ q, ¬o.output.path <+: q → s.tree.file? q = tree.file? q) ∧
    (∀ p ∈ s.summary.files, (s.tree.file? (o.output.path ++ p)).isSome = true) ∧
    (o.clean = false ∨ tree.finds o.output = false → ∀ p ∉ s.summary.files,
      s.tree.file? (o.output.path ++ p) = tree.file? (o.output.path ++ p)) ∧
    (o.clean = true → tree.finds o.output = true ∨ tree.get? o.output.path = none →
      ∀ p, (s.tree.file? (o.output.path ++ p)).isSome = true ↔ p ∈ s.summary.files) := by
  obtain ⟨statements, prepared, written, -, hroot, -, hfiles, htexts⟩ := exists_wrote_run h
  rw [hfiles, htexts]
  refine ⟨fun q hq => ?_, fun p hp => isSome_overlay_of_listed hp, fun hkept p hp => ?_,
    fun hclean hfound p => ⟨fun hsome => ?_, fun hp => isSome_overlay_of_listed hp⟩⟩
  · rw [overlay_of_not_below hq, file?_prepareOutput_of_not_below hroot hq]
  · rw [overlay_of_not_listed hp]
    rcases prepareOutput_eq_true hroot with ⟨-, hsame⟩ | ⟨hclean, hfinds, -⟩
    · rw [hsame]
    · rw [hclean, hfinds] at hkept
      simp at hkept
  · by_contra hp
    rw [overlay_of_not_listed hp, file?_prepareOutput_of_clean hroot hclean hfound] at hsome
    cases hsome

/-- The output directory of the table of tints, cleaned first. -/
def cleanOut : Options := { intoOut with clean := true }

theorem run_changes_output_only_of_stale :
    ∃ s, run Config.default cleanOut (fun source => .ok source)
        (.directory [("out", .directory [("stale.txt", .file "old")]), ("kept.txt", .file "new")])
        "create table tint (id int8 primary key);" = (s, none) ∧
      s.tree.file? ["kept.txt"] = some "new" ∧
      ∀ p, (s.tree.file? (["out"] ++ p)).isSome = true ↔ p ∈ s.summary.files := by
  have hsplit : Ddl.splitStatements "create table tint (id int8 primary key);" =
      .ok ["create table tint (id int8 primary key);"] := by decide +kernel
  have hroot : State.prepareOutput cleanOut
      (.directory [("out", .directory [("stale.txt", .file "old")]), ("kept.txt", .file "new")]) =
      (.directory [("kept.txt", .file "new"), ("out", .empty)], true) := by rfl
  have hreturns : (∃ s, run Config.default cleanOut (fun source => .ok source)
      (.directory [("out", .directory [("stale.txt", .file "old")]), ("kept.txt", .file "new")])
      "create table tint (id int8 primary key);" = (s, none)) ↔ _ := run_returns_iff hsplit hroot
  obtain ⟨s, hrun⟩ := hreturns.2 (List.forall_mem_singleton.2 (scannable_iff.1 ⟨_, read_tints⟩))
  obtain ⟨houtside, -, -, hcleaned⟩ := run_changes_output_only hrun
  have hpath : cleanOut.output.path = ["out"] := rfl
  rw [hpath] at houtside hcleaned
  exact ⟨s, hrun, houtside ["kept.txt"] (by decide), hcleaned rfl (.inl rfl)⟩

/-- A directory that only a missing one leads to is not cleaned, though the run succeeds. -/
example : State.prepareOutput { cleanOut with output := .ofText [] "missing/../out" }
    (.directory [("out", .directory [("stale.txt", .file "old")])]) =
    (.directory [("out", .directory [("stale.txt", .file "old")]), ("missing", .empty)], true) := by
  rfl

end JpaScaffold.Batch
