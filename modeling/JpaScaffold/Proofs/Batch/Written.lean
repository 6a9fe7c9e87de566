import JpaScaffold.Proofs.Batch.Filing

/-!
# What a run writes

A run writes some of the files that its statements have, in their order, and lists what it has
written. The tree it leaves is the tree it found with these files put over it, so a file that is
written later takes the place of one that was written before.
-/
namespace JpaScaffold

open Files (Path Place Tree)

/-! ## Files over a tree -/

namespace GeneratedFile

variable {f : GeneratedFile} {files written : List GeneratedFile} {root q : Path} {tree : Tree}
  {texts : Path → Option String}

/-- The texts of a tree with the files put over it, one after another. -/
def overlay (root : Path) (written : List GeneratedFile) (texts : Path → Option String) :
    Path → Option String :=
  written.foldl (fun texts f => Function.update texts (root ++ f.path) (some f.contents)) texts

@[simp]
theorem overlay_nil (root : Path) (texts : Path → Option String) : overlay root [] texts = texts :=
  rfl

theorem overlay_append (root : Path) (before after : List GeneratedFile)
    (texts : Path → Option String) :
    overlay root (before ++ after) texts = overlay root after (overlay root before texts) :=
  List.foldl_append

theorem overlay_of_forall_ne (h : ∀ f ∈ written, q ≠ root ++ f.path) :
    overlay root written texts q = texts q := by
  induction written generalizing texts with
  | nil => rfl
  | cons f rest ih =>
    obtain ⟨hf, hrest⟩ := List.forall_mem_cons.1 h
    rw [← List.singleton_append, overlay_append, ih hrest]
    exact Function.update_of_ne hf _ _

theorem overlay_last {before after : List GeneratedFile} (h : f.path ∉ after.map path) :
    overlay root (before ++ f :: after) texts (root ++ f.path) = some f.contents := by
  rw [← List.singleton_append, overlay_append, overlay_append, overlay_of_forall_ne]
  · exact Function.update_self _ _ _
  · intro g hg hsame
    apply h
    rw [List.append_cancel_left hsame]
    exact List.mem_map_of_mem hg

theorem exists_last {p : Path} (h : p ∈ written.map path) :
    ∃ before f after, written = before ++ f :: after ∧ f.path = p ∧ p ∉ after.map path := by
  induction written with
  | nil => cases h
  | cons f rest ih =>
    by_cases hrest : p ∈ rest.map path
    · obtain ⟨before, g, after, rfl, hpath, hlast⟩ := ih hrest
      exact ⟨f :: before, g, after, rfl, hpath, hlast⟩
    · rw [List.map_cons, List.mem_cons] at h
      exact ⟨[], f, rest, rfl, (h.resolve_right hrest).symm, hrest⟩

/-- A file that could be written lies over the tree, and one that could not changes no text. -/
theorem texts_write (root : Path) (f : GeneratedFile) (tree : Tree) :
    (f.write root tree).1.file? =
      if (f.write root tree).2 then overlay root [f] tree.file? else tree.file? := by
  have henter := Tree.file?_enter root tree f.path.dropLast
  funext q
  rcases write_cases root f tree with hwrite | ⟨final, hfinal, hwrite⟩
  · rw [hwrite]
    exact henter q
  · rw [hwrite, if_pos rfl]
    by_cases hq : q = root ++ f.path
    · rw [hq, Tree.file?_write_self hfinal]
      exact (@overlay_last f root tree.file? [] [] List.not_mem_nil).symm
    · rw [Tree.file?_write_of_ne hq hfinal, henter]
      exact (overlay_of_forall_ne (List.forall_mem_singleton.2 hq)).symm

end GeneratedFile

/-! ## What is written, and listed -/

namespace Batch

open GeneratedFile (overlay)

variable {c : Config} {o : Options} {format : Formatter} {ddl : String}
  {statements : List String} {planned planned' written written' : List GeneratedFile}
  {tree tree' : Tree} {s s' s'' : State} {t : Table} {fate : Fate} {script : String}

/-- Of the planned files those in `written` were written and listed, and nothing else happened to
the files of the tree. -/
structure Wrote (root : Path) (planned written : List GeneratedFile) (s s' : State) : Prop where
  sublist : written.Sublist planned
  files_eq : s'.summary.files = s.summary.files ++ written.map GeneratedFile.path
  texts_eq : s'.tree.file? = overlay root written s.tree.file?

theorem wrote_nothing {root : Path} (planned : List GeneratedFile)
    (hfiles : s'.summary.files = s.summary.files) (htree : s'.tree.file? = s.tree.file?) :
    Wrote root planned [] s s' where
  sublist := List.nil_sublist planned
  files_eq := by rw [hfiles, List.map_nil, List.append_nil]
  texts_eq := htree

theorem Wrote.append {root : Path} (h : Wrote root planned written s s')
    (h' : Wrote root planned' written' s' s'') :
    Wrote root (planned ++ planned') (written ++ written') s s'' where
  sublist := h.sublist.append h'.sublist
  files_eq := by rw [h'.files_eq, h.files_eq, List.map_append, List.append_assoc]
  texts_eq := by rw [h'.texts_eq, h.texts_eq, GeneratedFile.overlay_append]

theorem Wrote.of_eq {root : Path} (h : Wrote root planned written s s')
    (hfiles : s''.summary.files = s'.summary.files) (htree : s''.tree = s'.tree) :
    Wrote root planned written s s'' where
  sublist := h.sublist
  files_eq := hfiles.trans h.files_eq
  texts_eq := by rw [htree, h.texts_eq]

theorem exists_wrote_file (o : Options) (t : Table) (s : State × Bool) (f : GeneratedFile) :
    ∃ written, Wrote o.output.path [f] written s.1 (State.writeFile o t s f).1 := by
  have htexts := GeneratedFile.texts_write o.output.path f s.1.tree
  unfold State.writeFile
  split
  · next tree hwrite =>
    rw [hwrite, if_pos rfl] at htexts
    exact ⟨[f], List.Sublist.refl _, rfl, htexts⟩
  · next tree hwrite =>
    rw [hwrite, if_neg Bool.false_ne_true] at htexts
    exact ⟨[], wrote_nothing [f] rfl htexts⟩

theorem exists_wrote_files (o : Options) (t : Table) (files : List GeneratedFile)
    (s : State × Bool) :
    ∃ written, Wrote o.output.path files written s.1 (files.foldl (State.writeFile o t) s).1 := by
  induction files generalizing s with
  | nil => exact ⟨[], wrote_nothing [] rfl rfl⟩
  | cons f rest ih =>
    obtain ⟨first, hfirst⟩ := exists_wrote_file o t s f
    obtain ⟨more, hmore⟩ := ih (State.writeFile o t s f)
    exact ⟨first ++ more, hfirst.append hmore⟩

theorem exists_wrote_table (o : Options) (t : Table) (files : List GeneratedFile) (s : State) :
    ∃ written, Wrote o.output.path files written s (State.writeTable o t files s) := by
  obtain ⟨written, hwritten⟩ := exists_wrote_files o t files (s, true)
  refine ⟨written, ?_⟩
  unfold State.writeTable
  split
  · next after hfold =>
    rw [hfold] at hwritten
    exact hwritten.of_eq rfl rfl
  · next after hfold =>
    rw [hfold] at hwritten
    exact hwritten.of_eq rfl rfl

theorem exists_wrote_statement (number : Nat) (s : State) (h : Ends c o format ddl fate) :
    ∃ written, Wrote o.output.path (output c o format [ddl]) written s
      (s.carryOut c o number fate) := by
  cases h with
  | skipped => exact ⟨[], wrote_nothing _ rfl rfl⟩
  | unread => exact ⟨[], wrote_nothing _ rfl rfl⟩
  | unmade => exact ⟨[], wrote_nothing _ rfl rfl⟩
  | made h t files hfiles =>
    rw [(tally_of_files h hfiles).1]
    obtain ⟨written, hwritten⟩ := exists_wrote_table o t files
      { s with notices := s.notices ++ GeneratedFile.notices c t }
    exact ⟨written, hwritten.sublist, hwritten.files_eq, hwritten.texts_eq⟩

theorem exists_wrote_statements {number : Nat}
    (h : runStatements c o format number s statements = (s', none)) :
    ∃ written, Wrote o.output.path (output c o format statements) written s s' := by
  induction statements generalizing s number with
  | nil =>
    cases h
    exact ⟨[], wrote_nothing _ rfl rfl⟩
  | cons ddl rest ih =>
    rw [runStatements] at h
    split at h
    · cases h
    · next fate hfate =>
      obtain ⟨first, hfirst⟩ := exists_wrote_statement number s (ends_of_ofStatement hfate)
      obtain ⟨more, hmore⟩ := ih h
      refine ⟨first ++ more, ?_⟩
      rw [← List.singleton_append, output_append]
      exact hfirst.append hmore

theorem exists_wrote_all (h : runAll c o format s statements = (s', none)) :
    ∃ tree' written, State.prepareOutput o s.tree = (tree', true) ∧
      Wrote o.output.path (output c o format statements) written { s with tree := tree' } s' := by
  unfold runAll at h
  split at h
  · cases h
  · next tree' hroot =>
    split at h
    · next last hlast =>
      cases h
      obtain ⟨written, hwritten⟩ := exists_wrote_statements hlast
      exact ⟨tree', written, hroot, hwritten.of_eq rfl rfl⟩
    · next hlast =>
      exact absurd h (hlast s')

/-- A run that ends has prepared its directory and then written files of its statements. -/
theorem exists_wrote_run (h : run c o format tree script = (s, none)) :
    ∃ statements tree' written, Ddl.splitStatements script = .ok statements ∧
      State.prepareOutput o tree = (tree', true) ∧
      written.Sublist (output c o format statements) ∧
      s.summary.files = written.map GeneratedFile.path ∧
      s.tree.file? = overlay o.output.path written tree'.file? := by
  unfold run at h
  split at h
  · cases h
  · next hsplit =>
    obtain ⟨tree', written, hroot, hwritten⟩ := exists_wrote_all h
    exact ⟨[], tree', written, hsplit, hroot, hwritten.sublist, hwritten.files_eq,
      hwritten.texts_eq⟩
  · next statements _ hsplit =>
    obtain ⟨tree', written, hroot, hwritten⟩ := exists_wrote_all h
    exact ⟨statements, tree', written, hsplit, hroot, hwritten.sublist, hwritten.files_eq,
      hwritten.texts_eq⟩

/-! ## Two files of one path -/

theorem exists_table_of_filesOf {files : List GeneratedFile}
    (h : filesOf c format ddl = some files) : ∃ t, GeneratedFile.ofTable c format t = .ok files := by
  cases hread : Table.read c ddl with
  | error fault =>
    rw [filesOf, hread] at h
    cases h
  | ok result =>
    cases result with
    | error e =>
      rw [filesOf, hread] at h
      cases h
    | ok t =>
      rw [filesOf_of_read format hread] at h
      cases hmade : GeneratedFile.ofTable c format t with
      | error e =>
        rw [hmade] at h
        cases h
      | ok made =>
        rw [hmade] at h
        cases h
        exact ⟨t, hmade⟩

/-- The files of a statement, none if it has no table or the files of its table cannot be made. -/
def filesFrom (c : Config) (format : Formatter) (ddl : String) : List GeneratedFile :=
  (filesOf c format ddl).getD []

theorem files_of_statement (c : Config) (format : Formatter) (ddl : String) :
    (∀ f ∈ filesFrom c format ddl, f.Named) ∧
      ((filesFrom c format ddl).map GeneratedFile.path).Nodup := by
  unfold filesFrom
  cases hfiles : filesOf c format ddl with
  | none => exact ⟨List.forall_mem_nil _, List.nodup_nil⟩
  | some files =>
    obtain ⟨t, ht⟩ := exists_table_of_filesOf hfiles
    exact ⟨GeneratedFile.named_of_ofTable ht, GeneratedFile.nodup_paths_of_ofTable ht⟩

/-- A type of one statement and a type of the other have the same package and the same name. -/
def Meet (c : Config) (format : Formatter) (ddl ddl' : String) : Prop :=
  ∃ f ∈ filesFrom c format ddl, ∃ f' ∈ filesFrom c format ddl',
    f.package = f'.package ∧ f.typeName = f'.typeName

theorem disjoint_paths_iff (c : Config) (format : Formatter) (ddl ddl' : String) :
    List.Disjoint ((filesFrom c format ddl).map GeneratedFile.path)
      ((filesFrom c format ddl').map GeneratedFile.path) ↔ ¬Meet c format ddl ddl' := by
  obtain ⟨hnamed, -⟩ := files_of_statement c format ddl
  obtain ⟨hnamed', -⟩ := files_of_statement c format ddl'
  constructor
  · rintro hdisjoint ⟨f, hf, f', hf', hpackage, htypeName⟩
    have hpath : f.path = f'.path := by
      rw [GeneratedFile.path, GeneratedFile.path, hpackage, htypeName]
    exact hdisjoint (List.mem_map_of_mem hf) (hpath ▸ List.mem_map_of_mem hf')
  · intro hmeet p hp hp'
    obtain ⟨f, hf, rfl⟩ := List.mem_map.1 hp
    obtain ⟨f', hf', hpath⟩ := List.mem_map.1 hp'
    exact hmeet ⟨f, hf, f', hf', (hnamed f hf).path_injective (hnamed' f' hf') hpath.symm⟩

/-- The paths of all files are different exactly if no two statements meet in a type. -/
theorem nodup_paths_iff (c : Config) (o : Options) (format : Formatter) (statements : List String) :
    ((output c o format statements).map GeneratedFile.path).Nodup ↔
      (selected c o statements).Pairwise fun ddl ddl' => ¬Meet c format ddl ddl' := by
  have hpaths : (output c o format statements).map GeneratedFile.path =
      (selected c o statements).flatMap fun ddl =>
        (filesFrom c format ddl).map GeneratedFile.path := List.map_flatMap
  rw [hpaths, List.nodup_flatMap]
  have hown : ∀ ddl ∈ selected c o statements,
      ((filesFrom c format ddl).map GeneratedFile.path).Nodup :=
    fun ddl _ => (files_of_statement c format ddl).2
  rw [and_iff_right hown]
  exact List.Pairwise.iff fun ddl ddl' => disjoint_paths_iff c format ddl ddl'

/-- A table whose name differs from that of the table of tints in SQL only. -/
def tintTable' : Sql.CreateTable := { tintTable with name := ⟨"tint_", none⟩ }

theorem read_tints' : Table.read Config.default "create table tint_ (id int8 primary key);" =
    .ok (.ok (Table.ofCreateTable Config.default false tintTable')) := by
  have hstrip : Ddl.stripPartition "create table tint_ (id int8 primary key);" =
      .ok ("create table tint_ (id int8 primary key);", false) := by decide
  have hparse : Sql.parseStatements "create table tint_ (id int8 primary key);" =
      some [.createTable tintTable'] := by cbv
  rw [Table.read, hstrip]
  dsimp only [Except.map, Table.ofSql]
  rw [hparse]
  rfl

theorem plain_tints' : Units.Plain
    (Entity.ofTable Config.default (Table.ofCreateTable Config.default false tintTable'))
    (Units.Calls.ofConfig Config.default)
    ⟨⟨"id", "int8", none, none, none, false, true, false, false⟩, "id", "Long", [], none, none⟩
    [] := by
  -- The tables make one entity but for the name of the table, which `Plain` does not ask for.
  have hclass : Naming.className "tint_" = Naming.className "tint" := by decide
  have hentity : Entity.ofTable Config.default (Table.ofCreateTable Config.default false tintTable') =
      { Entity.ofTable Config.default (Table.ofCreateTable Config.default false tintTable) with
        tableName := "tint_" } := by
    change { Entity.ofTable Config.default (Table.ofCreateTable Config.default false tintTable) with
      tableName := "tint_", className := Naming.className "tint_" } = _
    rw [hclass]
    rfl
  rw [hentity]
  obtain ⟨hids, hname, hsupers, hpackages, hfields, hpartition, himports⟩ := plain_tints
  exact ⟨hids, hname, hsupers, hpackages, hfields, hpartition, himports⟩

def tintPaths : List Path :=
  [["com", "a1stream", "domain", "entity", "Tint.java"],
    ["com", "a1stream", "domain", "repository", "TintRepository.java"],
    ["com", "a1stream", "domain", "vo", "TintVO.java"]]

theorem exists_files_of_tints {us : Units.TableUnits}
    (hread : Table.read Config.default ddl = .ok (.ok t))
    (hunits : Units.units (.ofTable Config.default t) (.ofConfig Config.default) = .ok us)
    (hplaces : us.toList.map (fun u => (u.package, u.typeName)) =
      [("com.a1stream.domain.entity", "Tint"), ("com.a1stream.domain.repository", "TintRepository"),
        ("com.a1stream.domain.vo", "TintVO")]) :
    ∃ files, filesOf Config.default (fun source => .ok source) ddl = some files ∧
      (∀ f ∈ files, f.Named) ∧ files.map GeneratedFile.path = tintPaths := by
  have hmade : GeneratedFile.ofTable Config.default (fun source => .ok source) t =
      .ok (us.toList.map fun u => ⟨u.package, u.typeName, u.text⟩) := by
    rw [ofTable_eq_ok]
    exact ⟨us, hunits, mapM_formatted_ok _⟩
  refine ⟨_, by rw [filesOf_of_read _ hread, hmade]; rfl, GeneratedFile.named_of_ofTable hmade, ?_⟩
  have hpaths : (us.toList.map fun u => (⟨u.package, u.typeName, u.text⟩ : GeneratedFile)).map
      GeneratedFile.path = (us.toList.map fun u => (u.package, u.typeName)).map fun place =>
        GeneratedFile.packagePath place.1 ++ [place.2 ++ ".java"] := by
    rw [List.map_map, List.map_map]
    rfl
  rw [hpaths, hplaces]
  decide

theorem exists_tints : ∃ files,
    filesOf Config.default (fun source => .ok source) "create table tint (id int8 primary key);" =
      some files ∧ (∀ f ∈ files, f.Named) ∧ files.map GeneratedFile.path = tintPaths := by
  obtain ⟨us, hunits⟩ := plain_tints.exists_units
  refine exists_files_of_tints read_tints hunits ?_
  rw [Units.places_of_unitsUnder hunits]
  decide

theorem exists_tints' : ∃ files,
    filesOf Config.default (fun source => .ok source) "create table tint_ (id int8 primary key);" =
      some files ∧ (∀ f ∈ files, f.Named) ∧ files.map GeneratedFile.path = tintPaths := by
  obtain ⟨us, hunits⟩ := plain_tints'.exists_units
  refine exists_files_of_tints read_tints' hunits ?_
  rw [Units.places_of_unitsUnder hunits]
  decide

end Batch

end JpaScaffold
