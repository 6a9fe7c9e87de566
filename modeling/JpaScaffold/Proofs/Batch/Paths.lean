import JpaScaffold.Proofs.Batch.Completion
import JpaScaffold.Proofs.Files.Frame
import JpaScaffold.Proofs.Java.Name

/-!
# Where the files of a table lie

The package and the name of a generated file are Java names, which no path divides and which lead
nowhere but down. So the path of a file can be read back, and no file leaves the output directory.
-/
namespace JpaScaffold

open Files (IsName Path Tree)

/-! ## Java names on a path -/

namespace Java

variable {cs : List Char} {name : String}

theorem isName_of_isSimpleName (h : isSimpleName cs = true) : IsName (String.ofList cs) := by
  have hword := isWordChar_of_isSimpleName h
  have hne := ne_nil_of_isSimpleName h
  have hmem (c : Char) (hc : isWordChar c = false) : c ∉ (String.ofList cs).toList := by
    intro hmem
    rw [String.toList_ofList] at hmem
    rw [hword c hmem] at hc
    cases hc
  have hpoint : '.' ∉ (String.ofList cs).toList := hmem '.' (by decide +kernel)
  refine ⟨by simpa using hne, ?_, ?_, hmem '/' (by decide +kernel)⟩
  · intro h
    rw [h] at hpoint
    exact hpoint (by decide)
  · intro h
    rw [h] at hpoint
    exact hpoint (by decide)

theorem isName_of_simple_or_star (h : isSimpleName cs = true ∨ cs = ['*']) :
    IsName (String.ofList cs) := by
  rcases h with h | rfl
  · exact isName_of_isSimpleName h
  · exact ⟨by decide, by decide, by decide, by decide⟩

theorem isName_append_java (h : isSimpleName name.toList = true) : IsName (name ++ ".java") := by
  have hname := isName_of_isSimpleName h
  rw [String.ofList_toList] at hname
  have hlong (short : String) (hshort : short.length < 5) : name ++ ".java" ≠ short := by
    rintro rfl
    rw [String.length_append] at hshort
    exact absurd hshort (Nat.not_lt.2 (Nat.le_add_left 5 _))
  refine ⟨hlong "" (by decide), hlong "." (by decide), hlong ".." (by decide), ?_⟩
  rw [String.toList_append, List.mem_append]
  rintro (hmem | hmem)
  · exact hname.no_slash hmem
  · exact absurd hmem (by decide)

end Java

namespace GeneratedFile

open Java (isQualifiedName isSimpleName)

variable {f f' : GeneratedFile} {c : Config} {t : Table} {format : Formatter}
  {files : List GeneratedFile} {root q : Path}

/-- The package of the file is a dotted name, and its type has a simple name. -/
structure Named (f : GeneratedFile) : Prop where
  package : isQualifiedName f.package.toList = true
  typeName : isSimpleName f.typeName.toList = true

/-- The segments of a package, between its points. -/
def segments (package : String) : List String :=
  (package.toList.splitOnP (· == '.')).map String.ofList

theorem isName_of_mem_segments {package name : String} (h : isQualifiedName package.toList = true)
    (hname : name ∈ segments package) : IsName name := by
  obtain ⟨cs, hcs, rfl⟩ := List.mem_map.1 hname
  exact Java.isName_of_simple_or_star (Java.simple_or_star_of_isQualifiedName h cs hcs)

theorem packagePath_eq {package : String} (h : isQualifiedName package.toList = true) :
    packagePath package = segments package := by
  unfold packagePath segments
  rw [List.filter_eq_self.2]
  intro cs hcs
  have hname := Java.isName_of_simple_or_star (Java.simple_or_star_of_isQualifiedName h cs hcs)
  simpa using hname.ne_empty

theorem segments_injective {package package' : String} (h : segments package = segments package') :
    package = package' := by
  have hchars : package.toList.splitOnP (· == '.') = package'.toList.splitOnP (· == '.') :=
    List.map_injective_iff.2 (fun _ _ h => String.ofList_injective h) h
  have hjoin (cs : List Char) : ['.'].intercalate (cs.splitOnP (· == '.')) = cs :=
    List.intercalate_splitOn '.'
  apply String.toList_injective
  rw [← hjoin package.toList, hchars, hjoin]

namespace Named

theorem path_eq (h : f.Named) : f.path = segments f.package ++ [f.typeName ++ ".java"] := by
  rw [path, packagePath_eq h.package]

theorem isName_of_mem_path (h : f.Named) : ∀ name ∈ f.path, IsName name := by
  intro name hname
  rw [h.path_eq, List.mem_append, List.mem_singleton] at hname
  rcases hname with hname | rfl
  · exact isName_of_mem_segments h.package hname
  · exact Java.isName_append_java h.typeName

theorem path_injective (h : f.Named) (h' : f'.Named) (hpath : f.path = f'.path) :
    f.package = f'.package ∧ f.typeName = f'.typeName := by
  rw [h.path_eq, h'.path_eq] at hpath
  obtain ⟨hsegments, hname⟩ := List.append_inj' hpath rfl
  refine ⟨segments_injective hsegments, ?_⟩
  apply String.toList_injective
  have hchars := congrArg String.toList (List.singleton_injective hname)
  rw [String.toList_append, String.toList_append] at hchars
  exact List.append_cancel_right hchars

end Named

theorem write_cases (root : Path) (f : GeneratedFile) (tree : Tree) :
    f.write root tree = ((tree.enter root f.path.dropLast).1, false) ∨
      ∃ final, (tree.enter root f.path.dropLast).1.write f.contents (root ++ f.path) = some final ∧
        f.write root tree = (final, true) := by
  unfold write
  split
  · next entered hentered =>
    rw [hentered]
    exact .inl rfl
  · next entered hentered =>
    rw [hentered]
    dsimp only
    cases hwritten : entered.write f.contents (root ++ f.path) with
    | none => exact .inl rfl
    | some final => exact .inr ⟨final, rfl, rfl⟩

theorem file?_write_of_ne (f : GeneratedFile) (tree : Tree) (hq : q ≠ root ++ f.path) :
    (f.write root tree).1.file? q = tree.file? q := by
  have henter := Tree.file?_enter root tree f.path.dropLast q
  rcases write_cases root f tree with hwrite | ⟨final, hfinal, hwrite⟩
  · rw [hwrite, henter]
  · rw [hwrite, Tree.file?_write_of_ne hq hfinal, henter]

theorem Named.get?_write_elsewhere (h : f.Named) (tree : Tree) (hq : ¬q <+: root ++ f.path) :
    (f.write root tree).1.get? q = tree.get? q := by
  have hnames : ∀ name ∈ f.path.dropLast, IsName name :=
    fun name hname => h.isName_of_mem_path name (List.mem_of_mem_dropLast hname)
  have hshorter : root ++ f.path.dropLast <+: root ++ f.path :=
    (List.prefix_append_right_inj root).2 <| List.dropLast_prefix f.path
  have hdirectory : ¬q <+: root ++ f.path.dropLast := fun hp => hq (hp.trans hshorter)
  have henter := Tree.get?_enter_elsewhere hnames hdirectory tree
  rcases write_cases root f tree with hwrite | ⟨final, hfinal, hwrite⟩
  · rw [hwrite, henter]
  · rw [hwrite, Tree.get?_write_elsewhere hq hfinal, henter]

end GeneratedFile

/-! ## The files of a table -/

namespace Units

open Java (CompilationUnit isQualifiedName isSimpleName)

variable {e : Entity} {p : Policy} {calls : Calls} {us : TableUnits} {u : CompilationUnit}

theorem names_of_unitsUnder (h : unitsUnder e p calls = .ok us) (hu : u ∈ us.toList) :
    isQualifiedName u.package.toList = true ∧ isSimpleName u.typeName.toList = true := by
  rcases built_of_mem h hu with hentity | ⟨-, hkey⟩ | hrepository | hvo
  · obtain ⟨_, _, -, hentity⟩ := entityUnit_eq_ok.1 hentity
    obtain ⟨_, _, _, _, -, -, -, -, -, hname, hpackage, rfl⟩ := buildEntity_eq_ok.1 hentity
    exact ⟨hpackage, hname⟩
  · obtain ⟨_, -, -, hkey⟩ := keyUnit_eq_ok.1 hkey
    obtain ⟨_, _, _, _, -, -, -, -, -, hname, -, -, -, -, hpackage, rfl⟩ := buildKey_eq_ok.1 hkey
    exact ⟨hpackage, hname⟩
  · obtain ⟨_, _, -, hrepository⟩ := repositoryUnit_eq_ok.1 hrepository
    obtain ⟨_, _, _, _, -, -, -, -, hname, hpackage, rfl⟩ := buildRepository_eq_ok.1 hrepository
    exact ⟨hpackage, hname⟩
  · obtain ⟨_, _, -, hvo⟩ := valueObjectUnit_eq_ok.1 hvo
    obtain ⟨_, _, _, _, _, -, -, -, -, hname, hpackage, rfl⟩ := buildValueObject_eq_ok.1 hvo
    exact ⟨hpackage, hname⟩

/-- The suffixes keep the types of a table apart, whatever their packages are. -/
theorem nodup_typeNames (h : unitsUnder e p calls = .ok us) :
    (us.toList.map CompilationUnit.typeName).Nodup := by
  have hnames : us.toList.map CompilationUnit.typeName =
      (us.toList.map fun u => (u.package, u.typeName)).map Prod.snd := by
    rw [List.map_map]
    rfl
  have hsuffix (s s' : String) (hne : s ≠ s') : e.className ++ s ≠ e.className ++ s' := by
    intro hsame
    apply hne
    apply String.toList_injective
    have hchars := congrArg String.toList hsame
    rw [String.toList_append, String.toList_append] at hchars
    exact List.append_cancel_left hchars
  have hself (s : String) (hne : "" ≠ s) : e.className ≠ e.className ++ s := by
    have hempty : e.className ++ "" = e.className := String.append_empty
    have hother := hsuffix "" s hne
    rwa [hempty] at hother
  have hkey := hself "Key" (by decide)
  have hrepository := hself "Repository" (by decide)
  have hvo := hself "VO" (by decide)
  have hkeyRepository := hsuffix "Key" "Repository" (by decide)
  have hkeyVo := hsuffix "Key" "VO" (by decide)
  have hrepositoryVo := hsuffix "Repository" "VO" (by decide)
  rw [hnames, places_of_unitsUnder h]
  split
  · simp [Entity.keyClassName, Entity.repositoryName, Entity.voName, *]
  · simp [Entity.repositoryName, Entity.voName, *]

end Units

namespace GeneratedFile

variable {f : GeneratedFile} {c : Config} {t : Table} {format : Formatter}
  {files : List GeneratedFile}

theorem places_of_formatted {units : List Java.CompilationUnit}
    (h : List.Forall₂ (fun u f => formatted format u = .ok f) units files) :
    files.map (fun f => (f.package, f.typeName)) = units.map fun u => (u.package, u.typeName) := by
  induction h with
  | nil => rfl
  | cons hfile _ ih =>
    obtain ⟨hpackage, htypeName, -⟩ := formatted_eq_ok.1 hfile
    rw [List.map_cons, List.map_cons, ih, hpackage, htypeName]

theorem exists_units_of_ofTable (h : ofTable c format t = .ok files) :
    ∃ us, Units.units (.ofTable c t) (.ofConfig c) = .ok us ∧
      files.map (fun f => (f.package, f.typeName)) =
        us.toList.map fun u => (u.package, u.typeName) := by
  obtain ⟨us, hunits, hfiles⟩ := Batch.ofTable_eq_ok.1 h
  exact ⟨us, hunits, places_of_formatted (mapM_eq_ok.1 hfiles)⟩

theorem named_of_ofTable (h : ofTable c format t = .ok files) : ∀ f ∈ files, f.Named := by
  obtain ⟨us, hunits, hplaces⟩ := exists_units_of_ofTable h
  intro f hf
  have hplace : (f.package, f.typeName) ∈ us.toList.map fun u => (u.package, u.typeName) := by
    rw [← hplaces]
    exact List.mem_map_of_mem hf
  obtain ⟨u, hu, hsame⟩ := List.mem_map.1 hplace
  obtain ⟨hpackage, htypeName⟩ := Prod.mk.inj hsame
  obtain ⟨hqualified, hsimple⟩ := Units.names_of_unitsUnder hunits hu
  exact ⟨hpackage ▸ hqualified, htypeName ▸ hsimple⟩

theorem nodup_paths_of_ofTable (h : ofTable c format t = .ok files) : (files.map path).Nodup := by
  obtain ⟨us, hunits, hplaces⟩ := exists_units_of_ofTable h
  have hnames : files.map typeName = us.toList.map Java.CompilationUnit.typeName := by
    have hsecond := congrArg (List.map Prod.snd) hplaces
    rwa [List.map_map, List.map_map] at hsecond
  have hnodup : (files.map typeName).Nodup := hnames ▸ Units.nodup_typeNames hunits
  have hnamed := named_of_ofTable h
  rw [List.nodup_map_iff_inj_on hnodup.of_map]
  intro f hf f' hf' hpath
  obtain ⟨-, htypeName⟩ := (hnamed f hf).path_injective (hnamed f' hf') hpath
  exact List.inj_on_of_nodup_map hnodup hf hf' htypeName

/-- Every file of a table is written below the output directory, at a path that tells its package and
its type apart from all others, and no two files of the table go to one path. -/
theorem paths_of_ofTable (h : ofTable c format t = .ok files) :
    (∀ f ∈ files,
      f.path = segments f.package ++ [f.typeName ++ ".java"] ∧
      (∀ name ∈ f.path, name ≠ "" ∧ name ≠ "." ∧ name ≠ ".." ∧ '/' ∉ name.toList) ∧
      ∀ root tree,
        Path.resolve root ("/".intercalate f.path) = root ++ f.path ∧
        (∀ q, q ≠ root ++ f.path → (f.write root tree).1.file? q = tree.file? q) ∧
        ∀ q, ¬q <+: root ++ f.path → (f.write root tree).1.get? q = tree.get? q) ∧
    (∀ c' format' t' files', ofTable c' format' t' = .ok files' →
      ∀ f ∈ files, ∀ f' ∈ files', f.path = f'.path ↔
        f.package = f'.package ∧ f.typeName = f'.typeName) ∧
    (files.map path).Nodup := by
  have hnamed := named_of_ofTable h
  refine ⟨fun f hf => ⟨(hnamed f hf).path_eq, fun name hname => ?_, fun root tree => ?_⟩, ?_,
    nodup_paths_of_ofTable h⟩
  · have hplain := (hnamed f hf).isName_of_mem_path name hname
    exact ⟨hplain.ne_empty, hplain.ne_here, hplain.ne_back, hplain.no_slash⟩
  · have hne : f.path ≠ [] := by simp [path]
    refine ⟨Path.resolve_intercalate hne (hnamed f hf).isName_of_mem_path root, ?_, ?_⟩
    · exact fun q hq => file?_write_of_ne f tree hq
    · exact fun q hq => (hnamed f hf).get?_write_elsewhere tree hq
  · intro c' format' t' files' h' f hf f' hf'
    constructor
    · exact (hnamed f hf).path_injective (named_of_ofTable h' f' hf')
    · rintro ⟨hpackage, htypeName⟩
      rw [path, path, hpackage, htypeName]

theorem paths_of_ofTable_of_tints :
    ∃ files, ofTable Config.default (fun source => .ok source)
        (Table.ofCreateTable Config.default false Batch.tintTable) = .ok files ∧
      files.length = 3 ∧ (files.map path).Nodup := by
  obtain ⟨us, hunits⟩ := Batch.plain_tints.exists_units
  have hplaces := Units.places_of_unitsUnder hunits
  have hlength : us.toList.length = 3 := by
    rw [← List.length_map fun u => (u.package, u.typeName), hplaces]
    decide +kernel
  have hfiles : ofTable Config.default (fun source => .ok source)
      (Table.ofCreateTable Config.default false Batch.tintTable) =
      .ok (us.toList.map fun u => ⟨u.package, u.typeName, u.text⟩) := by
    rw [Batch.ofTable_eq_ok]
    exact ⟨us, hunits, Batch.mapM_formatted_ok _⟩
  exact ⟨_, hfiles, by rw [List.length_map, hlength], (paths_of_ofTable hfiles).2.2⟩

end GeneratedFile

end JpaScaffold
