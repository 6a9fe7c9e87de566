import Mathlib
import JpaScaffold.Batch
import JpaScaffold.Proofs.Ddl.Returns
import JpaScaffold.Proofs.Ddl.Statements
import JpaScaffold.Proofs.Units.Success

/-!
# The tally of a run

What a run writes and counts is a sum over its statements. A statement that fails adds one to the
number of failures, and nothing else.
-/
namespace JpaScaffold

open Files (Path Tree)

/-! ## The files of a table -/

namespace GeneratedFile

open Java (CompilationUnit)

variable {format : Formatter} {units rest : List CompilationUnit} {files : List GeneratedFile}

def formatted (format : Formatter) (u : CompilationUnit) : Except FormatError GeneratedFile :=
  (format u.text).map fun text => ⟨u.package, u.typeName, text⟩

theorem fill_at {u : CompilationUnit} (hu : units[files.length]? = some u) :
    fill format units (files ++ (u :: rest).map ofUnit) files.length =
      (formatted format u).map fun f => (files ++ [f]) ++ rest.map ofUnit := by
  have hmodify (text : String) :
      (files ++ (u :: rest).map ofUnit).modify files.length (fun f => { f with contents := text }) =
        files ++ [⟨u.package, u.typeName, text⟩] ++ rest.map ofUnit := by
    rw [List.modify_eq_take_drop, List.take_left, List.drop_left, List.append_assoc]
    rfl
  unfold fill formatted
  rw [hu]
  dsimp only
  cases format u.text with
  | error e => rfl
  | ok text => exact congrArg Except.ok (hmodify text)

/-- Formatting goes on behind the files that have their texts. -/
theorem foldlM_fill (hunits : units.drop files.length = rest) :
    (List.range' files.length rest.length).foldlM (fill format units) (files ++ rest.map ofUnit) =
      (rest.mapM (formatted format)).map (files ++ ·) := by
  induction rest generalizing files with
  | nil => simp [Except.map, pure, Except.pure]
  | cons u rest ih =>
    have hu : units[files.length]? = some u := by
      rw [← List.head?_drop, hunits]
      rfl
    rw [List.length_cons, List.range'_succ, List.foldlM_cons, fill_at hu, List.mapM_cons]
    cases formatted format u with
    | error e => rfl
    | ok f =>
      have hrest : units.drop (files ++ [f]).length = rest := by
        rw [List.length_append, List.length_singleton, ← List.tail_drop, hunits]
        rfl
      have hnext := ih hrest
      rw [List.length_append, List.length_singleton] at hnext
      simp only [Except.map, ok_bind]
      rw [hnext]
      cases rest.mapM (formatted format) with
      | error e => rfl
      | ok fs => simp [Except.map, pure, Except.pure]

theorem ofUnits_range (format : Formatter) (units : List CompilationUnit) :
    ofUnits format units (List.range units.length) = units.mapM (formatted format) := by
  have h : units.drop ([] : List GeneratedFile).length = units := rfl
  rw [ofUnits, List.range_eq_range']
  refine (foldlM_fill h).trans ?_
  cases units.mapM (formatted format) <;> rfl

end GeneratedFile

namespace Batch

variable {c : Config} {o : Options} {format : Formatter} {ddl : String}
  {statements : List String}
  {files : List GeneratedFile} {tree tree' : Tree} {s s' : State}
  {number : Nat} {t : Table} {fate : Fate} {script : String}

/-! ## What a statement adds -/

/-- The statement declares a table that is not selected. One that cannot be parsed may still declare
a name. -/
def filteredOut (c : Config) (o : Options) (ddl : String) : Bool :=
  match Table.read c ddl with
  | .ok (.ok t) => !o.selects t.name
  | .ok (.error _) =>
    match Ddl.declaredName ddl with
    | .ok (some name) => !o.selects name
    | _ => false
  | .error _ => false

/-- The files of a statement: it is read, its table is transformed, and each unit is formatted. -/
def filesOf (c : Config) (format : Formatter) (ddl : String) : Option (List GeneratedFile) :=
  match Table.read c ddl with
  | .ok (.ok t) =>
    match Units.units (.ofTable c t) (.ofConfig c) with
    | .ok units => (units.toList.mapM (GeneratedFile.formatted format)).toOption
    | .error _ => none
  | _ => none

theorem ofTable_eq_ok : GeneratedFile.ofTable c format t = .ok files ↔
    ∃ units, Units.units (.ofTable c t) (.ofConfig c) = .ok units ∧
      units.toList.mapM (GeneratedFile.formatted format) = .ok files := by
  unfold GeneratedFile.ofTable
  rw [bind_eq_ok]
  refine exists_congr fun units => and_congr_right fun _ => ?_
  rw [mapError_eq_ok, GeneratedFile.ofUnits_range]

theorem filesOf_of_read (format : Formatter) (h : Table.read c ddl = .ok (.ok t)) :
    filesOf c format ddl = (GeneratedFile.ofTable c format t).toOption := by
  unfold filesOf GeneratedFile.ofTable
  rw [h]
  dsimp only
  cases Units.units (.ofTable c t) (.ofConfig c) with
  | error e => rfl
  | ok units =>
    rw [ok_bind, GeneratedFile.ofUnits_range]
    dsimp only
    cases units.toList.mapM (GeneratedFile.formatted format) <;> rfl

/-- No character outside ASCII is code where the statement is searched for a partition clause. -/
def Scannable (ddl : String) : Prop :=
  ∀ m, Ddl.Searched Ddl.partitionBy [] (Ddl.marked ddl.toList) m → m.isForeignCode = false

theorem scannable_iff : (∃ result, Table.read c ddl = .ok result) ↔ Scannable ddl := by
  rw [Table.read, Ddl.map_returns_iff, Ddl.stripPartition, Ddl.map_returns_iff]
  exact Ddl.seek_returns_iff Ddl.areKeywords_partitionBy [] _

/-- What becomes of a statement is a matter of its filter and of its files. -/
inductive Ends (c : Config) (o : Options) (format : Formatter) (ddl : String) : Fate → Prop
  | skipped (h : filteredOut c o ddl = true) : Ends c o format ddl .skipped
  | unread (h : filteredOut c o ddl = false) (hfiles : filesOf c format ddl = none)
      (e : TableError) : Ends c o format ddl (.unread e)
  | unmade (h : filteredOut c o ddl = false) (hfiles : filesOf c format ddl = none)
      (t : Table) (e : TableError) : Ends c o format ddl (.unmade t e)
  | made (h : filteredOut c o ddl = false) (t : Table) (files : List GeneratedFile)
      (hfiles : filesOf c format ddl = some files) : Ends c o format ddl (.made t files)

theorem ends_ofTable (h : Table.read c ddl = .ok (.ok t)) :
    Ends c o format ddl (Fate.ofTable c o format t) := by
  have hfiles := filesOf_of_read format h
  have hfilter : filteredOut c o ddl = !o.selects t.name := by rw [filteredOut, h]
  unfold Fate.ofTable
  by_cases hs : o.selects t.name = true
  · rw [hs] at hfilter
    rw [if_pos hs]
    cases hmade : GeneratedFile.ofTable c format t with
    | error e =>
      rw [hmade] at hfiles
      exact .unmade hfilter hfiles t e
    | ok files =>
      rw [hmade] at hfiles
      exact .made hfilter t files hfiles
  · rw [if_neg hs]
    apply Ends.skipped
    rw [hfilter, eq_false_of_ne_true hs]
    rfl

theorem ends_ofUnreadable {e : TableError} {name : Option String}
    (h : Table.read c ddl = .ok (.error e)) (hname : Ddl.declaredName ddl = .ok name) :
    Ends c o format ddl (Fate.ofUnreadable o e name) := by
  have hfiles : filesOf c format ddl = none := by rw [filesOf, h]
  cases name with
  | none =>
    apply Ends.unread _ hfiles
    rw [filteredOut, h, hname]
  | some name =>
    have hfilter : filteredOut c o ddl = !o.selects name := by rw [filteredOut, h, hname]
    unfold Fate.ofUnreadable
    dsimp only
    by_cases hs : o.selects name = true
    · rw [if_pos hs]
      apply Ends.unread _ hfiles
      rw [hfilter, hs]
      rfl
    · rw [if_neg hs]
      apply Ends.skipped
      rw [hfilter, eq_false_of_ne_true hs]
      rfl

theorem ofStatement_returns_iff {name : Option String} (hname : Ddl.declaredName ddl = .ok name) :
    (∃ fate, Fate.ofStatement c o format ddl = .ok fate) ↔ Scannable ddl := by
  rw [← scannable_iff (c := c), Fate.ofStatement, hname]
  cases Table.read c ddl with
  | error fault => simp
  | ok result => cases result <;> simp [pure, Except.pure]

theorem ends_of_ofStatement (h : Fate.ofStatement c o format ddl = .ok fate) :
    Ends c o format ddl fate := by
  unfold Fate.ofStatement at h
  obtain ⟨result, hread, h⟩ := bind_eq_ok.1 h
  cases result with
  | ok t =>
    cases h
    exact ends_ofTable hread
  | error e =>
    obtain ⟨name, hname, h⟩ := bind_eq_ok.1 h
    cases h
    exact ends_ofUnreadable hread hname

/-- The statements that are not filtered out. -/
def selected (c : Config) (o : Options) (statements : List String) : List String :=
  statements.filter fun ddl => !filteredOut c o ddl

/-- The files of some statements, in order. -/
def output (c : Config) (o : Options) (format : Formatter) (statements : List String) :
    List GeneratedFile :=
  (selected c o statements).flatMap fun ddl => (filesOf c format ddl).getD []

/-- What a run over some statements counts if everything can be written. -/
def tally (c : Config) (o : Options) (format : Formatter) (statements : List String) : Summary where
  generated := (selected c o statements).countP fun ddl => (filesOf c format ddl).isSome
  failed := (selected c o statements).countP fun ddl => (filesOf c format ddl).isNone
  files := (output c o format statements).map GeneratedFile.path

/-- The tree with the files below the directory, if all of them can be written. -/
def writeAll (root : Path) : List GeneratedFile → Tree → Option Tree
  | [], tree => some tree
  | f :: rest, tree =>
    match f.write root tree with
    | (tree, true) => writeAll root rest tree
    | (_, false) => none

theorem writeAll_append (root : Path) (files more : List GeneratedFile) (tree : Tree) :
    writeAll root (files ++ more) tree = (writeAll root files tree).bind (writeAll root more) := by
  induction files generalizing tree with
  | nil => rfl
  | cons f rest ih =>
    rw [List.cons_append, writeAll, writeAll]
    split
    · exact ih _
    · rfl

/-! ## One statement after another -/

/-- The sum of what is counted for some statements and for more statements. -/
def Summary.add (s s' : Summary) : Summary where
  generated := s.generated + s'.generated
  failed := s.failed + s'.failed
  files := s.files ++ s'.files

@[simp]
theorem Summary.add_empty (s : Summary) : s.add {} = s := by
  simp [add]

@[simp]
theorem Summary.empty_add (s : Summary) : ({} : Summary).add s = s := by
  simp [add]

theorem Summary.add_assoc (s s' s'' : Summary) : (s.add s').add s'' = s.add (s'.add s'') := by
  simp [add, Nat.add_assoc]

theorem tally_append (before after : List String) :
    tally c o format (before ++ after) =
      (tally c o format before).add (tally c o format after) := by
  simp [tally, Summary.add, selected, output]

theorem output_append (before after : List String) :
    output c o format (before ++ after) = output c o format before ++ output c o format after := by
  simp [output, selected]

theorem tally_total (statements : List String) :
    (tally c o format statements).generated + (tally c o format statements).failed =
      (selected c o statements).length := by
  rw [List.length_eq_countP_add_countP fun ddl => (filesOf c format ddl).isSome]
  unfold tally
  dsimp only
  congr 1
  apply List.countP_congr
  intro ddl _
  simp

theorem tally_of_filteredOut (format : Formatter) (h : filteredOut c o ddl = true) :
    output c o format [ddl] = [] ∧ tally c o format [ddl] = {} := by
  simp [tally, output, selected, h]

theorem tally_of_failure (h : filteredOut c o ddl = false) (hfiles : filesOf c format ddl = none) :
    output c o format [ddl] = [] ∧ tally c o format [ddl] = { failed := 1 } := by
  simp [tally, output, selected, h, hfiles]

theorem tally_of_files (h : filteredOut c o ddl = false)
    (hfiles : filesOf c format ddl = some files) :
    output c o format [ddl] = files ∧
      tally c o format [ddl] = { generated := 1, files := files.map GeneratedFile.path } := by
  simp [tally, output, selected, h, hfiles]

theorem foldl_writeFile (h : writeAll o.output.path files s.tree = some tree) :
    ∃ s', files.foldl (State.writeFile o t) (s, true) = (s', true) ∧ s'.tree = tree ∧
      s'.summary = s.summary.add { files := files.map GeneratedFile.path } := by
  induction files generalizing s with
  | nil =>
    cases h
    exact ⟨s, rfl, rfl, s.summary.add_empty.symm⟩
  | cons f rest ih =>
    rw [writeAll] at h
    split at h
    · next tree' hwrite =>
      obtain ⟨s₁, hfirst, htree₁, hsummary₁⟩ : ∃ s₁, State.writeFile o t (s, true) f = (s₁, true) ∧
          s₁.tree = tree' ∧ s₁.summary = s.summary.add { files := [f.path] } := by
        rw [State.writeFile, hwrite]
        exact ⟨_, rfl, rfl, rfl⟩
      rw [← htree₁] at h
      obtain ⟨s', hrest, htree, hsummary⟩ := ih h
      refine ⟨s', ?_, htree, ?_⟩
      · rw [List.foldl_cons, hfirst, hrest]
      · rw [hsummary, hsummary₁, Summary.add_assoc]
        rfl
    · cases h

/-- A statement adds its own tally, and its own files. -/
theorem carryOut_of_ends (number : Nat) (h : Ends c o format ddl fate)
    (hwrite : writeAll o.output.path (output c o format [ddl]) s.tree = some tree) :
    (s.carryOut c o number fate).tree = tree ∧
      (s.carryOut c o number fate).summary = s.summary.add (tally c o format [ddl]) := by
  cases h with
  | skipped h =>
    obtain ⟨hout, htally⟩ := tally_of_filteredOut format h
    rw [hout] at hwrite
    cases hwrite
    rw [htally]
    exact ⟨rfl, s.summary.add_empty.symm⟩
  | unread h hfiles e =>
    obtain ⟨hout, htally⟩ := tally_of_failure h hfiles
    rw [hout] at hwrite
    cases hwrite
    rw [htally]
    exact ⟨rfl, by simp [State.carryOut, State.fail, State.report, Summary.add]⟩
  | unmade h hfiles t e =>
    obtain ⟨hout, htally⟩ := tally_of_failure h hfiles
    rw [hout] at hwrite
    cases hwrite
    rw [htally]
    exact ⟨rfl, by simp [State.carryOut, State.fail, State.report, Summary.add]⟩
  | made h t files hfiles =>
    obtain ⟨hout, htally⟩ := tally_of_files h hfiles
    rw [hout] at hwrite
    have hstart : writeAll o.output.path files
        { s with notices := s.notices ++ GeneratedFile.notices c t }.tree = some tree := hwrite
    obtain ⟨s', hfold, htree, hsummary⟩ := foldl_writeFile (t := t) hstart
    rw [State.carryOut, State.writeTable, hfold, htally]
    refine ⟨htree, ?_⟩
    dsimp only
    rw [hsummary]
    simp [Summary.add]

/-! ## The whole run -/

theorem runStatements_of_writes (number : Nat)
    (hfates : ∀ ddl ∈ statements, ∃ fate, Fate.ofStatement c o format ddl = .ok fate)
    (hwrite : writeAll o.output.path (output c o format statements) s.tree = some tree) :
    ∃ s', runStatements c o format number s statements = (s', none) ∧ s'.tree = tree ∧
      s'.summary = s.summary.add (tally c o format statements) := by
  induction statements generalizing s number with
  | nil =>
    cases hwrite
    exact ⟨s, rfl, rfl, s.summary.add_empty.symm⟩
  | cons ddl rest ih =>
    obtain ⟨⟨fate, hfate⟩, hrest⟩ := List.forall_mem_cons.1 hfates
    rw [← List.singleton_append, output_append, writeAll_append] at hwrite
    obtain ⟨tree', hfirst, hwrite⟩ := Option.bind_eq_some_iff.1 hwrite
    obtain ⟨htree, hsummary⟩ := carryOut_of_ends number (ends_of_ofStatement hfate) hfirst
    rw [← htree] at hwrite
    obtain ⟨s', hrun, htree', hsummary'⟩ := ih (number + 1) hrest hwrite
    rw [runStatements, hfate]
    refine ⟨s', hrun, htree', ?_⟩
    rw [hsummary', hsummary, Summary.add_assoc, ← tally_append, List.singleton_append]

theorem runStatements_returns_iff (number : Nat) (s : State) :
    (∃ s', runStatements c o format number s statements = (s', none)) ↔
      ∀ ddl ∈ statements, ∃ fate, Fate.ofStatement c o format ddl = .ok fate := by
  induction statements generalizing s number with
  | nil => simp [runStatements]
  | cons ddl rest ih =>
    rw [runStatements, List.forall_mem_cons]
    cases Fate.ofStatement c o format ddl with
    | error fault => simp
    | ok fate => simp [ih]

theorem exists_declaredName (hsplit : Ddl.splitStatements script = .ok statements) :
    ∀ ddl ∈ statements, ∃ name, Ddl.declaredName ddl = .ok name := by
  intro ddl hddl
  obtain ⟨texts, htexts, rfl⟩ := map_eq_ok.1 hsplit
  obtain ⟨text, htext, rfl⟩ := List.mem_map.1 hddl
  obtain ⟨hsplit, -⟩ := @Ddl.exists_of_mem_splitMarked _ _ _ [] _ htexts rfl text htext
  rw [Ddl.declaredName, Ddl.map_returns_iff, String.toList_ofList]
  rw [Ddl.splitMarked_eq] at hsplit
  cases hseek : Ddl.seek Ddl.createTable false (Ddl.marked text) with
  | error fault =>
    rw [hseek] at hsplit
    cases hsplit
  | ok found => exact ⟨found, rfl⟩

theorem fates_iff (c : Config) (o : Options) (format : Formatter)
    (hsplit : Ddl.splitStatements script = .ok statements) :
    (∀ ddl ∈ statements, ∃ fate, Fate.ofStatement c o format ddl = .ok fate) ↔
      ∀ ddl ∈ statements, Scannable ddl := by
  refine forall₂_congr fun ddl hddl => ?_
  obtain ⟨name, hname⟩ := exists_declaredName hsplit ddl hddl
  exact ofStatement_returns_iff hname

/-- A run works through the statements of its script below the directory that it prepares. -/
theorem run_eq (c : Config) (format : Formatter)
    (hsplit : Ddl.splitStatements script = .ok statements)
    (hroot : State.prepareOutput o tree = (tree', true)) :
    ∃ notices, run c o format tree script =
      match runStatements c o format 1 { tree := tree', notices } statements with
      | (s, none) => (s.report .info s.summary.text, none)
      | aborted => aborted := by
  unfold run runAll
  rw [hsplit]
  cases statements with
  | nil =>
    dsimp only
    rw [hroot]
    exact ⟨_, rfl⟩
  | cons ddl rest =>
    dsimp only
    rw [hroot]
    exact ⟨_, rfl⟩

theorem run_returns_iff (hsplit : Ddl.splitStatements script = .ok statements)
    (hroot : State.prepareOutput o tree = (tree', true)) :
    (∃ s, run c o format tree script = (s, none)) ↔ ∀ ddl ∈ statements, Scannable ddl := by
  obtain ⟨notices, hrun⟩ := run_eq c format hsplit hroot
  rw [hrun, ← fates_iff c o format hsplit,
    ← runStatements_returns_iff 1 { tree := tree', notices }]
  cases hs : runStatements c o format 1 { tree := tree', notices } statements with
  | mk s abort => cases abort <;> simp

theorem run_of_writes (hsplit : Ddl.splitStatements script = .ok statements)
    (hroot : State.prepareOutput o tree = (tree', true))
    (hscan : ∀ ddl ∈ statements, Scannable ddl) {final : Tree}
    (hwrite : writeAll o.output.path (output c o format statements) tree' = some final) :
    ∃ s, run c o format tree script = (s, none) ∧ s.tree = final ∧
      s.summary = tally c o format statements := by
  obtain ⟨notices, hrun⟩ := run_eq c format hsplit hroot
  obtain ⟨s, hs, htree, hsummary⟩ := runStatements_of_writes 1
    (s := { tree := tree', notices }) ((fates_iff c o format hsplit).2 hscan) hwrite
  rw [hs] at hrun
  exact ⟨_, hrun, htree, hsummary.trans (Summary.empty_add _)⟩

def tintTable : Sql.CreateTable where
  qualifier := []
  name := ⟨"tint", none⟩
  columns := [⟨⟨"id", none⟩, .builtin "INT8" none "", [.primaryKey]⟩]
  constraints := []

def intoOut : Options where
  output := ⟨"out", ["out"]⟩
  clean := false
  tables := []

theorem read_tints : Table.read Config.default "create table tint (id int8 primary key);" =
    .ok (.ok (Table.ofCreateTable Config.default false tintTable)) := by
  have hstrip : Ddl.stripPartition "create table tint (id int8 primary key);" =
      .ok ("create table tint (id int8 primary key);", false) := by decide
  have htokens : Sql.tokenize "create table tint (id int8 primary key);".toList =
      some [.word "create" "CREATE", .word "table" "TABLE", .word "tint" "TINT", .operator "(",
        .word "id" "ID", .word "int8" "INT8", .word "primary" "PRIMARY", .word "key" "KEY",
        .operator ")", .operator ";"] := by cbv
  have hparse : Sql.Parser.statements [.word "create" "CREATE", .word "table" "TABLE",
      .word "tint" "TINT", .operator "(", .word "id" "ID", .word "int8" "INT8",
      .word "primary" "PRIMARY", .word "key" "KEY", .operator ")", .operator ";"] =
      some [.createTable tintTable] := by cbv
  rw [Table.read, hstrip]
  dsimp only [Except.map, Table.ofSql, Sql.parseStatements]
  rw [htokens]
  dsimp only [Option.bind]
  rw [hparse]
  rfl

theorem plain_tints : Units.Plain
    (Entity.ofTable Config.default (Table.ofCreateTable Config.default false tintTable))
    (Units.Calls.ofConfig Config.default)
    ⟨⟨"id", "int8", none, none, none, false, true, false, false⟩, "id", "Long", [], none, none⟩
    [] := by
  decide +kernel

theorem read_nameless :
    Table.read Config.default "create table ;" = .ok (.error .malformedSql) := by
  have hstrip : Ddl.stripPartition "create table ;" = .ok ("create table ;", false) := by
    decide
  have hparse : Sql.parseStatements "create table ;" = none := by cbv
  rw [Table.read, hstrip]
  dsimp only [Except.map, Table.ofSql]
  rw [hparse]

theorem mapM_formatted_ok (us : List Java.CompilationUnit) :
    us.mapM (GeneratedFile.formatted fun source => .ok source) =
      .ok (us.map fun u => ⟨u.package, u.typeName, u.text⟩) := by
  rw [mapM_eq_ok]
  exact List.forall₂_map_right_iff.2 (List.forall₂_same.2 fun u _ => rfl)

theorem isSome_writeAll {us : Units.TableUnits}
    (h : Units.units (.ofTable Config.default (Table.ofCreateTable Config.default false tintTable))
      (.ofConfig Config.default) = .ok us) :
    ((us.toList.mapM (GeneratedFile.formatted fun source => .ok source)).toOption.bind fun files =>
      writeAll ["out"] files (.directory [("out", .empty)])).isSome = true := by
  have hplaces : us.toList.map (fun u => (u.package, u.typeName)) =
      [("com.a1stream.domain.entity", "Tint"), ("com.a1stream.domain.repository", "TintRepository"),
        ("com.a1stream.domain.vo", "TintVO")] := by
    rw [Units.places_of_unitsUnder h]
    decide
  rw [mapM_formatted_ok]
  obtain ⟨entity, key, repository, valueObject⟩ := us
  cases key with
  | none =>
    simp [Units.TableUnits.toList] at hplaces
    simp [Units.TableUnits.toList, hplaces]
    generalize entity.text = a
    generalize repository.text = b
    generalize valueObject.text = c
    have hentity : GeneratedFile.path ⟨"com.a1stream.domain.entity", "Tint", a⟩ =
        ["com", "a1stream", "domain", "entity", "Tint.java"] := by
      change GeneratedFile.path ⟨_, _, ""⟩ = _
      decide
    have hrepository : GeneratedFile.path ⟨"com.a1stream.domain.repository", "TintRepository", b⟩ =
        ["com", "a1stream", "domain", "repository", "TintRepository.java"] := by
      change GeneratedFile.path ⟨_, _, ""⟩ = _
      decide
    have hvo : GeneratedFile.path ⟨"com.a1stream.domain.vo", "TintVO", c⟩ =
        ["com", "a1stream", "domain", "vo", "TintVO.java"] := by
      change GeneratedFile.path ⟨_, _, ""⟩ = _
      decide
    simp only [Except.toOption, Option.bind, writeAll, GeneratedFile.write, hentity, hrepository,
      hvo]
    rfl
  | some key => simp [Units.TableUnits.toList] at hplaces

end Batch

end JpaScaffold
