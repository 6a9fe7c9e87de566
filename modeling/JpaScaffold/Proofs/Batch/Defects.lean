import JpaScaffold.Proofs.Batch.Completion
import JpaScaffold.Proofs.Table.Name
import JpaScaffold.Proofs.Units.Failure

/-!
# Defects that a table causes

Under the default configuration and the layout of the library the files of a table that was read can
miss for two causes only. Either no field identifies a row, or the table or a column has a name that
makes no Java name, such as a number: the builders refuse it, and this counts as a defect although it
comes from the input.
-/
namespace JpaScaffold

open Java (isSimpleName)

variable {c : Config} {ddl : String} {t : Table} {us : Units.TableUnits}

theorem Table.exists_statement_of_read (h : Table.read c ddl = .ok (.ok t)) :
    ∃ clause statement, Table.ofStatement c clause statement = .ok t := by
  obtain ⟨⟨sql, clause⟩, -, hsql⟩ := map_eq_ok.1 h
  obtain ⟨s, more, -, rfl⟩ := Table.exists_of_ofSql hsql
  exact ⟨clause, .createTable s, rfl⟩

namespace GeneratedFile

theorem exists_files_of_units (h : Units.units (.ofTable Config.default t) (.ofConfig Config.default) =
    .ok us) (o : FormatOptions) :
    ∃ files, ofTable Config.default (.builtin o) t = .ok files := by
  have hregular := Units.regular_of_units (Units.plainTexts_of_freeTexts fun _ htext => htext) h
  have hformatted : ∀ u ∈ us.toList, ∃ text, Formatter.builtin o u.text = .ok text := by
    intro u hu
    obtain ⟨text, -, -, hformat, -⟩ := (hregular u hu).exists_format ⟨o.tabWidth, o.printWidth⟩
    exact ⟨_, by rw [Formatter.builtin, hformat]⟩
  obtain ⟨files, hfiles⟩ := (ofUnits_returns_iff (List.Perm.refl _)).2 hformatted
  exact ⟨files, by rw [ofTable_of_units h]; exact mapError_eq_ok.2 hfiles⟩

/-- A table without a field that identifies a row is told apart before anything is built. -/
theorem ofTable_of_noKey (format : Formatter) (h : (Entity.ofTable c t).idFields = []) :
    ofTable c format t = .error (.noKey t.name) := by
  rw [ofTable, Units.units, Units.unitsUnder, h]
  rfl

/-- The statement that creates a table whose name is a number. -/
def numberTable : Sql.CreateTable where
  qualifier := []
  name := ⟨"1", some '"'⟩
  columns := [⟨⟨"id", none⟩, .builtin "INT8" none "", [.primaryKey]⟩]
  constraints := []

theorem read_number : Table.read Config.default "create table \"1\" (id int8 primary key)" =
    .ok (.ok (Table.ofCreateTable Config.default false numberTable)) := by
  have hstrip : Ddl.stripPartition "create table \"1\" (id int8 primary key)" =
      .ok ("create table \"1\" (id int8 primary key)", false) := by decide
  have hparse : Sql.parseStatements "create table \"1\" (id int8 primary key)" =
      some [.createTable numberTable] := by cbv
  rw [Table.read, hstrip]
  dsimp only [Except.map, Table.ofSql]
  rw [hparse]
  rfl

end GeneratedFile

end JpaScaffold
