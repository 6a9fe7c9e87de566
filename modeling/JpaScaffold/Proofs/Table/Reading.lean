import JpaScaffold.Table.Reading
import Mathlib.Data.List.Forall2
import Mathlib.Data.List.Basic
import Mathlib.Tactic.Common

/-!
# The table of a CREATE TABLE tree

Keys, columns and their flags come from separate passes over the tree. They agree for every tree: the
keys are the declared ones that name a column which is kept, each once and in the order of their first
mention, and a column is flagged exactly if its name is among them.
-/
namespace JpaScaffold

variable {c : Config} {s : Sql.CreateTable} {d : Sql.ColumnDef} {keys : List String}

/-! ## Names in the order of their first mention -/

section FirstMention

variable {l : List String} {a b : String} {p : String → Bool}

theorem idxOf_lt_of_filter (hb : p b = true) (h : (l.filter p).idxOf a < (l.filter p).idxOf b) :
    l.idxOf a < l.idxOf b := by
  induction l with
  | nil => simp at h
  | cons x l ih =>
    by_cases hxa : x = a
    · subst hxa
      by_cases hxb : x = b
      · rw [hxb] at h
        exact absurd h (Nat.lt_irrefl _)
      · rw [List.idxOf_cons_self, List.idxOf_cons_ne _ hxb]
        exact Nat.succ_pos _
    · by_cases hxb : x = b
      · subst hxb
        rw [List.filter_cons_of_pos hb, List.idxOf_cons_self] at h
        cases h
      · rw [List.idxOf_cons_ne _ hxa, List.idxOf_cons_ne _ hxb]
        apply Nat.succ_lt_succ
        apply ih
        by_cases hx : p x = true
        · rw [List.filter_cons_of_pos hx, List.idxOf_cons_ne _ hxa, List.idxOf_cons_ne _ hxb] at h
          exact Nat.lt_of_succ_lt_succ h
        · rwa [List.filter_cons_of_neg hx] at h

/-- Each name once, in the order in which the names are mentioned first. -/
theorem pairwise_idxOf_eraseDups (l : List String) :
    l.eraseDups.Pairwise fun a b => l.idxOf a < l.idxOf b := by
  induction hn : l.length using Nat.strongRecOn generalizing l with
  | _ n ih =>
    cases l with
    | nil => simp
    | cons x l =>
      rw [List.eraseDups_cons, List.pairwise_cons]
      have hmem : ∀ b ∈ (l.filter fun y => !y == x).eraseDups, b ≠ x := by
        intro b hb
        simpa using (List.mem_filter.1 (List.mem_eraseDups.1 hb)).2
      constructor
      · intro b hb
        rw [List.idxOf_cons_self, List.idxOf_cons_ne _ (hmem b hb).symm]
        exact Nat.succ_pos _
      · have hlt : (l.filter fun y => !y == x).length < n := by
          rw [← hn, List.length_cons]
          exact Nat.lt_succ_of_le (List.length_filter_le ..)
        refine (ih _ hlt _ rfl).imp_of_mem fun {a b} ha hb h => ?_
        rw [List.idxOf_cons_ne _ (hmem a ha).symm, List.idxOf_cons_ne _ (hmem b hb).symm]
        apply Nat.succ_lt_succ
        exact idxOf_lt_of_filter (by simpa using hmem b hb) h

end FirstMention

/-! ## Names and columns of a tree -/

namespace Sql

/-- The names in the keys of a table, as often as they are mentioned: those of its constraints, then the
columns that are marked themselves. -/
def CreateTable.keyNames (s : CreateTable) : List String :=
  s.constraints.flatMap Constraint.primaryKeyColumns ++
    (s.columns.filter fun d => .primaryKey ∈ d.options).map fun d => d.name.value

/-- The column is no array, and the configuration does not omit it. -/
def ColumnDef.Kept (c : Config) (d : ColumnDef) : Prop :=
  d.type.isArray = false ∧ d.name.value ∉ c.omitColumns

instance (c : Config) : DecidablePred (ColumnDef.Kept c) := fun _ =>
  inferInstanceAs (Decidable (_ ∧ _))

theorem CreateTable.declaredKeys_eq (s : CreateTable) : s.declaredKeys = s.keyNames.eraseDups := by
  have hmarked : s.columns.filter ColumnDef.isPrimaryKey =
      s.columns.filter fun d => .primaryKey ∈ d.options :=
    List.filter_congr fun d _ => List.contains_eq_mem ..
  rw [declaredKeys, hmarked, keyNames]

theorem ColumnDef.kept_iff (c : Config) (d : ColumnDef) :
    d.Kept c ↔ (!d.type.isArray && !c.omits d.name.value) = true := by
  unfold ColumnDef.Kept Config.omits
  simp

theorem CreateTable.retained_eq (s : CreateTable) (c : Config) :
    s.retained c = s.columns.filter fun d => d.Kept c := by
  apply List.filter_congr
  intro d _
  rw [Bool.eq_iff_iff, decide_eq_true_iff, d.kept_iff c]

theorem TypeName.name_of_length (t : TypeName) (h : t.length.isSome = true) :
    t.name ∈ ["varchar", "character varying"] := by
  unfold length at h
  split at h
  · next hname => simpa [or_comm] using hname
  · cases h

theorem TypeName.name_of_precision (t : TypeName) (h : t.precision.isSome = true) :
    t.name = "numeric" := by
  unfold precision at h
  split at h
  · next hname => exact hname
  · cases h

theorem TypeName.precision_of_scale (t : TypeName) (h : t.scale.isSome = true) :
    t.name = "numeric" ∧ t.precision.isSome = true := by
  unfold scale at h
  split at h
  · next hname =>
    refine ⟨hname, ?_⟩
    have hargs : 1 < t.args.length := by simpa using h
    rw [precision, if_pos hname, List.getElem?_eq_getElem (Nat.lt_of_succ_lt hargs)]
    rfl
  · cases h

end Sql

/-- The column is the one of the definition, in a table with these keys. -/
structure Column.Describes (c : Config) (keys : List String) (d : Sql.ColumnDef) (column : Column) :
    Prop where
  name : column.name = d.name.value
  sqlType : column.sqlType = (Sql.TypeName.parse d.type.text).name
  nullable : column.nullable = true ↔ .null ∈ d.options
  primaryKey : column.isPrimaryKey = true ↔ column.name ∈ keys
  partitionKey : column.isPartitionKey = true ↔ column.name = c.partitionKey ∧ c.partitionKey ∈ keys
  length : column.length.isSome = true → column.sqlType ∈ ["varchar", "character varying"]
  precision : column.precision.isSome = true → column.sqlType = "numeric"
  scale : column.scale.isSome = true → column.sqlType = "numeric" ∧ column.precision.isSome = true
  json : column.json = true ↔ column.sqlType ∈ ["json", "jsonb"]

theorem Column.describes_ofDef (c : Config) (keys : List String) (d : Sql.ColumnDef) :
    Column.Describes c keys d (Column.ofDef c keys d) := by
  unfold Column.ofDef
  generalize htype : Sql.TypeName.parse d.type.text = type
  constructor
  case name => rfl
  case sqlType => rw [htype]
  case nullable => exact List.contains_iff_mem
  case primaryKey => exact List.contains_iff_mem
  case partitionKey => simp [and_comm]
  case length => exact type.name_of_length
  case precision => exact type.name_of_precision
  case scale => exact type.precision_of_scale
  case json => simp [Sql.TypeName.isJson]

/-- The table is the one of the tree: its columns are the columns that are kept, and its keys are the
declared keys that name one of them. -/
structure Table.IsOf (c : Config) (s : Sql.CreateTable) (t : Table) : Prop where
  name : t.name = s.name.value
  columns :
    List.Forall₂ (Column.Describes c t.primaryKeys) (s.columns.filter fun d => d.Kept c) t.columns
  keys_nodup : t.primaryKeys.Nodup
  mem_keys : ∀ key,
    key ∈ t.primaryKeys ↔ key ∈ s.keyNames ∧ ∃ column ∈ t.columns, column.name = key
  keys_ordered : t.primaryKeys.Pairwise fun k l => s.keyNames.idxOf k < s.keyNames.idxOf l

theorem Table.isOf_ofCreateTable (c : Config) (clause : Bool) (s : Sql.CreateTable) :
    Table.IsOf c s (Table.ofCreateTable c clause s) := by
  have hkeys : (Table.ofCreateTable c clause s).primaryKeys =
      s.keyNames.eraseDups.filter fun key => (s.retained c).any fun d => d.name.value == key := by
    rw [← s.declaredKeys_eq]
    rfl
  have hordered : (Table.ofCreateTable c clause s).primaryKeys.Pairwise
      fun k l => s.keyNames.idxOf k < s.keyNames.idxOf l := by
    rw [hkeys]
    exact (pairwise_idxOf_eraseDups _).filter _
  constructor
  · rfl
  · rw [← s.retained_eq]
    refine List.forall₂_map_right_iff.2 (List.forall₂_same.2 fun d _ => ?_)
    exact Column.describes_ofDef c _ d
  · unfold List.Nodup
    apply hordered.imp
    rintro k l hlt rfl
    exact Nat.lt_irrefl _ hlt
  · intro key
    rw [hkeys, List.mem_filter, List.mem_eraseDups]
    refine and_congr_right fun _ => ?_
    simp [Table.ofCreateTable, Column.ofDef]
  · exact hordered

/-- Every tree is read, and what is read is its table. -/
theorem Table.exists_isOf (c : Config) (clause : Bool) (s : Sql.CreateTable) :
    ∃ t, Table.ofStatement c clause (.createTable s) = .ok t ∧ t.partitionClause = clause ∧
      Table.IsOf c s t :=
  ⟨_, rfl, rfl, Table.isOf_ofCreateTable c clause s⟩

end JpaScaffold
