import JpaScaffold.Proofs.Table.Reading

/-!
# The columns that the keys name

PostgreSQL takes the letters of an unquoted name as small ones, so that a key may be spelled otherwise
than the column that it names. A table keeps a key if a column that is kept is spelled as the key
is, whatever their quotes. Both come to the same if every key is spelled as the columns that it
names and as no other ones. Else a key may be lost although it names a column that is kept.
-/
namespace JpaScaffold

variable {c : Config} {clause : Bool} {s : Sql.CreateTable} {d : Sql.ColumnDef} {t : Table}
  {key : String} {same same' : Sql.Ident → Sql.Ident → Prop}

namespace Sql

def Ident.folded (i : Ident) : String :=
  if i.quote.isSome then i.value else Text.mapChars (List.map Char.toLower) i.value

/-- The identifiers stand for one name. -/
def Ident.SameName (i j : Ident) : Prop := i.folded = j.folded

/-- The identifiers are spelled alike, whatever their quotes. -/
def Ident.SameSpelling (i j : Ident) : Prop := i.value = j.value

instance : DecidableRel Ident.SameName := fun _ _ => inferInstanceAs (Decidable (_ = _))

instance : DecidableRel Ident.SameSpelling := fun _ _ => inferInstanceAs (Decidable (_ = _))

/-- The identifiers of the columns of a primary key. -/
def Constraint.keyIdents : Constraint → List Ident
  | primaryKey columns => columns
  | _ => []

/-- The identifiers in the keys of a table: those of its constraints, then those of the columns that
are marked themselves. -/
def CreateTable.keyIdents (s : CreateTable) : List Ident :=
  s.constraints.flatMap Constraint.keyIdents ++
    (s.columns.filter fun d => .primaryKey ∈ d.options).map ColumnDef.name

theorem CreateTable.keyNames_eq (s : CreateTable) : s.keyNames = s.keyIdents.map Ident.value := by
  have hconstraints : s.constraints.flatMap Constraint.primaryKeyColumns =
      (s.constraints.flatMap Constraint.keyIdents).map Ident.value := by
    rw [List.map_flatMap]
    exact List.flatMap_congr fun constraint _ => by cases constraint <;> rfl
  rw [keyNames, keyIdents, hconstraints, List.map_append, List.map_map]
  rfl

end Sql

/-- The table of the tree has the keys of the tree, which are those of its columns that are the same
as one of the identifiers in its keys: a column that is kept is a key, and flagged, if it is such a
column; and a key is lost if all such columns are skipped. -/
structure Table.KeyedBy (c : Config) (s : Sql.CreateTable) (t : Table)
    (same : Sql.Ident → Sql.Ident → Prop) : Prop where
  columns : List.Forall₂
    (fun d column => column.name = d.name.value ∧
      (column.isPrimaryKey = true ↔ ∃ k ∈ s.keyIdents, same k d.name) ∧
      (column.name ∈ t.primaryKeys ↔ ∃ k ∈ s.keyIdents, same k d.name))
    (s.columns.filter fun d => d.Kept c) t.columns
  lost : ∀ k ∈ s.keyIdents,
    k.value ∉ t.primaryKeys ↔ ∀ d ∈ s.columns, same k d.name → ¬d.Kept c

theorem Table.KeyedBy.congr (h : Table.KeyedBy c s t same)
    (hsame : ∀ k ∈ s.keyIdents, ∀ d ∈ s.columns, d.Kept c → (same k d.name ↔ same' k d.name)) :
    Table.KeyedBy c s t same' where
  columns := by
    have hmem : ∀ d ∈ s.columns.filter fun d => d.Kept c, d ∈ s.columns ∧ d.Kept c :=
      fun d hd => (List.mem_filter.1 hd).imp_right of_decide_eq_true
    refine ((List.forall₂_and_left _ _).2 ⟨hmem, h.columns⟩).imp ?_
    rintro d column ⟨⟨hd, hkept⟩, hname, hflag, hkey⟩
    have hkeys := exists_congr fun k => and_congr_right fun hk => hsame k hk d hd hkept
    exact ⟨hname, hflag.trans hkeys, hkey.trans hkeys⟩
  lost k hk := by
    rw [h.lost k hk]
    refine forall₂_congr fun d hd => ?_
    rw [imp_not_comm, imp_not_comm (b := d.Kept c)]
    exact imp_congr_right fun hkept => not_congr (hsame k hk d hd hkept)

/-- The keys of a table are the spellings of its keys that are spellings of columns that are kept. -/
theorem Table.mem_primaryKeys_iff : key ∈ (Table.ofCreateTable c clause s).primaryKeys ↔
    (∃ k ∈ s.keyIdents, k.value = key) ∧ ∃ d ∈ s.columns, d.Kept c ∧ d.name.value = key := by
  rw [(Table.isOf_ofCreateTable c clause s).mem_keys, s.keyNames_eq, List.mem_map]
  refine and_congr_right fun _ => ?_
  simp [Table.ofCreateTable, Column.ofDef, s.retained_eq, and_assoc]

theorem Table.keyedBy_spelling (c : Config) (clause : Bool) (s : Sql.CreateTable) :
    Table.KeyedBy c s (Table.ofCreateTable c clause s) Sql.Ident.SameSpelling where
  columns := by
    rw [← s.retained_eq]
    refine List.forall₂_map_right_iff.2 (List.forall₂_same.2 fun d hd => ?_)
    rw [s.retained_eq] at hd
    obtain ⟨hd, hkept⟩ := List.mem_filter.1 hd
    have hkey : d.name.value ∈ (Table.ofCreateTable c clause s).primaryKeys ↔
        ∃ k ∈ s.keyIdents, k.SameSpelling d.name := by
      rw [Table.mem_primaryKeys_iff, and_iff_left ⟨d, hd, of_decide_eq_true hkept, rfl⟩]
      rfl
    exact ⟨rfl, (Column.describes_ofDef c _ d).primaryKey.trans hkey, hkey⟩
  lost k hk := by
    rw [Table.mem_primaryKeys_iff, and_iff_right ⟨k, hk, rfl⟩]
    constructor
    · intro h d hd hspelled hkept
      exact h ⟨d, hd, hkept, hspelled.symm⟩
    · rintro h ⟨d, hd, hkept, hspelled⟩
      exact h d hd hspelled.symm hkept

/-- Every tree is read, and its keys are matched with the columns that are kept by their spelling. If
each key is spelled as those of them that it names, and as no others, the table has the keys that
PostgreSQL gives it: every column that a key names and that is kept is a key, and no key is lost but
those that name none of the columns that are kept. -/
theorem keys_of_tree (c : Config) (clause : Bool) (s : Sql.CreateTable) :
    ∃ t, Table.ofStatement c clause (.createTable s) = .ok t ∧
      Table.KeyedBy c s t Sql.Ident.SameSpelling ∧
      ((∀ k ∈ s.keyIdents, ∀ d ∈ s.columns, d.Kept c →
          (k.SameSpelling d.name ↔ k.SameName d.name)) →
        Table.KeyedBy c s t Sql.Ident.SameName) :=
  ⟨_, rfl, Table.keyedBy_spelling c clause s, fun h => (Table.keyedBy_spelling c clause s).congr h⟩

/-- The statement that creates a table of entries, whose key is spelled otherwise than its column. -/
def entryTable : Sql.CreateTable where
  qualifier := []
  name := ⟨"t", none⟩
  columns := [⟨⟨"Id", none⟩, .builtin "BIGINT" none "", []⟩]
  constraints := [.primaryKey [⟨"id", none⟩]]

/-- The key of an entry is lost, although it names a column that is kept. -/
theorem lost_key_of_entries :
    (entryTable.columns.map fun d => d.name.folded).Nodup ∧
      ∃ t, Table.ofStatement Config.default false (.createTable entryTable) = .ok t ∧
        ∃ d ∈ entryTable.columns, d.Kept Config.default ∧
          (∃ k ∈ entryTable.keyIdents, k.SameName d.name) ∧ d.name.value ∉ t.primaryKeys := by
  obtain ⟨t, hread, hkeyed, -⟩ := keys_of_tree Config.default false entryTable
  have hkept : (entryTable.columns.filter fun d => d.Kept Config.default) = entryTable.columns := by
    decide
  have hspelled : ¬∃ k ∈ entryTable.keyIdents, k.SameSpelling ⟨"Id", none⟩ := by decide
  have hcolumns := hkeyed.columns
  rw [hkept] at hcolumns
  obtain ⟨column, rest, ⟨hname, -, hkey⟩, -, -⟩ := List.forall₂_cons_left_iff.1 hcolumns
  refine ⟨by decide, t, hread, _, List.mem_singleton_self _, by decide, by decide, ?_⟩
  rw [← hname, hkey]
  exact hspelled

end JpaScaffold
