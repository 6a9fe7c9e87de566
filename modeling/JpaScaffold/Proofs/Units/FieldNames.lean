import JpaScaffold.Proofs.Units.Key

/-!
# The names of the fields

A class takes the names of its fields from the columns, and nothing looks for two fields of one name.
The names are distinct exactly where the columns' names stay distinct as field names and none of them
is the name of a field that every class has. A key holds the partition besides the fields that
identify a row, which are other fields if one column is the partition for the table and its entity.
-/
namespace JpaScaffold.Units

open Java (ClassDecl CompilationUnit FieldDecl)

variable {e : Entity} {p : Policy} {calls : Calls} {c₀ c : Config} {t : Table} {us : TableUnits}
  {u : CompilationUnit}

def fieldNames (d : ClassDecl) : List String := d.fields.map FieldDecl.name

/-- The names that the columns of a table have as fields. -/
def columnNames (t : Table) : List String := t.columns.map fun d => Naming.fieldName d.name

/-- No class among the units of a table declares two fields of one name. -/
def NamesDistinct (us : TableUnits) : Prop :=
  ∀ u ∈ us.toList, ∀ d, u.decl = .classDecl d → (fieldNames d).Nodup

theorem nodup_eraseDups (l : List String) : l.eraseDups.Nodup := by
  cases l with
  | nil => simp
  | cons a l =>
    rw [List.eraseDups_cons, List.nodup_cons]
    exact ⟨by simp [List.mem_eraseDups], nodup_eraseDups _⟩
termination_by l.length
decreasing_by exact Nat.lt_succ_of_le (List.length_filter_le ..)

/-- Names between two others are distinct, with them, if they are distinct and neither of the two. -/
theorem nodup_framed {first last : String} {names : List String} (h : first ≠ last) :
    (first :: names ++ [last]).Nodup ↔ names.Nodup ∧ first ∉ names ∧ last ∉ names := by
  rw [List.cons_append, List.nodup_cons, ← List.concat_eq_append, List.nodup_concat,
    List.concat_eq_append, List.mem_append, List.mem_singleton]
  tauto

/-! ## The classes -/

theorem fieldNames_of_entityUnit (h : entityUnit e p = .ok u) :
    ∃ d, u.decl = .classDecl d ∧
      fieldNames d = "serialVersionUID" :: e.fields.map EntityField.name ++ ["isNew"] := by
  obtain ⟨d, fields, hdecl, hfields, hdeclared⟩ := fields_of_entityUnit h
  refine ⟨d, hdecl, ?_⟩
  rw [fieldNames, hfields, names_of_declared hdeclared, List.map_append]
  rfl

theorem fieldNames_of_valueObjectUnit (h : valueObjectUnit e p calls = .ok u) :
    ∃ d, u.decl = .classDecl d ∧
      fieldNames d = "serialVersionUID" :: e.fields.map EntityField.name := by
  obtain ⟨d, fields, hdecl, hfields, hdeclared⟩ := fields_of_valueObjectUnit h
  refine ⟨d, hdecl, ?_⟩
  rw [fieldNames, hfields, names_of_declared hdeclared]
  rfl

theorem fieldNames_of_keyUnit (h : keyUnit e calls = .ok u) :
    ∃ d partition, u.decl = .classDecl d ∧ e.partitionName = some partition ∧
      fieldNames d = "serialVersionUID" :: e.idFields.map EntityField.name ++ [partition] := by
  obtain ⟨partition, -, hpartition, h⟩ := keyUnit_eq_ok.1 h
  obtain ⟨key, type, fields, s, -, -, -, hdeclared, -, -, -, -, -, -, -, rfl⟩ := buildKey_eq_ok.1 h
  refine ⟨_, partition, rfl, hpartition, ?_⟩
  rw [fieldNames, keyClass, ClassDecl.fields_of_members, names_of_declared hdeclared, List.map_append]
  rfl

/-- The classes among the units are the entity, the value object and the key. -/
theorem namesDistinct_iff (h : units e calls = .ok us) :
    NamesDistinct us ↔
      ("serialVersionUID" :: e.fields.map EntityField.name ++ ["isNew"]).Nodup ∧
        (e.hasCompositeKey = true → ∀ partition, e.partitionName = some partition →
          ("serialVersionUID" :: e.idFields.map EntityField.name ++ [partition]).Nodup) := by
  constructor
  · intro hall
    obtain ⟨-, hentity, hkey, -, -⟩ := unitsUnder_eq_ok.1 h
    refine ⟨?_, fun hcomposite partition hpartition => ?_⟩
    · obtain ⟨entity, hdecl, hnames⟩ := fieldNames_of_entityUnit hentity
      rw [← hnames]
      exact hall us.entity (by simp [TableUnits.toList]) entity hdecl
    · rw [optionalKeyUnit_eq_ok, compositeKey_of, if_pos hcomposite] at hkey
      obtain ⟨unit, hunit, hbuilt⟩ := hkey
      obtain ⟨d, partition', hdecl, hpartition', hnames⟩ := fieldNames_of_keyUnit hbuilt
      rw [hpartition'] at hpartition
      cases hpartition
      rw [← hnames]
      exact hall unit (by simp [TableUnits.toList, hunit]) d hdecl
  · rintro ⟨hnames, hkeyNames⟩ u hu d hd
    rcases built_of_mem h hu with hentity | ⟨hcomposite, hkey⟩ | hrepository | hvo
    · obtain ⟨entity, hdecl, hentityNames⟩ := fieldNames_of_entityUnit hentity
      rw [hdecl] at hd
      cases hd
      rwa [hentityNames]
    · obtain ⟨key, partition, hdecl, hpartition, hkeyNames'⟩ := fieldNames_of_keyUnit hkey
      rw [hdecl] at hd
      cases hd
      rw [compositeKey_of] at hcomposite
      rw [hkeyNames']
      exact hkeyNames hcomposite partition hpartition
    · obtain ⟨id, more, -, hbuilt⟩ := repositoryUnit_eq_ok.1 hrepository
      obtain ⟨base, type, key, s, -, -, -, -, -, -, rfl⟩ := buildRepository_eq_ok.1 hbuilt
      cases hd
    · obtain ⟨vo, hdecl, hvoNames⟩ := fieldNames_of_valueObjectUnit hvo
      rw [hdecl] at hd
      cases hd
      rw [hvoNames]
      exact hnames.sublist (List.sublist_append_left ..)

/-! ## The names of a table -/

theorem map_name_fields (c : Config) (t : Table) :
    (Entity.ofTable c t).fields.map EntityField.name = columnNames t := by
  simp only [Entity.ofTable, columnNames, List.map_map]
  rfl

/-- The names of the fields that are looked up are among the names that were looked for, in their
order. -/
theorem map_name_filterMap_field? (names : List String) :
    ((names.filterMap e.field?).map EntityField.name).Sublist names := by
  induction names with
  | nil => exact .slnil
  | cons name names ih =>
    rw [List.filterMap_cons]
    cases hf : e.field? name with
    | none => exact ih.cons name
    | some f =>
      rw [List.map_cons, (mem_fields_of_field? hf).2]
      exact ih.cons_cons name

theorem nodup_idFields (h : e.primaryKeys.Nodup) : (e.idFields.map EntityField.name).Nodup :=
  h.sublist ((List.filter_sublist.map _).trans (map_name_filterMap_field? (e := e) e.primaryKeys))

theorem field?_name {f : EntityField} (h : (e.fields.map EntityField.name).Nodup) (hf : f ∈ e.fields) :
    e.field? f.name = some f := by
  obtain ⟨g, hg⟩ : ∃ g, e.field? f.name = some g :=
    Option.isSome_iff_exists.1 (List.find?_isSome.2 ⟨f, hf, beq_self_eq_true _⟩)
  obtain ⟨hmem, hname⟩ := mem_fields_of_field? hg
  rw [hg, List.inj_on_of_nodup_map h hmem hf hname]

theorem partitionName_ofTable {d : Column} (hd : d ∈ t.columns) (hpartition : d.name = c.partitionKey) :
    (Entity.ofTable c t).partitionName = some (Naming.fieldName d.name) := by
  have hsome : ((t.columns.map (EntityField.ofColumn c)).find?
      (·.column.name == c.partitionKey)).isSome = true := by
    refine List.find?_isSome.2 ⟨_, List.mem_map_of_mem hd, ?_⟩
    simpa [EntityField.ofColumn] using hpartition
  obtain ⟨f, hf⟩ := Option.isSome_iff_exists.1 hsome
  have hname : f.column.name = c.partitionKey := by simpa using List.find?_some hf
  obtain ⟨d', hd', rfl⟩ := List.mem_map.1 (List.mem_of_find?_eq_some hf)
  refine Option.map_eq_some_iff.2 ⟨_, hf, ?_⟩
  rw [hpartition]
  exact congrArg Naming.fieldName hname

/-- The keys of a table are columns, each named once, and a column is marked as a part of the key
unless it is the partition. -/
structure KeyMarked (partitionKey : String) (t : Table) : Prop where
  nodup : t.primaryKeys.Nodup
  column : ∀ key ∈ t.primaryKeys, ∃ d ∈ t.columns, d.name = key
  isId : ∀ (c : Config), ∀ d ∈ t.columns, (EntityField.ofColumn c d).isId = true ↔
    d.name ∈ t.primaryKeys ∧ d.name ≠ partitionKey

theorem keyMarked_of_read {clause : Bool} {statement : Sql.Statement}
    (h : Table.ofStatement c₀ clause statement = .ok t) : KeyMarked c₀.partitionKey t := by
  cases statement with
  | other => cases h
  | createTable s =>
    cases h
    refine ⟨(nodup_eraseDups _).filter _, fun key hkey => ?_, fun c d hd => ?_⟩
    · obtain ⟨-, hretained⟩ := List.mem_filter.1 hkey
      obtain ⟨d, hd, hname⟩ := List.any_eq_true.1 hretained
      exact ⟨_, List.mem_map_of_mem hd, beq_iff_eq.1 hname⟩
    · obtain ⟨d, -, rfl⟩ := List.mem_map.1 hd
      rw [isId_ofDef]
      exact and_congr_left fun _ => List.contains_iff_mem

theorem KeyMarked.nodup_primaryKeys {partitionKey : String} (h : KeyMarked partitionKey t)
    (hdistinct : (columnNames t).Nodup) : (Entity.ofTable c t).primaryKeys.Nodup := by
  refine h.nodup.map_on fun key hkey key' hkey' hsame => ?_
  obtain ⟨d, hd, rfl⟩ := h.column key hkey
  obtain ⟨d', hd', rfl⟩ := h.column key' hkey'
  rw [List.inj_on_of_nodup_map hdistinct hd hd' hsame]

/-- The partition identifies a row only where it is not the partition of the table that was read. -/
theorem KeyMarked.mem_idFields_iff {partitionKey : String} (h : KeyMarked partitionKey t)
    (hdistinct : (columnNames t).Nodup) {d : Column} (hd : d ∈ t.columns)
    (hkey : d.name ∈ t.primaryKeys) :
    Naming.fieldName d.name ∈ (Entity.ofTable c t).idFields.map EntityField.name ↔
      d.name ≠ partitionKey := by
  have hnodup : ((Entity.ofTable c t).fields.map EntityField.name).Nodup := by
    rwa [map_name_fields]
  have hfield : EntityField.ofColumn c d ∈ (Entity.ofTable c t).fields := List.mem_map_of_mem hd
  have hisId : (EntityField.ofColumn c d).isId = true ↔ d.name ≠ partitionKey := by
    rw [h.isId c d hd, and_iff_right hkey]
  rw [← hisId, List.mem_map]
  constructor
  · rintro ⟨f, hf, hname⟩
    obtain ⟨hmem, hid⟩ := mem_fields_of_mem_idFields hf
    rwa [← List.inj_on_of_nodup_map hnodup hmem hfield hname]
  · intro hid
    refine ⟨_, List.mem_filter.2 ⟨List.mem_filterMap.2 ⟨_, ?_, field?_name hnodup hfield⟩, hid⟩, rfl⟩
    exact List.mem_map_of_mem (f := Naming.fieldName) hkey

/-- The classes that are generated for a table that was read declare no two fields of one name if
and only if the columns have distinct field names, none of them is the name of a field that every
class has, and the partition in the key is the one under which the table was read. -/
theorem namesDistinct_of_read {clause : Bool} {statement : Sql.Statement}
    (hread : Table.ofStatement c₀ clause statement = .ok t)
    (hunits : units (Entity.ofTable c t) (Calls.ofConfig c) = .ok us) :
    NamesDistinct us ↔ (columnNames t).Nodup ∧ "serialVersionUID" ∉ columnNames t ∧
      "isNew" ∉ columnNames t ∧ (c.partitionKey ∈ t.primaryKeys → c.partitionKey = c₀.partitionKey) := by
  have hmarked := keyMarked_of_read hread
  have hframe : ("serialVersionUID" :: (Entity.ofTable c t).fields.map EntityField.name ++
      ["isNew"]).Nodup ↔ (columnNames t).Nodup ∧ "serialVersionUID" ∉ columnNames t ∧
        "isNew" ∉ columnNames t := by
    rw [map_name_fields, nodup_framed (by decide)]
  rw [namesDistinct_iff hunits, hframe, and_assoc, and_assoc]
  refine and_congr_right fun hdistinct => and_congr_right fun hserial => and_congr_right fun _ => ?_
  rw [hasCompositeKey_ofTable]
  refine forall_congr' fun hkey => ?_
  obtain ⟨d, hd, hname⟩ := hmarked.column _ hkey
  have hids := nodup_idFields (hmarked.nodup_primaryKeys (c := c) hdistinct)
  have hserialIds : "serialVersionUID" ∉ (Entity.ofTable c t).idFields.map EntityField.name := by
    intro hmem
    obtain ⟨f, hf, hfname⟩ := List.mem_map.1 hmem
    refine hserial ?_
    rw [← map_name_fields c, ← hfname]
    exact List.mem_map_of_mem (mem_fields_of_mem_idFields hf).1
  have hpartition : "serialVersionUID" ≠ Naming.fieldName d.name := by
    rintro hsame
    rw [hsame] at hserial
    exact hserial (List.mem_map_of_mem hd)
  have hmem := hmarked.mem_idFields_iff (c := c) hdistinct hd (by rwa [hname])
  rw [partitionName_ofTable hd hname]
  constructor
  · intro h
    by_contra hne
    exact ((nodup_framed hpartition).1 (h _ rfl)).2.2 (hmem.2 (by rwa [hname]))
  · rintro hsame partition ⟨⟩
    refine (nodup_framed hpartition).2 ⟨hids, hserialIds, fun hin => hmem.1 hin ?_⟩
    rw [hname, hsame]

/-- The statement that creates a table of orders, one of whose columns takes the name of the flag
that every entity has. -/
def orderTable : Sql.CreateTable where
  qualifier := []
  name := ⟨"order_item", none⟩
  columns :=
    [⟨⟨"id", none⟩, .builtin "INT8" none "", [.primaryKey]⟩,
      ⟨⟨"is_new", none⟩, .builtin "BOOLEAN" none "", []⟩]
  constraints := []

theorem plain_orders : Plain
    (Entity.ofTable Config.default (Table.ofCreateTable Config.default false orderTable))
    (Calls.ofConfig Config.default) colorId [] := by
  decide

/-- Distinct columns do not make distinct fields. -/
theorem not_namesDistinct_of_orders :
    (orderTable.columns.map fun d => d.name.value).Nodup ∧
      ∃ us, Table.ofStatement Config.default false (.createTable orderTable) =
          .ok (Table.ofCreateTable Config.default false orderTable) ∧
        units (Entity.ofTable Config.default (Table.ofCreateTable Config.default false orderTable))
          (Calls.ofConfig Config.default) = .ok us ∧ ¬NamesDistinct us := by
  obtain ⟨us, hunits⟩ := plain_orders.exists_units
  refine ⟨by decide, us, rfl, hunits, ?_⟩
  rw [namesDistinct_iff hunits]
  rintro ⟨hnames, -⟩
  revert hnames
  decide +kernel

theorem namesDistinct_of_stocks :
    ∃ us, Table.ofStatement Config.default true (.createTable stockTable) =
        .ok (Table.ofCreateTable Config.default true stockTable) ∧
      units (Entity.ofTable Config.default (Table.ofCreateTable Config.default true stockTable))
        (Calls.ofConfig Config.default) = .ok us ∧ NamesDistinct us := by
  obtain ⟨us, hunits⟩ := plain_stocks.exists_units
  have hread : Table.ofStatement Config.default true (.createTable stockTable) =
      .ok (Table.ofCreateTable Config.default true stockTable) := rfl
  refine ⟨us, hread, hunits, (namesDistinct_of_read hread hunits).2 ?_⟩
  decide +kernel

end JpaScaffold.Units
