import JpaScaffold.Proofs.Units.Builders
import JpaScaffold.Proofs.Units.FieldNames

/-!
# The fields that a builder sets

The chain of `builderWithDefault` puts identifiers, initial values and the partition one behind the
other. Fields of distinct names are identifiers or have an initial value, and not both, since only
fields outside the key have initial values. The partition comes last, and nothing checks whether it
has been set before: it is set twice if it has an initial value, as it may have in a table that is
partitioned by its clause alone.
-/
namespace JpaScaffold.Units

open Java (CompilationUnit)

variable {e : Entity} {p : Policy} {calls : Calls} {c₀ c : Config} {t : Table} {d : Column}
  {f : EntityField} {u : CompilationUnit} {ids values partition : List Setter}

/-- The column is the partition and is set before the lookup sets it: by a generated identifier, where
it was not the partition when the table was read, or by its initial value, where only the clause of
the table says that it is partitioned. -/
def SetTwice (c₀ c : Config) (t : Table) (d : Column) : Prop :=
  d.name = c.partitionKey ∧
    (d.name ∈ t.primaryKeys ∧ c.partitionKey ≠ c₀.partitionKey ∧
        (c.javaType d.sqlType).name ∈ generatedTypes ∨
      d.name ∉ t.primaryKeys ∧ t.partitionClause = true ∧
        (c.javaType d.sqlType).initialValue.isSome = true)

instance : Decidable (SetTwice c₀ c t d) := inferInstanceAs (Decidable (_ ∧ _))

/-- The fields that are set in front of the partition. -/
def setFields (e : Entity) : List EntityField :=
  (e.idFields.filter fun f => f.type ∈ generatedTypes) ++
    e.fields.filter fun f => f.initialValue.isSome && !f.column.isPrimaryKey

/-! ## The fields of a chain -/

theorem mem_setFields : f ∈ setFields e ↔ f ∈ e.idFields ∧ f.type ∈ generatedTypes ∨
    f ∈ e.fields ∧ f.initialValue.isSome = true ∧ f.column.isPrimaryKey = false := by
  simp [setFields]

theorem mem_fields_of_mem_setFields (h : f ∈ setFields e) : f ∈ e.fields := by
  rcases mem_setFields.1 h with ⟨hid, -⟩ | ⟨hf, -⟩
  · exact (mem_fields_of_mem_idFields hid).1
  · exact hf

theorem map_field_of_sets {l : List EntityField} {setters : List Setter}
    {made : EntityField → Setter → Prop} (h : List.Forall₂ made l setters)
    (hmade : ∀ f s, made f s → s.field = f.name) :
    setters.map Setter.field = l.map EntityField.name := by
  induction h with
  | nil => rfl
  | cons hs _ ih => rw [List.map_cons, List.map_cons, hmade _ _ hs, ih]

theorem Fills.map_field (h : Fills e p calls u ids values partition) :
    (ids ++ values ++ partition).map Setter.field =
      (setFields e).map EntityField.name ++
        (if p.voPopulatesPartition then e.partitionField.toList else []).map EntityField.name := by
  have hids := map_field_of_sets h.ids fun f s ⟨call, _, hs⟩ => by rw [hs.setter]
  have hvalues := map_field_of_sets h.values fun f s ⟨value, _, hs⟩ => by rw [hs.setter]
  have hpartition := map_field_of_sets h.partition fun f s hs => by rw [hs.setter]
  rw [List.map_append, List.map_append, hids, hvalues, hpartition, setFields, List.map_append]

/-- Identifiers belong to the key and fields with an initial value do not, so that none of them is set
twice. -/
theorem nodup_setFields (hfields : (e.fields.map EntityField.name).Nodup)
    (hkeys : e.primaryKeys.Nodup) : ((setFields e).map EntityField.name).Nodup := by
  rw [setFields, List.map_append, List.nodup_append']
  refine ⟨(nodup_idFields hkeys).sublist (List.filter_sublist.map _),
    hfields.sublist (List.filter_sublist.map _), ?_⟩
  rw [List.disjoint_left]
  intro name hid hvalue
  obtain ⟨f, hf, rfl⟩ := List.mem_map.1 hid
  obtain ⟨g, hg, hname⟩ := List.mem_map.1 hvalue
  obtain ⟨hf, hisId⟩ := mem_fields_of_mem_idFields (List.mem_filter.1 hf).1
  obtain ⟨hg, houtside⟩ := List.mem_filter.1 hg
  obtain rfl := List.inj_on_of_nodup_map hfields hg hf hname
  have hkey : g.column.isPrimaryKey = true := (Bool.and_eq_true_iff.1 hisId).1
  simp [hkey] at houtside

/-- A chain sets each field once if the partition, where it is set, is not among the fields in front of
it. -/
theorem nodup_chain_iff (hfields : (e.fields.map EntityField.name).Nodup)
    (hkeys : e.primaryKeys.Nodup) (h : Fills e p calls u ids values partition) :
    ((ids ++ values ++ partition).map Setter.field).Nodup ↔
      (p.voPopulatesPartition = true → ∀ f, e.partitionField = some f → f ∉ setFields e) := by
  have hset := nodup_setFields hfields hkeys
  rw [h.map_field]
  by_cases hp : p.voPopulatesPartition = true
  · rw [if_pos hp, forall_prop_of_true hp]
    cases hpartition : e.partitionField with
    | none => simpa using hset
    | some f =>
      obtain ⟨name, -, hf⟩ := Option.bind_eq_some_iff.1 hpartition
      have hmem : f.name ∈ (setFields e).map EntityField.name ↔ f ∈ setFields e := by
        constructor
        · intro hname
          obtain ⟨g, hg, hname⟩ := List.mem_map.1 hname
          rwa [← List.inj_on_of_nodup_map hfields (mem_fields_of_mem_setFields hg)
            (mem_fields_of_field? hf).1 hname]
        · exact List.mem_map_of_mem
      rw [Option.toList_some, List.map_singleton, ← List.concat_eq_append, List.nodup_concat, hmem,
        and_iff_left hset]
      simp
  · rw [if_neg hp, List.map_nil, List.append_nil]
    exact iff_of_true hset fun hpopulates => absurd hpopulates hp

/-! ## The partition of a table -/

theorem name_ofColumn (c : Config) (d : Column) :
    (EntityField.ofColumn c d).name = Naming.fieldName d.name := by
  rw [EntityField.ofColumn]

theorem populatesPartition_ofTable :
    (Policy.of (Entity.ofTable c t)).voPopulatesPartition = true ↔
      c.partitionKey ∈ t.primaryKeys ∨ t.partitionClause = true := by
  by_cases hkey : c.partitionKey ∈ t.primaryKeys
  · rw [Policy.of, if_pos (hasCompositeKey_ofTable.2 hkey)]
    simp [Policy.partition, hkey]
  · rw [Policy.of, if_neg (mt hasCompositeKey_ofTable.1 hkey)]
    have hclause : (Entity.ofTable c t).partitioning =
        if t.partitionClause then .clause else .none := by
      simp [Entity.ofTable, Config.partitioning, hkey]
    rw [Policy.simple, hclause, or_iff_right hkey]
    split <;> simp_all

/-- The partition of a table's entity is the field of the column with that name. -/
theorem partitionField_eq_some_iff (hdistinct : (columnNames t).Nodup) :
    (Entity.ofTable c t).partitionField = some f ↔
      ∃ d ∈ t.columns, d.name = c.partitionKey ∧ f = .ofColumn c d := by
  have hfields : ((Entity.ofTable c t).fields.map EntityField.name).Nodup := by
    rwa [map_name_fields]
  have hfield {d : Column} (hd : d ∈ t.columns) (hname : d.name = c.partitionKey) :
      (Entity.ofTable c t).partitionField = some (.ofColumn c d) := by
    have hmem : EntityField.ofColumn c d ∈ (Entity.ofTable c t).fields := List.mem_map_of_mem hd
    rw [Entity.partitionField, partitionName_ofTable hd hname, Option.bind_some,
      ← name_ofColumn c d, field?_name hfields hmem]
  constructor
  · intro hf
    obtain ⟨name, hname, -⟩ := Option.bind_eq_some_iff.1 hf
    obtain ⟨g, hg, -⟩ := Option.map_eq_some_iff.1 hname
    obtain ⟨d, hd, rfl⟩ := List.mem_map.1 (List.mem_of_find?_eq_some hg)
    have hpartition : (EntityField.ofColumn c d).column.name = c.partitionKey := by
      simpa using List.find?_some hg
    rw [hfield hd hpartition] at hf
    exact ⟨d, hd, hpartition, (Option.some.inj hf).symm⟩
  · rintro ⟨d, hd, hname, rfl⟩
    exact hfield hd hname

theorem isPrimaryKey_of_read {clause : Bool} {statement : Sql.Statement}
    (h : Table.ofStatement c₀ clause statement = .ok t) (hd : d ∈ t.columns) :
    d.isPrimaryKey = true ↔ d.name ∈ t.primaryKeys := by
  cases statement with
  | other => cases h
  | createTable s =>
    cases h
    obtain ⟨definition, -, rfl⟩ := List.mem_map.1 hd
    exact List.contains_iff_mem

/-- The partition is set in front of its lookup as an identifier or by its initial value. -/
theorem mem_setFields_ofTable {clause : Bool} {statement : Sql.Statement}
    (hread : Table.ofStatement c₀ clause statement = .ok t) (hdistinct : (columnNames t).Nodup)
    (hd : d ∈ t.columns) :
    EntityField.ofColumn c d ∈ setFields (Entity.ofTable c t) ↔
      d.name ∈ t.primaryKeys ∧ d.name ≠ c₀.partitionKey ∧
          (c.javaType d.sqlType).name ∈ generatedTypes ∨
        d.name ∉ t.primaryKeys ∧ (c.javaType d.sqlType).initialValue.isSome = true := by
  have hmarked := keyMarked_of_read hread
  have hfields : ((Entity.ofTable c t).fields.map EntityField.name).Nodup := by
    rwa [map_name_fields]
  have hfield : EntityField.ofColumn c d ∈ (Entity.ofTable c t).fields := List.mem_map_of_mem hd
  have hid : EntityField.ofColumn c d ∈ (Entity.ofTable c t).idFields ↔
      d.name ∈ t.primaryKeys ∧ d.name ≠ c₀.partitionKey := by
    rw [← hmarked.isId c d hd]
    refine ⟨fun h => (mem_fields_of_mem_idFields h).2, fun h => List.mem_filter.2 ⟨?_, h⟩⟩
    refine List.mem_filterMap.2 ⟨_, ?_, field?_name hfields hfield⟩
    rw [name_ofColumn]
    exact List.mem_map_of_mem ((hmarked.isId c d hd).1 h).1
  have houtside : (EntityField.ofColumn c d).column.isPrimaryKey = false ↔
      d.name ∉ t.primaryKeys := by
    rw [← isPrimaryKey_of_read hread hd, Bool.not_eq_true]
    rfl
  rw [mem_setFields, hid, houtside, and_iff_right hfield, and_assoc,
    and_comm (b := d.name ∉ t.primaryKeys)]
  rfl

/-- A column is set twice if it is the partition, and the partition is looked up although the column
has been set. -/
theorem setTwice_iff {clause : Bool} {statement : Sql.Statement}
    (hread : Table.ofStatement c₀ clause statement = .ok t) (hdistinct : (columnNames t).Nodup)
    (hd : d ∈ t.columns) : SetTwice c₀ c t d ↔ d.name = c.partitionKey ∧
      (c.partitionKey ∈ t.primaryKeys ∨ t.partitionClause = true) ∧
        EntityField.ofColumn c d ∈ setFields (Entity.ofTable c t) := by
  rw [mem_setFields_ofTable hread hdistinct hd]
  refine and_congr_right fun hname => ?_
  rw [hname]
  tauto

/-- The statement that creates a table of shipments without its partition clause, whose partition is a
number. -/
def shipmentTable : Sql.CreateTable where
  qualifier := []
  name := ⟨"shipment", none⟩
  columns :=
    [⟨⟨"shipment_id_", none⟩, .builtin "INT8" none "", [.primaryKey]⟩,
      ⟨⟨"dealer_partition_", none⟩, .builtin "INTEGER" none "", []⟩]
  constraints := []

def shipmentId : EntityField where
  column := ⟨"shipment_id_", "int8", none, none, none, false, true, false, false⟩
  name := "shipmentId"
  type := "Long"
  imports := []
  initialValue := none
  initialValueImport := none

theorem plain_shipments : Plain
    (Entity.ofTable Config.default (Table.ofCreateTable Config.default true shipmentTable))
    (Calls.ofConfig Config.default) shipmentId [] := by
  decide +kernel

end JpaScaffold.Units
