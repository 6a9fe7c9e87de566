import JpaScaffold.Proofs.Units.Failure

/-!
# Which fault of an entity is reported

Every unit looks for the fields that identify a row first, so an entity without one is refused for
that alone, whatever else is wrong with it. The key class looks for the partition next, which the
entity of a table that was read has wherever its key has a class. Every other fault is found by a
builder.
-/
namespace JpaScaffold.Units

open Java (BuildError CompilationUnit)

variable {e : Entity} {p : Policy} {calls : Calls} {c c₀ : Config} {t : Table} {x : TableError}
  {name : String}

/-- The error is one that an entity is refused with: for want of a key, for want of the partition in
a key class, or for what a builder finds wrong. -/
inductive Refused (e : Entity) : TableError → Prop
  | unidentified : e.idFields = [] → Refused e (.noKey e.tableName)
  | unpartitioned : e.idFields ≠ [] → e.hasCompositeKey = true → e.partitionName = none →
      Refused e (.metadata (.noPartitionColumn e.tableName))
  | unbuildable (fault : BuildError) : e.idFields ≠ [] → Refused e (.build fault)

theorem Refused.eq_noKey_iff (h : Refused e x) :
    x = .noKey name ↔ e.idFields = [] ∧ name = e.tableName := by
  cases h with
  | unidentified hids => simp [hids, eq_comm]
  | unpartitioned hids => simp [hids]
  | unbuildable fault hids => simp [hids]

theorem Refused.ne_metadata (h : Refused e x)
    (hpartition : e.hasCompositeKey = true → e.partitionName ≠ none) (fault : MetadataFault) :
    x ≠ .metadata fault := by
  rintro rfl
  cases h with
  | unpartitioned _ hcomposite hnone => exact hpartition hcomposite hnone

/-! ## One unit -/

theorem refused_of_build (build : EntityField → List EntityField → Except BuildError CompilationUnit)
    (h : (match e.idFields with
      | [] => Except.error (TableError.noKey e.tableName)
      | id :: more => (build id more).mapError TableError.build) = .error x) : Refused e x := by
  cases hids : e.idFields with
  | nil =>
    rw [hids] at h
    cases h
    exact .unidentified hids
  | cons id more =>
    rw [hids] at h
    obtain ⟨fault, -, rfl⟩ := mapError_eq_error.1 h
    exact .unbuildable fault (by simp [hids])

theorem refused_of_entityUnit (h : entityUnit e p = .error x) : Refused e x :=
  refused_of_build (buildEntity e p) h

theorem refused_of_repositoryUnit (h : repositoryUnit e p = .error x) : Refused e x :=
  refused_of_build (fun id _ => buildRepository e p id) h

theorem refused_of_valueObjectUnit (h : valueObjectUnit e p calls = .error x) : Refused e x :=
  refused_of_build (buildValueObject e p calls) h

theorem refused_of_keyUnit (hcomposite : e.hasCompositeKey = true)
    (h : keyUnit e calls = .error x) : Refused e x := by
  unfold keyUnit at h
  cases hids : e.idFields with
  | nil =>
    rw [hids] at h
    cases h
    exact .unidentified hids
  | cons id more =>
    have hne : e.idFields ≠ [] := by simp [hids]
    cases hpartition : e.partitionName with
    | none =>
      rw [hids, hpartition] at h
      cases h
      exact .unpartitioned hne hcomposite hpartition
    | some partition =>
      rw [hids, hpartition] at h
      obtain ⟨fault, -, rfl⟩ := mapError_eq_error.1 h
      exact .unbuildable fault hne

theorem refused_of_optionalKeyUnit (h : optionalKeyUnit e (.of e) calls = .error x) :
    Refused e x := by
  unfold optionalKeyUnit at h
  rw [compositeKey_of] at h
  split at h
  · next hcomposite => exact refused_of_keyUnit hcomposite (map_eq_error.1 h)
  · cases h

/-! ## All units -/

theorem refused_of_units (h : units e calls = .error x) : Refused e x := by
  unfold units unitsUnder at h
  cases hids : e.idFields with
  | nil =>
    rw [hids] at h
    cases h
    exact .unidentified hids
  | cons id more =>
    have hnonempty : e.idFields.isEmpty = false := by rw [hids]; rfl
    rw [hnonempty] at h
    rcases bind_eq_error.1 h with h | ⟨entity, -, h⟩
    · exact refused_of_entityUnit h
    rcases bind_eq_error.1 h with h | ⟨key, -, h⟩
    · exact refused_of_optionalKeyUnit h
    rcases bind_eq_error.1 h with h | ⟨repository, -, h⟩
    · exact refused_of_repositoryUnit h
    rcases bind_eq_error.1 h with h | ⟨valueObject, -, h⟩
    · exact refused_of_valueObjectUnit h
    · cases h

/-- An entity is refused for want of a key exactly where no field identifies a row, whatever else is
wrong with it. -/
theorem units_eq_noKey_iff :
    units e calls = .error (.noKey name) ↔ e.idFields = [] ∧ name = e.tableName := by
  constructor
  · intro h
    exact (refused_of_units h).eq_noKey_iff.1 rfl
  · rintro ⟨hids, rfl⟩
    unfold units unitsUnder
    rw [hids]
    rfl

theorem noKey_of_unidentified (p : Policy) (calls : Calls) (h : e.idFields = []) :
    entityUnit e p = .error (.noKey e.tableName) ∧
      repositoryUnit e p = .error (.noKey e.tableName) ∧
      valueObjectUnit e p calls = .error (.noKey e.tableName) ∧
      keyUnit e calls = .error (.noKey e.tableName) := by
  unfold entityUnit repositoryUnit valueObjectUnit keyUnit
  rw [h]
  exact ⟨rfl, rfl, rfl, rfl⟩

/-! ## The entity of a table -/

theorem partitionName_of_read {clause : Bool} {statement : Sql.Statement}
    (hread : Table.ofStatement c₀ clause statement = .ok t)
    (hcomposite : (Entity.ofTable c t).hasCompositeKey = true) :
    (Entity.ofTable c t).partitionName ≠ none := by
  intro hnone
  have hfield := partitionField_of_read hread hcomposite
  rw [Entity.partitionField, hnone] at hfield
  cases hfield

/-- The units of a table that was read are never refused for its metadata. They are refused for want
of a key exactly where no field identifies a row, and then every unit is: the entity, the repository,
the value object and, where the key has a class, the key. -/
theorem refusals_of_read {clause : Bool} {statement : Sql.Statement}
    (hread : Table.ofStatement c₀ clause statement = .ok t) :
    (∀ fault, units (Entity.ofTable c t) (.ofConfig c) ≠ .error (.metadata fault)) ∧
      (∀ name, units (Entity.ofTable c t) (.ofConfig c) = .error (.noKey name) ↔
        (Entity.ofTable c t).idFields = [] ∧ name = t.name) ∧
      ((Entity.ofTable c t).idFields = [] →
        entityUnit (Entity.ofTable c t) (.of (Entity.ofTable c t)) = .error (.noKey t.name) ∧
        repositoryUnit (Entity.ofTable c t) (.of (Entity.ofTable c t)) = .error (.noKey t.name) ∧
        valueObjectUnit (Entity.ofTable c t) (.of (Entity.ofTable c t)) (.ofConfig c) =
          .error (.noKey t.name) ∧
        optionalKeyUnit (Entity.ofTable c t) (.of (Entity.ofTable c t)) (.ofConfig c) =
          if (Entity.ofTable c t).hasCompositeKey then .error (.noKey t.name) else .ok none) := by
  refine ⟨fun fault h => ?_, fun name => units_eq_noKey_iff, fun hids => ?_⟩
  · exact (refused_of_units h).ne_metadata (partitionName_of_read hread) fault rfl
  · obtain ⟨hentity, hrepository, hvo, hkey⟩ :=
      noKey_of_unidentified (.of (Entity.ofTable c t)) (.ofConfig c) hids
    refine ⟨hentity, hrepository, hvo, ?_⟩
    unfold optionalKeyUnit
    rw [compositeKey_of, hkey]
    rfl

/-- The statement that creates a table whose only key column is the partition key, and whose other
column has no name that a field can have. -/
def dealerTable : Sql.CreateTable where
  qualifier := []
  name := ⟨"dealer_site", none⟩
  columns :=
    [⟨⟨"dealer_partition_", none⟩, .builtin "VARCHAR" (some "20") "", [.primaryKey]⟩,
      ⟨⟨"1st_site_", none⟩, .builtin "INT8" none "", []⟩]
  constraints := []

theorem refusals_of_dealers :
    ∃ t, Table.ofStatement Config.default false (.createTable dealerTable) = .ok t ∧
      (Entity.ofTable Config.default t).hasCompositeKey = true ∧
      ¬Nameable (Entity.ofTable Config.default t) ∧
      units (Entity.ofTable Config.default t) (.ofConfig Config.default) =
        .error (.noKey "dealer_site") ∧
      optionalKeyUnit (Entity.ofTable Config.default t) (.of (Entity.ofTable Config.default t))
        (.ofConfig Config.default) = .error (.noKey "dealer_site") := by
  have hread : Table.ofStatement Config.default false (.createTable dealerTable) =
      .ok (Table.ofCreateTable Config.default false dealerTable) := rfl
  have hids : (Entity.ofTable Config.default
      (Table.ofCreateTable Config.default false dealerTable)).idFields = [] := by decide
  have hcomposite : (Entity.ofTable Config.default
      (Table.ofCreateTable Config.default false dealerTable)).hasCompositeKey = true := by
    decide
  obtain ⟨-, hnoKey, hunits⟩ := refusals_of_read (c := Config.default) hread
  obtain ⟨-, -, -, hkey⟩ := hunits hids
  rw [if_pos hcomposite] at hkey
  refine ⟨_, hread, hcomposite, ?_, (hnoKey _).2 ⟨hids, rfl⟩, hkey⟩
  rw [nameable_ofTable]
  decide

end JpaScaffold.Units
