import JpaScaffold.Proofs.Units.Success
import JpaScaffold.Table.Reading

/-!
# The fields of the generated types

An entity declares its serial version, one field for each column and the flag that says whether it
is new. The field of a column names the column in one annotation, with the measures that the column
has, and is an identifier if the column belongs to the key and is not the partition key. The value
object declares the same fields without their annotations.
-/
namespace JpaScaffold.Units

open Java (AttributeValue ClassDecl CompilationUnit FieldDecl Marker TypeRef)

def attribute? (m : Marker) (key : String) : Option AttributeValue :=
  (m.attributes.find? fun a => a.key == key).map Java.Attribute.value

/-- The annotation says what is known of the column: its exact name, its measures where it has
them, and whether it may be null, each of them once. -/
structure Describes (d : Column) (m : Marker) : Prop where
  name : attribute? m "name" = some (.string d.name)
  length : attribute? m "length" = d.length.map fun n => .verbatim (toString n)
  precision : attribute? m "precision" = d.precision.map fun n => .verbatim (toString n)
  scale : attribute? m "scale" = d.scale.map fun n => .verbatim (toString n)
  nullable : attribute? m "nullable" = some (.verbatim (if d.nullable then "true" else "false"))
  once : (m.attributes.map Java.Attribute.key).Sublist
    ["name", "length", "precision", "scale", "nullable"]

/-- The annotations of a field that have this name. -/
def markersNamed (f : FieldDecl) (name : String) : List Marker :=
  f.markers.filter fun m => m.name == name

/-- The field stores the column under a configuration, where `partitionKey` is the column by which
tables are partitioned. -/
structure Stores (c : Config) (partitionKey : String) (d : Column) (f : FieldDecl) : Prop where
  access : f.modifiers = [.privateAccess]
  name : f.name = Naming.fieldName d.name
  type : TypeRef.parse (c.javaType d.sqlType).name = .ok f.type
  initialValue : f.initialValue =
    if d.isPrimaryKey then none
    else (c.javaType d.sqlType).initialValue.map (Text.mapChars Text.trim)
  column : ∃ m, markersNamed f "Column" = [m] ∧ Describes d m
  id : markersNamed f "Id" =
    if d.isPrimaryKey = true ∧ d.name ≠ partitionKey then [bareMarker "Id"] else []

/-- The field without its annotations. -/
def unmarked (f : FieldDecl) : FieldDecl := { f with markers := [] }

theorem describes_columnMarker (d : Column) : Describes d (columnMarker d) := by
  constructor
  case once =>
    cases hl : d.length <;> cases hp : d.precision <;> cases hs : d.scale <;>
      simp [columnMarker, numberAttribute, hl, hp, hs]
  all_goals
    cases hl : d.length <;> cases hp : d.precision <;> cases hs : d.scale <;>
      simp [attribute?, columnMarker, numberAttribute, hl, hp, hs]

/-- One annotation of an entity's field names its column, and none of the others is called alike. -/
theorem filter_entityMarkers_column (p : Policy) (f : EntityField) :
    (entityMarkers p f).filter (fun m => m.name == "Column") = [columnMarker f.column] := by
  simp only [entityMarkers, List.filter_append]
  have hid : ((if f.isId then [bareMarker "Id"] else []).filter fun m => m.name == "Column") =
      [] := by
    split <;> simp [bareMarker]
  have hgen : ((if isGenerated p f then [bareMarker "SnowflakeGenerator"] else []).filter
      fun m => m.name == "Column") = [] := by
    split <;> simp [bareMarker]
  have hjson : ((if f.column.json then [classMarker "Type" (simpleType "StringJsonUserType")]
      else []).filter fun m => m.name == "Column") = [] := by
    split <;> simp [classMarker]
  rw [hid, hgen, hjson]
  simp [columnMarker]

theorem filter_entityMarkers_id (p : Policy) (f : EntityField) :
    (entityMarkers p f).filter (fun m => m.name == "Id") =
      if f.isId then [bareMarker "Id"] else [] := by
  simp only [entityMarkers, List.filter_append]
  have hid : ((if f.isId then [bareMarker "Id"] else []).filter fun m => m.name == "Id") =
      if f.isId then [bareMarker "Id"] else [] := by
    split <;> simp [bareMarker]
  have hgen : ((if isGenerated p f then [bareMarker "SnowflakeGenerator"] else []).filter
      fun m => m.name == "Id") = [] := by
    split <;> simp [bareMarker]
  have hjson : ((if f.column.json then [classMarker "Type" (simpleType "StringJsonUserType")]
      else []).filter fun m => m.name == "Id") = [] := by
    split <;> simp [classMarker]
  rw [hid, hgen, hjson]
  simp [columnMarker]

theorem voField_eq_unmarked {p : Policy} {f : EntityField} {g g' : FieldDecl}
    (h : entityField p f = .ok g) (h' : voField f = .ok g') : g' = unmarked g := by
  obtain ⟨type, htype, -, -, rfl⟩ := privateField_eq_ok.1 h
  obtain ⟨type', htype', -, -, rfl⟩ := privateField_eq_ok.1 h'
  obtain rfl : type' = type := by
    rw [htype] at htype'
    exact (Except.ok.inj htype').symm
  rfl

theorem map_unmarked {p : Policy} {l : List EntityField} {gs gs' : List FieldDecl}
    (h : List.Forall₂ (fun f g => entityField p f = .ok g) l gs)
    (h' : List.Forall₂ (fun f g => voField f = .ok g) l gs') : gs' = gs.map unmarked := by
  induction h generalizing gs' with
  | nil =>
    cases h'
    rfl
  | cons hg _ ih =>
    cases h' with
    | cons hg' hrest => rw [List.map_cons, voField_eq_unmarked hg hg', ih hrest]

/-- The class of an entity declares the fields of its columns, one for one, between its serial
version and its flag. -/
theorem fields_of_entityUnit {e : Entity} {p : Policy} {u : CompilationUnit}
    (h : entityUnit e p = .ok u) : ∃ decl fields, u.decl = .classDecl decl ∧
      decl.fields = serialVersion :: fields ++ [isNewField] ∧
      List.Forall₂ (fun f g => entityField p f = .ok g) e.fields fields := by
  obtain ⟨id, more, -, h⟩ := entityUnit_eq_ok.1 h
  obtain ⟨superClass, key, fields, s, -, -, -, hfields, -, -, -, rfl⟩ := buildEntity_eq_ok.1 h
  exact ⟨_, fields, rfl, ClassDecl.fields_of_members .., hfields⟩

/-- The class of a value object declares the fields of its columns, one for one, behind its serial
version. -/
theorem fields_of_valueObjectUnit {e : Entity} {p : Policy} {calls : Calls} {u : CompilationUnit}
    (h : valueObjectUnit e p calls = .ok u) :
    ∃ decl fields, u.decl = .classDecl decl ∧ decl.fields = serialVersion :: fields ∧
      List.Forall₂ (fun f g => voField f = .ok g) e.fields fields := by
  obtain ⟨id, more, -, h⟩ := valueObjectUnit_eq_ok.1 h
  obtain ⟨superClass, fields, methods, s, s', -, -, hfields, -, -, -, rfl⟩ :=
    buildValueObject_eq_ok.1 h
  exact ⟨_, fields, rfl, ClassDecl.fields_of_members .., hfields⟩

theorem isId_ofDef (c₀ c : Config) (keys : List String) (d : Sql.ColumnDef) :
    (EntityField.ofColumn c (Column.ofDef c₀ keys d)).isId = true ↔
      (Column.ofDef c₀ keys d).isPrimaryKey = true ∧
        (Column.ofDef c₀ keys d).name ≠ c₀.partitionKey := by
  simp only [EntityField.isId, EntityField.ofColumn, Column.ofDef, Bool.and_eq_true,
    Bool.not_eq_true', Bool.and_eq_false_iff, beq_eq_false_iff_ne, ne_eq]
  constructor
  · rintro ⟨hkey, hpartition⟩
    refine ⟨hkey, ?_⟩
    intro hname
    rcases hpartition with hpartition | hpartition
    · rw [← hname, hkey] at hpartition
      cases hpartition
    · exact hpartition hname
  · rintro ⟨hkey, hname⟩
    exact ⟨hkey, .inr hname⟩

theorem initialValue_ofColumn (c : Config) (d : Column) :
    (initialValue (EntityField.ofColumn c d)).map (Text.mapChars Text.trim) =
      if d.isPrimaryKey then none
      else (c.javaType d.sqlType).initialValue.map (Text.mapChars Text.trim) := by
  change (if d.isPrimaryKey = true then none else (c.javaType d.sqlType).initialValue).map _ = _
  split
  · rfl
  · rfl

theorem stores_of_entityField {c₀ c : Config} {keys : List String} {d : Sql.ColumnDef} {p : Policy}
    {g : FieldDecl} (h : entityField p (EntityField.ofColumn c (Column.ofDef c₀ keys d)) = .ok g) :
    Stores c c₀.partitionKey (Column.ofDef c₀ keys d) g := by
  obtain ⟨type, htype, -, -, rfl⟩ := privateField_eq_ok.1 h
  have hid := isId_ofDef c₀ c keys d
  refine ⟨rfl, rfl, htype, ?_, ⟨_, filter_entityMarkers_column .., describes_columnMarker _⟩, ?_⟩
  · exact initialValue_ofColumn ..
  · refine (filter_entityMarkers_id ..).trans ?_
    simp only [hid]

/-- The fields of the types that are generated for a table that was read from its statement: the
entity stores every column in a field of its own, in the order of the columns, and the value object
declares the same fields. -/
theorem units_store_columns {c₀ c : Config} {clause : Bool} {statement : Sql.Statement}
    {t : Table} {us : TableUnits} (hread : Table.ofStatement c₀ clause statement = .ok t)
    (hunits : units (Entity.ofTable c t) (Calls.ofConfig c) = .ok us) :
    ∃ entity valueObject fields, us.entity.decl = .classDecl entity ∧
      us.valueObject.decl = .classDecl valueObject ∧
      List.Forall₂ (Stores c c₀.partitionKey) t.columns fields ∧
      entity.fields = serialVersion :: fields ++ [isNewField] ∧
      valueObject.fields = serialVersion :: fields.map unmarked := by
  obtain ⟨-, hentity, -, -, hvo⟩ := unitsUnder_eq_ok.1 hunits
  obtain ⟨entity, fields, hdecl, hfields, hdeclared⟩ := fields_of_entityUnit hentity
  obtain ⟨valueObject, fields', hdecl', hfields', hdeclared'⟩ := fields_of_valueObjectUnit hvo
  have hsame : fields' = fields.map unmarked := map_unmarked hdeclared hdeclared'
  refine ⟨entity, valueObject, fields, hdecl, hdecl', ?_, hfields, by rw [hfields', hsame]⟩
  cases statement with
  | other => cases hread
  | createTable s =>
    cases hread
    have hcolumns : (Entity.ofTable c (Table.ofCreateTable c₀ clause s)).fields =
        (s.retained c₀).map fun d =>
          EntityField.ofColumn c (Column.ofDef c₀ (s.retainedKeys c₀) d) := by
      simp only [Entity.ofTable, Table.ofCreateTable, List.map_map]
      rfl
    rw [hcolumns, List.forall₂_map_left_iff] at hdeclared
    refine List.forall₂_map_left_iff.2 (hdeclared.imp ?_)
    intro d g hg
    exact stores_of_entityField hg

def colorTable : Sql.CreateTable where
  qualifier := []
  name := ⟨"color", none⟩
  columns :=
    [⟨⟨"id", none⟩, .builtin "INT8" none "", [.primaryKey]⟩,
      ⟨⟨"shade_", none⟩, .builtin "VARCHAR" (some "40") "", [.null]⟩,
      ⟨⟨"price_", none⟩, .builtin "NUMERIC" (some "16,2") "", []⟩,
      ⟨⟨"data_", none⟩, .builtin "JSONB" none "", []⟩]
  constraints := []

def colorId : EntityField where
  column := ⟨"id", "int8", none, none, none, false, true, false, false⟩
  name := "id"
  type := "Long"
  imports := []
  initialValue := none
  initialValueImport := none

theorem plain_colors : Plain
    (Entity.ofTable Config.default (Table.ofCreateTable Config.default false colorTable))
    (Calls.ofConfig Config.default) colorId [] := by
  decide +kernel

theorem units_store_columns_of_colors :
    ∃ us, Table.ofStatement Config.default false (.createTable colorTable) =
        .ok (Table.ofCreateTable Config.default false colorTable) ∧
      units (Entity.ofTable Config.default (Table.ofCreateTable Config.default false colorTable))
        (Calls.ofConfig Config.default) = .ok us ∧
      ∃ entity valueObject fields, us.entity.decl = .classDecl entity ∧
        us.valueObject.decl = .classDecl valueObject ∧
        List.Forall₂ (Stores Config.default Config.default.partitionKey)
          (Table.ofCreateTable Config.default false colorTable).columns fields ∧
        entity.fields = serialVersion :: fields ++ [isNewField] ∧
        valueObject.fields = serialVersion :: fields.map unmarked := by
  obtain ⟨us, hunits⟩ := plain_colors.exists_units
  have hread : Table.ofStatement Config.default false (.createTable colorTable) =
      .ok (Table.ofCreateTable Config.default false colorTable) := rfl
  exact ⟨us, hread, hunits, units_store_columns hread hunits⟩

end JpaScaffold.Units
