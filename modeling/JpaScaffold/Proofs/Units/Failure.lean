import JpaScaffold.Proofs.Java.TypeText
import JpaScaffold.Proofs.Units.FieldNames
import JpaScaffold.Proofs.Units.Regular

/-!
# Units that cannot be built

An entity of which everything but its names is in order has its units if and only if its class and
its fields have simple names. What is refused otherwise is the name of the class, of its key class or
of a field. Under the default configuration everything but the names is in order for every table that
was read with a field that identifies a row.
-/
namespace JpaScaffold

namespace Java

variable {role : Role} {name : String} {fault : BuildError}

/-- The fault refuses the name in this role. -/
def Refuses (fault : BuildError) (role : Role) (name : String) : Prop :=
  isSimpleName name.toList = false ∧ (fault = .emptyName role ∨ fault = .invalidName role name)

theorem refuses_of_simpleName (h : simpleName role name = .error fault) :
    Refuses fault role name := by
  unfold simpleName at h
  split at h
  · next hempty =>
    cases h
    rw [String.isEmpty_iff.1 hempty]
    exact ⟨rfl, .inl rfl⟩
  · split at h
    · cases h
    · next hname =>
      cases h
      exact ⟨eq_false_of_ne_true hname, .inr rfl⟩

theorem refuses_of_parse (h : TypeRef.parse name = .error fault) : Refuses fault .typeName name := by
  refine ⟨eq_false_of_ne_true fun hname => ?_, ?_⟩
  · rw [TypeRef.parse_simpleName hname] at h
    cases h
  · simp only [TypeRef.parse] at h
    split at h
    · cases h
      exact .inl rfl
    · split at h
      · split at h
        · cases h
        · cases h
          exact .inr rfl
      · cases h
        exact .inr rfl

end Java

namespace Units

open Java (BuildError CompilationUnit FieldDecl FieldDraft ImportSet Marker MethodDraft Refuses TypeRef
  isQualifiedName isSimpleName)

variable {e : Entity} {p : Policy} {calls : Calls} {f id : EntityField} {more l : List EntityField}
  {c c₀ : Config} {t : Table} {s : ImportSet} {u : CompilationUnit} {fault : BuildError}
  {names names' : List String}

/-! ## Names that can be imported -/

theorem importable_append : Importable (names ++ names') ↔ Importable names ∧ Importable names' :=
  List.forall_mem_append

theorem importable_cons {name : String} : Importable (name :: names) ↔
    isQualifiedName (Text.trim name.toList) = true ∧ Importable names :=
  List.forall_mem_cons

theorem importable_flatMap {α : Type} {l : List α} {g : α → List String}
    (h : ∀ a ∈ l, Importable (g a)) : Importable (l.flatMap g) := by
  intro name hn
  obtain ⟨a, ha, hn⟩ := List.mem_flatMap.1 hn
  exact h a ha name hn

theorem importable_fullName {package name : String}
    (hp : ∀ s ∈ package.toList.splitOnP (· == '.'), isSimpleName s = true)
    (hn : isSimpleName name.toList = true) : Importable [package ++ "." ++ name] := by
  have htrim := congrArg String.toList
    (Java.trim_fullName (Java.isQualifiedName_of_simple hp) hn)
  rw [Text.toList_mapChars] at htrim
  refine importable_cons.2 ⟨?_, List.forall_mem_nil _⟩
  rw [htrim]
  exact Java.isQualifiedName_of_simple (Java.simple_of_fullName hp hn)

/-! ## What an entity is refused for -/

/-- The class and the fields of the entity have simple names. -/
structure Nameable (e : Entity) : Prop where
  className : isSimpleName e.className.toList = true
  fieldNames : ∀ f ∈ e.fields, isSimpleName f.name.toList = true

/-- The fault refuses the name of the key class, of a field, or of the class. -/
def RefusesNameOf (e : Entity) (fault : BuildError) : Prop :=
  Refuses fault .typeName e.keyClassName ∨ (∃ f ∈ e.fields, Refuses fault .field f.name) ∨
    Refuses fault .classType e.className

/-- Everything that the units of an entity are made of is in order, but for the names of its class
and its fields. -/
structure Prepared (e : Entity) (calls : Calls) (id : EntityField) (more : List EntityField) :
    Prop where
  ids : e.idFields = id :: more
  supers : ∀ s ∈ [e.superClass, e.repositorySuper, e.voSuper],
    ∃ type, TypeRef.parse s.name = .ok type
  packages : ∀ s ∈ [e.packages.entity, e.packages.entityKey, e.packages.repository, e.packages.vo],
    isQualifiedName s.toList = true
  types : ∀ f ∈ e.fields, ∃ type, TypeRef.parse f.type = .ok type
  values : ∀ f ∈ e.fields, (initialValue f).map (Text.mapChars Text.trim) ≠ some ""
  partition : e.hasCompositeKey = true → e.partitionField.isSome = true
  entityImports : Importable
    (entityHeaderImports e (.of e) (e.keyTypeOf id) ++ e.fields.flatMap (entityFieldImports (.of e)))
  imports : isSimpleName e.className.toList = true → Importable (importedNames e calls id)

theorem Prepared.buildable (h : Prepared e calls id more) (hn : Nameable e) :
    Buildable e calls id more where
  ids := h.ids
  className := hn.className
  supers := h.supers
  packages := h.packages
  fields f hf := ⟨hn.fieldNames f hf, h.types f hf, h.values f hf⟩
  partition := h.partition
  imports := h.imports hn.className

theorem nameable_of_entityUnit (h : entityUnit e p = .ok u) : Nameable e := by
  obtain ⟨id, more, -, h⟩ := entityUnit_eq_ok.1 h
  obtain ⟨superClass, key, fields, s, -, -, -, hfields, -, hname, -, -⟩ := buildEntity_eq_ok.1 h
  exact ⟨hname, simpleNames_of_declared hfields⟩

theorem refuses_of_privateField {ms : List Marker} {value : Option String}
    (htype : ∃ type, TypeRef.parse f.type = .ok type)
    (hvalue : value.map (Text.mapChars Text.trim) ≠ some "")
    (h : privateField f ms value = .error fault) : Refuses fault .field f.name := by
  obtain ⟨type, htype⟩ := htype
  rw [privateField, htype, ok_bind, FieldDraft.build] at h
  simp only [hvalue, if_false] at h
  rcases bind_eq_error.1 h with h | ⟨name, -, h⟩
  · exact Java.refuses_of_simpleName h
  · cases h

theorem refuses_of_declareFields {importsOf : EntityField → List String}
    {declare : EntityField → Except BuildError FieldDecl} (himports : Importable (l.flatMap importsOf))
    (hdeclare : ∀ f ∈ l, ∀ fault, declare f = .error fault → Refuses fault .field f.name)
    (h : declareFields importsOf declare s l = .error fault) :
    ∃ f ∈ l, Refuses fault .field f.name := by
  induction l generalizing s with
  | nil => cases h
  | cons f l ih =>
    rw [List.flatMap_cons] at himports
    obtain ⟨hfirst, hrest⟩ := importable_append.1 himports
    obtain ⟨hf, hl⟩ := List.forall_mem_cons.1 hdeclare
    obtain ⟨s₁, hs₁⟩ := ImportSet.exists_addAll s hfirst
    rw [declareFields, hs₁, ok_bind] at h
    rcases bind_eq_error.1 h with h | ⟨g, -, h⟩
    · exact ⟨f, List.mem_cons_self, hf fault h⟩
    · rcases bind_eq_error.1 h with h | ⟨_, -, h⟩
      · obtain ⟨f', hf', hrefuses⟩ := ih hrest hl h
        exact ⟨f', List.mem_cons_of_mem _ hf', hrefuses⟩
      · cases h

namespace Prepared

variable (h : Prepared e calls id more)

include h

theorem mem_fields : id ∈ e.fields := by
  have hid : id ∈ e.idFields := by simp [h.ids]
  exact (mem_fields_of_mem_idFields hid).1

theorem refuses_of_keyType (hkey : TypeRef.parse (e.keyTypeOf id) = .error fault) :
    Refuses fault .typeName e.keyClassName := by
  unfold Entity.keyTypeOf at hkey
  split at hkey
  · exact Java.refuses_of_parse hkey
  · obtain ⟨type, htype⟩ := h.types id h.mem_fields
    rw [htype] at hkey
    cases hkey

theorem refusesNameOf (hb : buildEntity e (.of e) id more = .error fault) :
    RefusesNameOf e fault := by
  obtain ⟨hheader, hfields⟩ := importable_append.1 h.entityImports
  have hgetId (key : TypeRef) : ∃ m, MethodDraft.build
      { modifiers := [.publicAccess]
        name := "getId"
        returnType := key
        markers := [bareMarker "Override"]
        statements := ["return " ++ idExpression (.of e) (e.keyTypeOf id) id more] } = .ok m := by
    have hname : isSimpleName "getId".toList = true := by decide
    refine ⟨_, (MethodDraft.build_eq_ok rfl).2 ⟨?_, hname, by simp, by simp, rfl⟩⟩
    exact List.forall_mem_singleton.2 (return_ne_empty _)
  -- the steps of the builder in their order: each one succeeds, or refuses a name
  rcases bind_eq_error.1 hb with himports | ⟨s, hs, hb⟩
  · obtain ⟨s, hs⟩ := ImportSet.exists_addAll {} hheader
    rw [hs] at himports
    cases himports
  rcases bind_eq_error.1 hb with hidClass | ⟨idClass, -, hb⟩
  · unfold idClassMarkers at hidClass
    split at hidClass
    · exact .inl (h.refuses_of_keyType (map_eq_error.1 hidClass))
    · cases hidClass
  rcases bind_eq_error.1 hb with hsuper | ⟨superClass, -, hb⟩
  · obtain ⟨type, htype⟩ := h.supers e.superClass (by simp)
    rw [htype] at hsuper
    cases hsuper
  rcases bind_eq_error.1 hb with hkey | ⟨key, -, hb⟩
  · exact .inl (h.refuses_of_keyType hkey)
  rcases bind_eq_error.1 hb with hdeclared | ⟨⟨s', fields⟩, hdeclared, hb⟩
  · refine .inr (.inl (refuses_of_declareFields hfields (fun f hf fault hfault => ?_) hdeclared))
    exact refuses_of_privateField (h.types f hf) (h.values f hf) hfault
  rcases bind_eq_error.1 hb with hmethod | ⟨getId, -, hb⟩
  · obtain ⟨m, hm⟩ := hgetId key
    rw [hm] at hmethod
    cases hmethod
  rcases bind_eq_error.1 hb with hclass | ⟨decl, -, hb⟩
  · rcases bind_eq_error.1 hclass with hname | ⟨name, -, hclass⟩
    · exact .inr (.inr (Java.refuses_of_simpleName hname))
    · cases hclass
  · have hsound := (ImportSet.sound_empty.addAll hs).addAll (declareFields_eq_ok.1 hdeclared).1
    have hunit := (unitDraft_eq_ok (e := e) (c := decl) hsound).2 ⟨h.packages e.packages.entity (by simp), rfl⟩
    rw [hunit] at hb
    cases hb

theorem units_eq_error {x : TableError} (hunits : units e calls = .error x) :
    ¬Nameable e ∧ ∃ fault, x = .build fault ∧ RefusesNameOf e fault := by
  have hnot : ¬Nameable e := by
    intro hn
    obtain ⟨us, hus⟩ := (h.buildable hn).exists_units
    rw [hus] at hunits
    cases hunits
  refine ⟨hnot, ?_⟩
  -- the entity is built first, and once it is built the names are in order for the other units
  have hnonempty : e.idFields.isEmpty = false := by rw [h.ids]; rfl
  rw [units, unitsUnder, hnonempty] at hunits
  rcases bind_eq_error.1 hunits with hentity | ⟨u, hu, -⟩
  · rw [entityUnit, h.ids] at hentity
    obtain ⟨fault, hfault, rfl⟩ := mapError_eq_error.1 hentity
    exact ⟨fault, rfl, h.refusesNameOf hfault⟩
  · exact absurd (nameable_of_entityUnit hu) hnot

/-- An entity has its units if and only if its class and its fields have simple names. -/
theorem units_returns_iff : (∃ us, units e calls = .ok us) ↔ Nameable e := by
  constructor
  · rintro ⟨us, hus⟩
    exact nameable_of_entityUnit (unitsUnder_eq_ok.1 hus).2.1
  · intro hn
    exact (h.buildable hn).exists_units

end Prepared

/-! ## The default configuration -/

/-- The super classes that a configuration names. -/
def superClasses (c : Config) : List SuperClass :=
  [c.entitySuperClass, c.partitionEntitySuperClass, c.repositorySuperClass, c.voSuperClass,
    c.partitionVoSuperClass]

def packageNames (c : Config) : List String :=
  [c.entityPackage, c.partitionEntityPackage, c.entityKeyPackage, c.repositoryPackage,
    c.partitionRepositoryPackage, c.voPackage, c.partitionVoPackage]

theorem mem_superClasses : ∀ s ∈ [(Entity.ofTable c t).superClass, (Entity.ofTable c t).repositorySuper,
    (Entity.ofTable c t).voSuper], s ∈ superClasses c := by
  intro s hs
  simp only [Entity.ofTable, List.mem_cons, List.not_mem_nil, or_false] at hs
  rcases hs with rfl | rfl | rfl
  · split <;> simp [superClasses]
  · simp [superClasses]
  · split <;> simp [superClasses]

theorem mem_packageNames : ∀ s ∈ [(Entity.ofTable c t).packages.entity,
    (Entity.ofTable c t).packages.entityKey, (Entity.ofTable c t).packages.repository,
    (Entity.ofTable c t).packages.vo], s ∈ packageNames c := by
  intro s hs
  simp only [Entity.ofTable, Config.packages, List.mem_cons, List.not_mem_nil, or_false] at hs
  rcases hs with rfl | rfl | rfl | rfl
  · split <;> simp [packageNames]
  · simp [packageNames]
  · split <;> simp [packageNames]
  · split <;> simp [packageNames]

theorem exists_default_type (sqlType : String) :
    ∃ type, TypeRef.parse (Config.default.javaType sqlType).name = .ok type := by
  have hall : ∀ entry ∈ Config.default.dataTypeMap.entries,
      isSimpleName entry.2.toList = true ∨ entry.2 = (TypeRef.mk "byte" [] 1).text := by
    decide
  have hfallback : isSimpleName Config.default.fallbackType.toList = true := by decide
  have hbytes : (TypeRef.mk "byte" [] 1).Named := .mk (by decide) (List.forall_mem_nil _)
  change ∃ type, TypeRef.parse ((Config.default.dataTypeMap.get? sqlType).getD
    Config.default.fallbackType) = .ok type
  cases hget : Config.default.dataTypeMap.get? sqlType with
  | none => exact ⟨_, TypeRef.parse_simpleName hfallback⟩
  | some name =>
    rcases hall _ (NameMap.mem_of_get? hget) with hname | hname
    · exact ⟨_, TypeRef.parse_simpleName hname⟩
    · exact ⟨_, (congrArg TypeRef.parse hname).trans (TypeRef.parse_text hbytes)⟩

theorem default_value_ne_empty (d : Column) :
    (initialValue (.ofColumn Config.default d)).map (Text.mapChars Text.trim) ≠ some "" := by
  have hall : ∀ entry ∈ Config.default.defaultValueMap.entries,
      Text.mapChars Text.trim entry.2 ≠ "" := by decide
  intro h
  obtain ⟨value, hvalue, hempty⟩ := Option.map_eq_some_iff.1 h
  unfold initialValue at hvalue
  split at hvalue
  · cases hvalue
  · exact hall _ (NameMap.mem_of_get? hvalue) hempty

theorem importable_default_column (d : Column) :
    Importable (entityFieldImports p (.ofColumn Config.default d)) := by
  have hdata : ∀ entry ∈ Config.default.dataImportMap.entries, Importable entry.2.names := by
    decide
  have hvalue : ∀ entry ∈ Config.default.defaultImportMap.entries, Importable [entry.2] := by
    decide
  refine importable_append.2 ⟨importable_append.2 ⟨?_, ?_⟩, ?_⟩
  · change Importable (((Config.default.dataImportMap.get? d.sqlType).map ImportList.names).getD [])
    cases hget : Config.default.dataImportMap.get? d.sqlType with
    | none => exact List.forall_mem_nil _
    | some imports => exact hdata _ (NameMap.mem_of_get? hget)
  · split
    · decide
    · exact List.forall_mem_nil _
  · unfold initialValueImports
    split
    · change Importable (Config.default.defaultImportMap.get? d.sqlType).toList
      cases hget : Config.default.defaultImportMap.get? d.sqlType with
      | none => exact List.forall_mem_nil _
      | some name => exact hvalue _ (NameMap.mem_of_get? hget)
    · exact List.forall_mem_nil _

theorem importable_default_fields : ∀ f ∈ (Entity.ofTable Config.default t).fields,
    Importable (entityFieldImports p f) := by
  intro f hf
  obtain ⟨d, -, rfl⟩ := List.mem_map.1 hf
  exact importable_default_column d

theorem default_superClasses : ∀ s ∈ superClasses Config.default,
    isSimpleName s.name.toList = true ∧ isQualifiedName (Text.trim s.fullName.toList) = true := by
  decide

theorem default_packageNames : ∀ package ∈ packageNames Config.default,
    ∀ s ∈ package.toList.splitOnP (· == '.'), isSimpleName s = true := by
  decide

theorem keyImport_entity (h : (Entity.ofTable Config.default t).hasCompositeKey = true)
    (keyType : String) : keyImport (Entity.ofTable Config.default t)
      (Entity.ofTable Config.default t).packages.entity keyType = [] := by
  have hcomposite : Config.default.partitioning t = .compositeKey := beq_iff_eq.1 h
  refine if_pos ?_
  simp only [Entity.ofTable, hcomposite]
  rfl

theorem importable_default_header (keyType : String) :
    Importable (entityHeaderImports (Entity.ofTable Config.default t)
      (.of (Entity.ofTable Config.default t)) keyType) := by
  have hsuper := (default_superClasses _
    (mem_superClasses (Entity.ofTable Config.default t).superClass List.mem_cons_self)).2
  have hentity : Importable entityImports := by decide
  have hidClass : Importable ["jakarta.persistence.IdClass"] := by decide
  refine importable_append.2 ⟨importable_cons.2 ⟨hsuper, hentity⟩, ?_⟩
  split
  · next hcomposite =>
    rw [compositeKey_of] at hcomposite
    rwa [keyImport_entity hcomposite]
  · exact List.forall_mem_nil _

/-- Where the class has a simple name, everything that the units of a table import can be imported
under the default configuration. -/
theorem importable_default (hids : (Entity.ofTable Config.default t).idFields = id :: more)
    (hname : isSimpleName (Entity.ofTable Config.default t).className.toList = true) :
    Importable (importedNames (Entity.ofTable Config.default t) (.ofConfig Config.default) id) := by
  have hsuper : ∀ s ∈ [(Entity.ofTable Config.default t).superClass,
      (Entity.ofTable Config.default t).repositorySuper, (Entity.ofTable Config.default t).voSuper],
      isQualifiedName (Text.trim s.fullName.toList) = true :=
    fun s hs => (default_superClasses s (mem_superClasses s hs)).2
  have hpackage : ∀ package ∈ [(Entity.ofTable Config.default t).packages.entity,
      (Entity.ofTable Config.default t).packages.entityKey,
      (Entity.ofTable Config.default t).packages.repository,
      (Entity.ofTable Config.default t).packages.vo],
      ∀ s ∈ package.toList.splitOnP (· == '.'), isSimpleName s = true :=
    fun package hp => default_packageNames package (mem_packageNames package hp)
  have hrepository : Importable (repositoryImports (Entity.ofTable Config.default t)
      (.of (Entity.ofTable Config.default t)) id) := by
    refine importable_append.2 ⟨importable_append.2 ⟨?_, ?_⟩, ?_⟩
    · have hstereotype : isQualifiedName
          (Text.trim "org.springframework.stereotype.Repository".toList) = true := by decide
      exact importable_cons.2 ⟨hstereotype,
        importable_cons.2 ⟨hsuper _ (by simp), List.forall_mem_nil _⟩⟩
    · split
      · exact List.forall_mem_nil _
      · exact importable_fullName (hpackage _ (by simp)) hname
    · split
      · next hcomposite =>
        rw [compositeKey_of] at hcomposite
        have hkeyName : isSimpleName (Entity.ofTable Config.default t).keyClassName.toList = true :=
          isSimpleName_append_word hname (by decide)
        rw [keyImport, Entity.keyTypeOf, if_pos hcomposite]
        split
        · exact List.forall_mem_nil _
        · exact importable_fullName (hpackage _ (by simp)) hkeyName
      · have hid : id ∈ (Entity.ofTable Config.default t).idFields := by simp [hids]
        have himports : Importable (entityFieldImports (.of (Entity.ofTable Config.default t)) id) :=
          importable_default_fields id (mem_fields_of_mem_idFields hid).1
        exact (importable_append.1 (importable_append.1 himports).1).1
  have hkey : Importable (keyImports (.ofConfig Config.default)) := by decide
  have hvo : Importable voImports := by decide
  have hcalls : Importable (Calls.ofConfig Config.default).nextId.importName.toList := by decide
  refine importable_append.2 ⟨importable_append.2 ⟨importable_append.2 ⟨importable_append.2
    ⟨importable_append.2 ⟨importable_append.2 ⟨importable_default_header _,
      importable_flatMap importable_default_fields⟩, hkey⟩, hrepository⟩, ?_⟩, hcalls⟩, hcalls⟩
  exact importable_cons.2 ⟨hsuper _ (by simp), hvo⟩

theorem partitionField_of_read {clause : Bool} {statement : Sql.Statement}
    (hread : Table.ofStatement c₀ clause statement = .ok t)
    (hcomposite : (Entity.ofTable c t).hasCompositeKey = true) :
    (Entity.ofTable c t).partitionField.isSome = true := by
  obtain ⟨d, hd, hname⟩ := (keyMarked_of_read hread).column _ (hasCompositeKey_ofTable.1 hcomposite)
  obtain ⟨f, -, hf, -⟩ := partitionField_ofTable (partitionName_ofTable (c := c) hd hname)
  exact Option.isSome_iff_exists.2 ⟨f, hf⟩

/-- Under the default configuration everything but the names is in order for a table that was read
with a field that identifies a row. -/
theorem prepared_of_read {clause : Bool} {statement : Sql.Statement}
    (hread : Table.ofStatement c₀ clause statement = .ok t)
    (hids : (Entity.ofTable Config.default t).idFields = id :: more) :
    Prepared (Entity.ofTable Config.default t) (.ofConfig Config.default) id more where
  ids := hids
  supers s hs := ⟨_, TypeRef.parse_simpleName (default_superClasses s (mem_superClasses s hs)).1⟩
  packages s hs := Java.isQualifiedName_of_simple (default_packageNames s (mem_packageNames s hs))
  types f hf := by
    obtain ⟨d, -, rfl⟩ := List.mem_map.1 hf
    exact exists_default_type d.sqlType
  values f hf := by
    obtain ⟨d, -, rfl⟩ := List.mem_map.1 hf
    exact default_value_ne_empty d
  partition := partitionField_of_read hread
  entityImports := importable_append.2
    ⟨importable_default_header _, importable_flatMap importable_default_fields⟩
  imports := importable_default hids

theorem nameable_ofTable : Nameable (Entity.ofTable c t) ↔
    isSimpleName (Naming.className t.name).toList = true ∧
      ∀ d ∈ t.columns, isSimpleName (Naming.fieldName d.name).toList = true := by
  constructor
  · intro h
    exact ⟨h.className, fun d hd =>
      h.fieldNames (EntityField.ofColumn c d) (List.mem_map_of_mem (f := EntityField.ofColumn c) hd)⟩
  · rintro ⟨hclass, hfields⟩
    refine ⟨hclass, fun f hf => ?_⟩
    obtain ⟨d, hd, rfl⟩ := List.mem_map.1 hf
    exact hfields d hd

end Units

end JpaScaffold
