import JpaScaffold.Proofs.Units.Key

/-!
# The imports of annotations

The builders write annotations and collect imports apart from each other. Each annotation of a
generated type is imported, but for the one that says how a column of JSON is stored: it is written
for every such column of an entity, and what it needs is imported only if the configuration says so.
-/
namespace JpaScaffold

namespace Java

/-- The segment of a dotted name behind its last point. -/
def lastSegment (name : String) : String :=
  String.ofList ((name.toList.splitOnP (· == '.')).getLastD [])

/-- The unit imports something of this name. -/
def CompilationUnit.Imports (u : CompilationUnit) (name : String) : Prop :=
  ∃ i ∈ u.imports, lastSegment i = name

/-- The annotations of a member. -/
def Member.markers : Member → List Marker
  | field f => f.markers
  | constructor _ => []
  | method m => m.markers

/-- The annotations of a type and of its members. -/
def TypeDecl.markers : TypeDecl → List Marker
  | classDecl c => c.markers ++ c.members.flatMap Member.markers
  | interfaceDecl i => i.markers ++ i.members.flatMap Member.markers

theorem lastSegment_fullName (package : String) {name : String}
    (h : isSimpleName name.toList = true) : lastSegment (package ++ "." ++ name) = name := by
  rw [lastSegment, splitOnP_fullName h, List.getLastD_concat, String.ofList_toList]

end Java

namespace Units

open Java (ClassDecl CompilationUnit ConstructorDecl FieldDecl ImportSet Marker Member MethodDecl
  TypeDecl TypeRef isQualifiedName isSimpleName lastSegment)

variable {e : Entity} {p : Policy} {calls : Calls} {c₀ c : Config} {t : Table} {us : TableUnits}
  {u : CompilationUnit} {s : ImportSet} {f id : EntityField} {more : List EntityField}
  {names names' : List String} {name : String}

/-- The annotation of a column that holds JSON. -/
def jsonMarker : Marker := classMarker "Type" (simpleType "StringJsonUserType")

/-- The names that the annotation of a column that holds JSON needs. -/
def jsonNames : List String := ["Type", "StringJsonUserType"]

/-- Every annotation is imported but `Override`, which needs no import. So is the class that the
annotation of a column that holds JSON names. -/
def AnnotationsImported (us : TableUnits) : Prop :=
  ∀ u ∈ us.toList, ∀ m ∈ u.decl.markers, m.name ≠ "Override" →
    u.Imports m.name ∧ (m = jsonMarker → u.Imports "StringJsonUserType")

/-- Something of this name is among the imports, blanks around them aside. -/
def Covers (names : List String) (name : String) : Prop :=
  ∃ i ∈ names, lastSegment (Text.mapChars Text.trim i) = name

instance : Decidable (Covers names name) := inferInstanceAs (Decidable (∃ i ∈ names, _))

/-- The imports of an entity that the configuration decides on: those of its super class, of its
columns and of their initial values. -/
def configuredImports (e : Entity) : List String :=
  e.superClass.fullName :: e.fields.flatMap fun f => f.imports ++ initialValueImports f

/-! ## What is imported -/

@[simp] theorem not_covers_nil : ¬Covers [] name := by
  rintro ⟨i, hi, -⟩
  cases hi

@[simp] theorem covers_cons {i : String} : Covers (i :: names) name ↔
    lastSegment (Text.mapChars Text.trim i) = name ∨ Covers names name :=
  List.exists_mem_cons_iff ..

@[simp] theorem covers_append : Covers (names ++ names') name ↔ Covers names name ∨ Covers names' name := by
  simp only [Covers, List.mem_append, or_and_right, exists_or]

@[simp] theorem covers_flatMap {α : Type} {l : List α} {g : α → List String} :
    Covers (l.flatMap g) name ↔ ∃ a ∈ l, Covers (g a) name := by
  constructor
  · rintro ⟨i, hi, hname⟩
    obtain ⟨a, ha, hi⟩ := List.mem_flatMap.1 hi
    exact ⟨a, ha, i, hi, hname⟩
  · rintro ⟨a, ha, i, hi, hname⟩
    exact ⟨i, List.mem_flatMap.2 ⟨a, ha, hi⟩, hname⟩

theorem Covers.mono (h : Covers names name) (hs : names ⊆ names') : Covers names' name := by
  obtain ⟨i, hi, hname⟩ := h
  exact ⟨i, hs hi, hname⟩

theorem imports_unitOf {s₀ : ImportSet} {package : String} {decl : TypeDecl}
    (h : s₀.addAll names = .ok s) : (unitOf e package s decl).Imports name ↔
      (∃ i ∈ s₀.names, lastSegment i = name) ∨ Covers names name := by
  constructor
  · rintro ⟨i, hi, hname⟩
    rcases (ImportSet.mem_addAll h).1 hi with hi | ⟨i', hi', rfl⟩
    · exact .inl ⟨i, hi, hname⟩
    · exact .inr ⟨i', hi', hname⟩
  · rintro (⟨i, hi, hname⟩ | ⟨i, hi, hname⟩)
    · exact ⟨i, (ImportSet.mem_addAll h).2 (.inl hi), hname⟩
    · exact ⟨_, (ImportSet.mem_addAll h).2 (.inr ⟨i, hi, rfl⟩), hname⟩

theorem imports_unitOf_empty {package : String} {decl : TypeDecl}
    (h : ImportSet.addAll {} names = .ok s) :
    (unitOf e package s decl).Imports name ↔ Covers names name := by
  simp [imports_unitOf h]

/-! ## The annotations of the types -/

theorem markers_of_members (fields : List FieldDecl) (constructors : List ConstructorDecl)
    (methods : List MethodDecl) :
    (fields.map Member.field ++ constructors.map Member.constructor ++
      methods.map Member.method).flatMap Member.markers = fields.flatMap FieldDecl.markers ++ methods.flatMap MethodDecl.markers := by
  have hnone : (constructors.map Member.constructor).flatMap Member.markers = [] := by
    simp [List.flatMap_map, Member.markers]
  rw [List.flatMap_append, List.flatMap_append, hnone, List.append_nil, List.flatMap_map,
    List.flatMap_map]
  rfl

theorem flatMap_markers_declared {markers : EntityField → List Marker}
    {value : EntityField → Option String} {l : List EntityField} {fields : List FieldDecl}
    (h : List.Forall₂ (fun f g => privateField f (markers f) (value f) = .ok g) l fields) :
    fields.flatMap FieldDecl.markers = l.flatMap markers := by
  induction h with
  | nil => rfl
  | cons hg _ ih =>
    obtain ⟨type, -, -, -, rfl⟩ := privateField_eq_ok.1 hg
    rw [List.flatMap_cons, List.flatMap_cons, ih]
    rfl

/-- The annotations of an entity stand on its class, on the fields of its columns, on its flag, and on
its methods. -/
theorem markers_entityClass {superClass key : TypeRef} {fields : List FieldDecl}
    (h : List.Forall₂ (fun f g => entityField p f = .ok g) e.fields fields) :
    TypeDecl.markers (.classDecl (entityClass e p id more superClass key fields)) =
      [bareMarker "Entity", bareMarker "Getter", bareMarker "Setter"] ++
        (if p.compositeKey then [classMarker "IdClass" key] else []) ++
        [⟨"Table", [⟨"name", .string e.tableName⟩]⟩] ++
        (e.fields.flatMap (entityMarkers p) ++ [bareMarker "Transient"] ++
          [bareMarker "Override", bareMarker "Override", bareMarker "PostPersist",
            bareMarker "PostLoad"]) := by
  rw [TypeDecl.markers, entityClass, markers_of_members, ← flatMap_markers_declared h]
  simp [serialVersion, isNewField, getIdMethod, isNewMethod, markMethod]

/-- The names of the annotations that every entity may have. -/
def entityNames : List String :=
  ["Column", "Entity", "Getter", "Id", "PostLoad", "PostPersist", "Setter", "Table", "Transient"]

theorem mem_entityMarkers {m : Marker} (hm : m ∈ entityMarkers p f) :
    m.name ∈ entityNames ∨ isGenerated p f = true ∧ m.name = "SnowflakeGenerator" ∨
      f.column.json = true ∧ m = jsonMarker := by
  simp only [entityMarkers, List.mem_append, List.mem_singleton, List.mem_ite_nil_right] at hm
  rcases hm with ((⟨-, rfl⟩ | ⟨hgenerated, rfl⟩) | ⟨hjson, rfl⟩) | rfl
  · exact .inl (by decide)
  · exact .inr (.inl ⟨hgenerated, rfl⟩)
  · exact .inr (.inr ⟨hjson, rfl⟩)
  · exact .inl (by simp [columnMarker, entityNames])

/-- What an entity imports covers its annotations, but for `Override` and that of JSON. -/
theorem covers_of_mem_markers {keyType : String} {superClass key : TypeRef} {fields : List FieldDecl}
    (h : List.Forall₂ (fun f g => entityField p f = .ok g) e.fields fields) {m : Marker}
    (hm : m ∈ TypeDecl.markers (.classDecl (entityClass e p id more superClass key fields)))
    (hoverride : m.name ≠ "Override") :
    m.name ≠ "Type" ∧
        Covers (entityHeaderImports e p keyType ++ e.fields.flatMap (entityFieldImports p)) m.name ∨
      (∃ f ∈ e.fields, f.column.json = true) ∧ m = jsonMarker := by
  have hall : ∀ name ∈ entityNames, name ≠ "Type" ∧ Covers entityImports name := by decide
  have hcovers : ∀ i ∈ ["jakarta.persistence.IdClass",
      "com.ymsl.solid.jpa.uuid.annotation.SnowflakeGenerator"],
      lastSegment i ≠ "Type" ∧ Covers [i] (lastSegment i) := by decide
  have hfixed (hname : m.name ∈ entityNames) : m.name ≠ "Type" ∧
      Covers (entityHeaderImports e p keyType ++ e.fields.flatMap (entityFieldImports p)) m.name := by
    refine ⟨(hall _ hname).1, (hall _ hname).2.mono fun i hi => ?_⟩
    simp [entityHeaderImports, hi]
  rw [markers_entityClass h] at hm
  simp only [List.mem_append, List.mem_cons, List.not_mem_nil, or_false, List.mem_flatMap,
    List.mem_ite_nil_right] at hm
  rcases hm with (((rfl | rfl | rfl) | ⟨hcomposite, rfl⟩) | rfl) |
    (⟨f, hf, hm⟩ | rfl) | (rfl | rfl | rfl | rfl)
  · exact .inl (hfixed (by decide))
  · exact .inl (hfixed (by decide))
  · exact .inl (hfixed (by decide))
  · obtain ⟨htype, hcovered⟩ := hcovers "jakarta.persistence.IdClass" (by decide)
    refine .inl ⟨htype, hcovered.mono fun i hi => ?_⟩
    rw [List.mem_singleton.1 hi]
    simp [entityHeaderImports, hcomposite]
  · exact .inl (hfixed (by simp [entityNames]))
  · rcases mem_entityMarkers hm with hname | ⟨hgenerated, hname⟩ | ⟨hjson, hm⟩
    · exact .inl (hfixed hname)
    · obtain ⟨htype, hcovered⟩ :=
        hcovers "com.ymsl.solid.jpa.uuid.annotation.SnowflakeGenerator" (by decide)
      rw [hname]
      refine .inl ⟨htype, hcovered.mono fun i hi => ?_⟩
      refine List.mem_append_right _ (List.mem_flatMap.2 ⟨f, hf, ?_⟩)
      rw [List.mem_singleton.1 hi]
      simp [entityFieldImports, hgenerated]
    · exact .inr ⟨⟨f, hf, hjson⟩, hm⟩
  · exact .inl (hfixed (by decide))
  · exact absurd rfl hoverride
  · exact absurd rfl hoverride
  · exact .inl (hfixed (by decide))
  · exact .inl (hfixed (by decide))

theorem jsonMarker_mem_entity {superClass key : TypeRef} {fields : List FieldDecl}
    (h : List.Forall₂ (fun f g => entityField p f = .ok g) e.fields fields) (hf : f ∈ e.fields)
    (hjson : f.column.json = true) :
    jsonMarker ∈ TypeDecl.markers (.classDecl (entityClass e p id more superClass key fields)) := by
  have hmarker : jsonMarker ∈ e.fields.flatMap (entityMarkers p) :=
    List.mem_flatMap.2 ⟨f, hf, by simp [entityMarkers, hjson, jsonMarker]⟩
  rw [markers_entityClass h]
  simp [hmarker]

/-! ## The types besides the entity -/

theorem flatMap_markers_unmarked {value : EntityField → Option String} {l : List EntityField}
    {fields : List FieldDecl}
    (h : List.Forall₂ (fun f g => privateField f [] (value f) = .ok g) l fields) :
    fields.flatMap FieldDecl.markers = [] := by
  refine (flatMap_markers_declared h).trans ?_
  simp

theorem markers_keyClass {ids : List EntityField} {partition : String} {key type : TypeRef}
    {fields : List FieldDecl} (h : List.Forall₂ (fun f g => keyField f = .ok g) ids fields) :
    TypeDecl.markers (.classDecl (keyClass e calls ids partition key type fields)) =
      [bareMarker "Data", bareMarker "NoArgsConstructor"] := by
  have hnone : fields.flatMap FieldDecl.markers = [] := flatMap_markers_unmarked h
  rw [TypeDecl.markers, keyClass, markers_of_members, List.flatMap_append, List.flatMap_cons, hnone]
  rfl

theorem markers_valueObjectClass {superClass : TypeRef} {fields : List FieldDecl}
    {methods : List MethodDecl}
    (h : List.Forall₂ (fun f g => voField f = .ok g) e.fields fields)
    (hmethods : ∀ m ∈ methods, m.markers = []) :
    TypeDecl.markers (.classDecl (valueObjectClass e superClass fields methods)) =
      [bareMarker "Data", bareMarker "Builder", bareMarker "AllArgsConstructor",
        bareMarker "NoArgsConstructor", ⟨"EqualsAndHashCode", [⟨"callSuper", .verbatim "true"⟩]⟩] := by
  have hnone : fields.flatMap FieldDecl.markers = [] := flatMap_markers_unmarked h
  rw [TypeDecl.markers, valueObjectClass, markers_of_members, List.flatMap_cons, hnone,
    List.flatMap_eq_nil_iff.2 hmethods]
  rfl

theorem markers_of_voBuilders {s' : ImportSet} {methods : List MethodDecl}
    (h : voBuilders e p calls id more s = .ok (s', methods)) : ∀ m ∈ methods, m.markers = [] := by
  rw [voBuilders_eq_ok] at h
  split at h
  · obtain ⟨builder, -, -, -, -, rfl⟩ := h
    simp [chainMethods, chainMethod]
  · obtain ⟨-, rfl⟩ := h
    exact List.forall_mem_nil _

theorem subset_of_voBuilders {s' : ImportSet} {methods : List MethodDecl}
    (h : voBuilders e p calls id more s = .ok (s', methods)) : s.names ⊆ s'.names := by
  rw [voBuilders_eq_ok] at h
  split at h
  · obtain ⟨builder, -, hadd, -⟩ := h
    exact fun name hname => (ImportSet.mem_addAll hadd).2 (.inl hname)
  · rw [h.1]
    exact List.Subset.refl _

/-- The annotations of a unit are imported, and none of them is that of JSON. -/
def MarkersImported (u : CompilationUnit) : Prop :=
  ∀ m ∈ u.decl.markers, m.name ≠ "Type" ∧ u.Imports m.name

theorem markersImported_of_keyUnit (h : keyUnit e calls = .ok u) : MarkersImported u := by
  obtain ⟨partition, -, -, h⟩ := keyUnit_eq_ok.1 h
  obtain ⟨key, partitionType, fields, s, -, -, hs, hfields, -, -, -, -, -, -, -, rfl⟩ :=
    buildKey_eq_ok.1 h
  have hcovers : ∀ m ∈ [bareMarker "Data", bareMarker "NoArgsConstructor"], m.name ≠ "Type" ∧
      Covers ["lombok.Data", "lombok.NoArgsConstructor", "java.io.Serializable"] m.name := by
    decide
  intro m hm
  obtain ⟨htype, hcovered⟩ := hcovers m (by rwa [unitOf, markers_keyClass hfields] at hm)
  refine ⟨htype, (imports_unitOf_empty hs).2 (hcovered.mono fun i hi => ?_)⟩
  simp only [keyImports, List.mem_append]
  exact .inl (.inl (.inl hi))

theorem markersImported_of_repositoryUnit (h : repositoryUnit e p = .ok u) : MarkersImported u := by
  obtain ⟨id, more, -, h⟩ := repositoryUnit_eq_ok.1 h
  obtain ⟨base, entity, key, s, -, -, -, hs, -, -, rfl⟩ := buildRepository_eq_ok.1 h
  have hcovers : Covers ["org.springframework.stereotype.Repository"] "Repository" := by
    decide
  intro m hm
  obtain rfl : m = bareMarker "Repository" := by
    simpa [unitOf, TypeDecl.markers, repositoryInterface] using hm
  refine ⟨by decide, (imports_unitOf_empty hs).2 (hcovers.mono fun i hi => ?_)⟩
  rw [List.mem_singleton.1 hi]
  simp [repositoryImports]

theorem markersImported_of_valueObjectUnit (h : valueObjectUnit e p calls = .ok u) :
    MarkersImported u := by
  obtain ⟨id, more, -, h⟩ := valueObjectUnit_eq_ok.1 h
  obtain ⟨superClass, fields, methods, s, s', -, hs, hfields, hbuilders, -, -, rfl⟩ :=
    buildValueObject_eq_ok.1 h
  have hcovers : ∀ m ∈ [bareMarker "Data", bareMarker "Builder", bareMarker "AllArgsConstructor",
      bareMarker "NoArgsConstructor", ⟨"EqualsAndHashCode", [⟨"callSuper", .verbatim "true"⟩]⟩],
      m.name ≠ "Type" ∧ Covers voImports m.name := by
    simp only [List.forall_mem_cons, bareMarker]
    decide
  intro m hm
  rw [unitOf, markers_valueObjectClass hfields (markers_of_voBuilders hbuilders)] at hm
  obtain ⟨htype, i, hi, hname⟩ := hcovers m hm
  refine ⟨htype, Text.mapChars Text.trim i, subset_of_voBuilders hbuilders ?_, hname⟩
  exact (ImportSet.mem_addAll hs).2 (.inr ⟨i, by simp [hi], rfl⟩)

/-! ## What the annotation of JSON needs -/

theorem not_covers_keyImport {package : String} (hname : name ∈ jsonNames)
    (hpackage : isQualifiedName e.packages.entityKey.toList = true)
    (hkey : isSimpleName e.keyClassName.toList = true) :
    ¬Covers (keyImport e package e.keyClassName) name := by
  have hend : ∀ name ∈ jsonNames, name.toList.getLast? = some 'e' := by decide
  have hkeyEnd : e.keyClassName.toList.getLast? = some 'y' := by
    rw [Entity.keyClassName, String.toList_append, List.getLast?_append]
    rfl
  unfold keyImport
  split
  · exact not_covers_nil
  · rw [covers_cons, Java.trim_fullName hpackage hkey, Java.lastSegment_fullName _ hkey]
    rintro (rfl | h)
    · rw [hend _ hname] at hkeyEnd
      revert hkeyEnd
      decide
    · exact not_covers_nil h

/-- Only what is configured can cover what the annotation of JSON needs. -/
theorem covers_configured {keyType : String} (hname : name ∈ jsonNames)
    (hkey : p.compositeKey = true → ¬Covers (keyImport e e.packages.entity keyType) name) :
    Covers (entityHeaderImports e p keyType ++ e.fields.flatMap (entityFieldImports p)) name ↔
      Covers (configuredImports e) name := by
  have hfixed : ∀ name ∈ jsonNames, ¬Covers ("jakarta.persistence.IdClass" ::
      "com.ymsl.solid.jpa.uuid.annotation.SnowflakeGenerator" :: entityImports) name := by
    decide
  have hnone := hfixed name hname
  rw [covers_cons, covers_cons, not_or, not_or] at hnone
  obtain ⟨hidClass, hgenerator, hentity⟩ := hnone
  have hheader : Covers (entityHeaderImports e p keyType) name ↔
      lastSegment (Text.mapChars Text.trim e.superClass.fullName) = name := by
    rw [entityHeaderImports, covers_append, covers_cons]
    split
    · next hcomposite => simp [hidClass, hentity, hkey hcomposite]
    · simp [hentity]
  have hfield (f : EntityField) : Covers (entityFieldImports p f) name ↔
      Covers (f.imports ++ initialValueImports f) name := by
    rw [entityFieldImports, covers_append, covers_append, covers_append]
    split
    · simp [hgenerator]
    · simp
  rw [covers_append, hheader, covers_flatMap, configuredImports, covers_cons, covers_flatMap]
  exact or_congr_right (exists_congr fun f => and_congr_right fun _ => hfield f)

/-- The annotations of an entity are imported but for that of JSON, which stands on every column that
holds JSON; what it needs is imported if the configuration says so. -/
theorem imports_of_entityUnit (h : entityUnit e (.of e) = .ok u)
    (hpackage : e.hasCompositeKey = true → isQualifiedName e.packages.entityKey.toList = true) :
    (∀ m ∈ u.decl.markers, m.name ≠ "Override" → m.name ≠ "Type" ∧ u.Imports m.name ∨
      (∃ f ∈ e.fields, f.column.json = true) ∧ m = jsonMarker) ∧
    ((∃ f ∈ e.fields, f.column.json = true) → jsonMarker ∈ u.decl.markers) ∧
    ∀ name ∈ jsonNames, u.Imports name ↔ Covers (configuredImports e) name := by
  obtain ⟨id, more, -, h⟩ := entityUnit_eq_ok.1 h
  obtain ⟨superClass, key, fields, s, -, -, hs, hfields, -, hclass, -, rfl⟩ := buildEntity_eq_ok.1 h
  refine ⟨fun m hm hoverride => ?_, ?_, fun name hname => ?_⟩
  · rw [imports_unitOf_empty hs]
    exact covers_of_mem_markers hfields hm hoverride
  · rintro ⟨f, hf, hjson⟩
    exact jsonMarker_mem_entity hfields hf hjson
  · rw [imports_unitOf_empty hs]
    refine covers_configured hname fun hcomposite => ?_
    rw [compositeKey_of] at hcomposite
    rw [Entity.keyTypeOf, if_pos hcomposite]
    exact not_covers_keyImport hname (hpackage hcomposite)
      (isSimpleName_append_word hclass (by decide))

theorem json_of_read {clause : Bool} {statement : Sql.Statement}
    (h : Table.ofStatement c₀ clause statement = .ok t) :
    (∃ f ∈ (Entity.ofTable c t).fields, f.column.json = true) ↔
      ∃ d ∈ t.columns, d.sqlType ∈ ["json", "jsonb"] := by
  have hcolumn : ∀ d ∈ t.columns, d.json = true ↔ d.sqlType ∈ ["json", "jsonb"] := by
    cases statement with
    | other => cases h
    | createTable s =>
      cases h
      intro d hd
      obtain ⟨d, -, rfl⟩ := List.mem_map.1 hd
      simp [Column.ofDef, Sql.TypeName.isJson]
  constructor
  · rintro ⟨f, hf, hjson⟩
    obtain ⟨d, hd, rfl⟩ := List.mem_map.1 hf
    exact ⟨d, hd, (hcolumn d hd).1 hjson⟩
  · rintro ⟨d, hd, htype⟩
    exact ⟨_, List.mem_map_of_mem hd, (hcolumn d hd).2 htype⟩

theorem markersImported_of_units (h : units e calls = .ok us) :
    ∀ u ∈ us.toList, u = us.entity ∨ MarkersImported u := by
  intro u hu
  rcases built_of_mem h hu with hentity | ⟨-, hkey⟩ | hrepository | hvo
  · exact .inl (Except.ok.inj (hentity.symm.trans (unitsUnder_eq_ok.1 h).2.1))
  · exact .inr (markersImported_of_keyUnit hkey)
  · exact .inr (markersImported_of_repositoryUnit hrepository)
  · exact .inr (markersImported_of_valueObjectUnit hvo)

theorem keyPackage_of_units (h : units e calls = .ok us) (hcomposite : e.hasCompositeKey = true) :
    isQualifiedName e.packages.entityKey.toList = true := by
  obtain ⟨-, -, hkey, -, -⟩ := unitsUnder_eq_ok.1 h
  rw [optionalKeyUnit_eq_ok, compositeKey_of, if_pos hcomposite] at hkey
  obtain ⟨unit, -, hkey⟩ := hkey
  obtain ⟨partition, -, -, hkey⟩ := keyUnit_eq_ok.1 hkey
  obtain ⟨_, _, _, _, -, -, -, -, -, -, -, -, -, -, hpackage, -⟩ := buildKey_eq_ok.1 hkey
  exact hpackage

/-- The annotations of the types that are generated for a table that was read are imported, but for
that of JSON. All are imported if and only if the table has no column that holds JSON, or the imports
that are configured for its entity name what the annotation needs. They do if the imports of the JSON
types name it. -/
theorem annotations_are_imported {clause : Bool} {statement : Sql.Statement}
    (hread : Table.ofStatement c₀ clause statement = .ok t)
    (hunits : units (Entity.ofTable c t) (Calls.ofConfig c) = .ok us) :
    (∀ u ∈ us.toList, ∀ m ∈ u.decl.markers, m.name ≠ "Override" → m ≠ jsonMarker →
      u.Imports m.name) ∧
    (AnnotationsImported us ↔ ((∃ d ∈ t.columns, d.sqlType ∈ ["json", "jsonb"]) →
      ∀ name ∈ jsonNames, Covers (configuredImports (Entity.ofTable c t)) name)) ∧
    ((∀ sqlType ∈ ["json", "jsonb"], ∀ name ∈ jsonNames,
      Covers (c.javaType sqlType).imports name) → AnnotationsImported us) := by
  obtain ⟨-, hentity, -⟩ := unitsUnder_eq_ok.1 hunits
  obtain ⟨hmarkers, hjson, hnames⟩ := imports_of_entityUnit hentity (keyPackage_of_units hunits)
  rw [json_of_read hread] at hmarkers hjson
  have hothers := markersImported_of_units hunits
  -- only the entity can have the annotation of JSON, and it has it for a column of such a type
  have hall (hconfigured : (∃ d ∈ t.columns, d.sqlType ∈ ["json", "jsonb"]) →
      ∀ name ∈ jsonNames, Covers (configuredImports (Entity.ofTable c t)) name) :
      AnnotationsImported us := by
    have hplain {u : CompilationUnit} {m : Marker} (h : m.name ≠ "Type" ∧ u.Imports m.name) :
        u.Imports m.name ∧ (m = jsonMarker → u.Imports "StringJsonUserType") :=
      ⟨h.2, fun hm => absurd (congrArg Marker.name hm) h.1⟩
    intro u hu m hm hoverride
    rcases hothers u hu with rfl | himported
    · rcases hmarkers m hm hoverride with h | ⟨htable, rfl⟩
      · exact hplain h
      · have hneeded (name : String) (hname : name ∈ jsonNames) : us.entity.Imports name :=
          (hnames name hname).2 (hconfigured htable name hname)
        exact ⟨hneeded "Type" (by decide), fun _ => hneeded "StringJsonUserType" (by decide)⟩
    · exact hplain (himported m hm)
  refine ⟨fun u hu m hm hoverride hjsonMarker => ?_, ⟨fun himported htable => ?_, hall⟩,
    fun hlists => hall ?_⟩
  · rcases hothers u hu with rfl | himported
    · rcases hmarkers m hm hoverride with h | ⟨-, h⟩
      · exact h.2
      · exact absurd h hjsonMarker
    · exact (himported m hm).2
  · have hentityMem : us.entity ∈ us.toList := List.mem_cons_self
    obtain ⟨htype, huser⟩ := himported us.entity hentityMem jsonMarker (hjson htable) (by decide)
    refine List.forall_mem_cons.2 ⟨(hnames _ (by decide)).1 htype, ?_⟩
    exact List.forall_mem_singleton.2 ((hnames _ (by decide)).1 (huser rfl))
  · rintro ⟨d, hd, hsqlType⟩ name hname
    have hfield : EntityField.ofColumn c d ∈ (Entity.ofTable c t).fields := List.mem_map_of_mem hd
    rw [configuredImports, covers_cons, covers_flatMap]
    exact .inr ⟨_, hfield, covers_append.2 (.inl (hlists d.sqlType hsqlType name hname))⟩

/-- The default configuration with imports for decimals only, as a file that sets its imports would
leave it. -/
def decimalImports : Config :=
  { Config.default with dataImportMap := .ofList [("numeric", .one "java.math.BigDecimal")] }

theorem plain_colors_decimalImports : Plain
    (Entity.ofTable decimalImports (Table.ofCreateTable decimalImports false colorTable))
    (Calls.ofConfig decimalImports) colorId [] := by
  decide

/-- The default configuration imports what the colors need, whose data are JSON. Imports for decimals
only do not. -/
theorem annotations_are_imported_of_colors :
    (∃ us, units (Entity.ofTable Config.default (Table.ofCreateTable Config.default false colorTable))
        (Calls.ofConfig Config.default) = .ok us ∧ AnnotationsImported us) ∧
    ∃ us, units (Entity.ofTable decimalImports (Table.ofCreateTable decimalImports false colorTable))
        (Calls.ofConfig decimalImports) = .ok us ∧ ¬AnnotationsImported us := by
  constructor
  · obtain ⟨us, hunits⟩ := plain_colors.exists_units
    have hread : Table.ofStatement Config.default false (.createTable colorTable) =
        .ok (Table.ofCreateTable Config.default false colorTable) := rfl
    exact ⟨us, hunits, (annotations_are_imported hread hunits).2.2 (by decide +kernel)⟩
  · obtain ⟨us, hunits⟩ := plain_colors_decimalImports.exists_units
    have hread : Table.ofStatement decimalImports false (.createTable colorTable) =
        .ok (Table.ofCreateTable decimalImports false colorTable) := rfl
    refine ⟨us, hunits, fun himported => ?_⟩
    have hneeded := (annotations_are_imported hread hunits).2.1.1 himported
    revert hneeded
    decide +kernel

end Units

end JpaScaffold
