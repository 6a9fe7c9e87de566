import JpaScaffold.Proofs.Java.ImportSet
import JpaScaffold.Units.TableUnits

/-!
# What the units of a table are

Each builder either fails or returns a unit whose tree is written down here. The lemmas say when it
succeeds and what it then returns, so that nothing else needs to look into the builders.
-/
namespace JpaScaffold.Units

open Java (BuildError ClassDecl ClassDraft CompilationUnit ConstructorDecl ConstructorDraft FieldDecl
  FieldDraft ImportSet InterfaceDecl InterfaceDraft Marker MethodDecl MethodDraft Modifier TypeDecl
  TypeRef UnitDraft bareStatement isQualifiedName isSimpleName)

variable {e : Entity} {p : Policy} {calls : Calls} {f id : EntityField} {ids more l : List EntityField}
  {s s' : ImportSet} {decls : List FieldDecl} {ms : List Marker} {value : Option String}
  {u : CompilationUnit}

/-- The unit of a type of an entity, with the author in its doc comment. -/
def unitOf (e : Entity) (package : String) (s : ImportSet) (decl : TypeDecl) : CompilationUnit :=
  ⟨package, s.names, some (authorDoc e), decl, []⟩

def fieldDecl (f : EntityField) (type : TypeRef) (ms : List Marker) (value : Option String) :
    FieldDecl :=
  ⟨f.name, [.privateAccess], ms, type, value.map (Text.mapChars Text.trim)⟩

/-- A statement as it is built. -/
def expression (text : String) : Java.Statement := .expression (bareStatement text)

theorem privateField_eq_ok {g : FieldDecl} :
    privateField f ms value = .ok g ↔ ∃ type, TypeRef.parse f.type = .ok type ∧
      value.map (Text.mapChars Text.trim) ≠ some "" ∧ isSimpleName f.name.toList = true ∧
      g = fieldDecl f type ms value := by
  rw [privateField, bind_eq_ok]
  refine exists_congr fun type => and_congr_right fun _ => ?_
  rw [FieldDraft.build_eq_ok]
  constructor
  · rintro ⟨hvalue, hname, -, rfl⟩
    exact ⟨hvalue, hname, rfl⟩
  · rintro ⟨hvalue, hname, rfl⟩
    exact ⟨hvalue, hname, by simp, rfl⟩

theorem names_of_declared {markers : EntityField → List Marker} {value : EntityField → Option String}
    (h : List.Forall₂ (fun f g => privateField f (markers f) (value f) = .ok g) l decls) :
    l.map EntityField.name = decls.map FieldDecl.name := by
  induction h with
  | nil => rfl
  | cons hg _ ih =>
    obtain ⟨type, -, -, -, rfl⟩ := privateField_eq_ok.1 hg
    rw [List.map_cons, List.map_cons, ih]
    rfl

/-- Fields are declared one for one and in order, and their imports are added in that order. -/
theorem declareFields_eq_ok {importsOf : EntityField → List String}
    {declare : EntityField → Except BuildError FieldDecl} :
    declareFields importsOf declare s l = .ok (s', decls) ↔
      s.addAll (l.flatMap importsOf) = .ok s' ∧
        List.Forall₂ (fun f g => declare f = .ok g) l decls := by
  induction l generalizing s decls with
  | nil =>
    rw [List.forall₂_nil_left_iff]
    constructor
    · intro h
      cases h
      exact ⟨rfl, rfl⟩
    · rintro ⟨h, rfl⟩
      cases h
      rfl
  | cons f l ih =>
    rw [List.flatMap_cons, ImportSet.addAll_append, List.forall₂_cons_left_iff]
    constructor
    · intro h
      obtain ⟨s₁, hadd, h⟩ := bind_eq_ok.1 h
      obtain ⟨g, hg, h⟩ := bind_eq_ok.1 h
      obtain ⟨⟨s₂, rest⟩, hrest, h⟩ := bind_eq_ok.1 h
      cases h
      obtain ⟨hadd', hdecls⟩ := ih.1 hrest
      exact ⟨bind_eq_ok.2 ⟨s₁, hadd, hadd'⟩, g, rest, hg, hdecls, rfl⟩
    · rintro ⟨hadd, g, rest, hg, hdecls, rfl⟩
      obtain ⟨s₁, hadd, hadd'⟩ := bind_eq_ok.1 hadd
      refine bind_eq_ok.2 ⟨s₁, hadd, bind_eq_ok.2 ⟨g, hg, ?_⟩⟩
      exact bind_eq_ok.2 ⟨_, ih.2 ⟨hadd', hdecls⟩, rfl⟩

theorem unitDraft_eq_ok {package : String} {c : ClassDecl} (hs : s.Sound) :
    (UnitDraft.addAll {} [.package package, .importSet s, .doc (authorDoc e), .classDecl c] >>=
        UnitDraft.build) = .ok u ↔
      isQualifiedName package.toList = true ∧ u = unitOf e package s (.classDecl c) := by
  rw [UnitDraft.buildClass_eq_ok, hs.addAll_names]
  refine and_congr_right fun _ => ⟨?_, fun h => ⟨s, rfl, h⟩⟩
  rintro ⟨imports, himports, rfl⟩
  cases himports
  rfl

/-! ## The entity -/

def getIdMethod (e : Entity) (p : Policy) (id : EntityField) (more : List EntityField)
    (key : TypeRef) : MethodDecl :=
  ⟨"getId", [.publicAccess], [bareMarker "Override"], [], key,
    some [expression ("return " ++ idExpression p (e.keyTypeOf id) id more)]⟩

def entityClass (e : Entity) (p : Policy) (id : EntityField) (more : List EntityField)
    (superClass key : TypeRef) (fields : List FieldDecl) : ClassDecl :=
  ⟨e.className, [.publicAccess],
    [bareMarker "Entity", bareMarker "Getter", bareMarker "Setter"] ++
      (if p.compositeKey then [classMarker "IdClass" key] else []) ++
      [⟨"Table", [⟨"name", .string e.tableName⟩]⟩],
    some superClass, [.mk "Persistable" [key] 0],
    (serialVersion :: fields ++ [isNewField]).map .field ++ [].map .constructor ++
      [getIdMethod e p id more key, isNewMethod, markMethod].map .method⟩

theorem idClassMarkers_eq_ok {keyType : String} {key : TypeRef}
    (hkey : TypeRef.parse keyType = .ok key) :
    idClassMarkers p keyType = .ok (if p.compositeKey then [classMarker "IdClass" key] else []) := by
  unfold idClassMarkers
  split
  · rw [hkey]
    rfl
  · rfl

theorem buildEntity_eq_ok : buildEntity e p id more = .ok u ↔
    ∃ superClass key fields s, TypeRef.parse e.superClass.name = .ok superClass ∧
      TypeRef.parse (e.keyTypeOf id) = .ok key ∧
      ImportSet.addAll {} (entityHeaderImports e p (e.keyTypeOf id) ++
        e.fields.flatMap (entityFieldImports p)) = .ok s ∧
      List.Forall₂ (fun f g => entityField p f = .ok g) e.fields fields ∧
      bareStatement ("return " ++ idExpression p (e.keyTypeOf id) id more) ≠ "" ∧
      isSimpleName e.className.toList = true ∧ isQualifiedName e.packages.entity.toList = true ∧
      u = unitOf e e.packages.entity s
        (.classDecl (entityClass e p id more superClass key fields)) := by
  have hname' : isSimpleName "getId".toList = true := by decide
  constructor
  · intro h
    obtain ⟨s, hs, h⟩ := bind_eq_ok.1 h
    obtain ⟨idClass, hidClass, h⟩ := bind_eq_ok.1 h
    obtain ⟨superClass, hsuper, h⟩ := bind_eq_ok.1 h
    obtain ⟨key, hkey, h⟩ := bind_eq_ok.1 h
    obtain ⟨⟨s', fields⟩, hfields, h⟩ := bind_eq_ok.1 h
    obtain ⟨getId, hgetId, h⟩ := bind_eq_ok.1 h
    obtain ⟨decl, hdecl, h⟩ := bind_eq_ok.1 h
    rw [idClassMarkers_eq_ok hkey] at hidClass
    cases hidClass
    obtain ⟨hadd, hforall⟩ := declareFields_eq_ok.1 hfields
    obtain ⟨hbare, -, -, -, rfl⟩ := (MethodDraft.build_eq_ok rfl).1 hgetId
    obtain ⟨hname, -, rfl⟩ := ClassDraft.build_eq_ok.1 hdecl
    have hsound := (ImportSet.sound_empty.addAll hs).addAll hadd
    obtain ⟨hpackage, rfl⟩ := (unitDraft_eq_ok hsound).1 h
    refine ⟨superClass, key, fields, s', hsuper, hkey, ?_, hforall, hbare _ (by simp), hname,
      hpackage, rfl⟩
    rw [ImportSet.addAll_append]
    exact bind_eq_ok.2 ⟨s, hs, hadd⟩
  · rintro ⟨superClass, key, fields, s', hsuper, hkey, hadd, hforall, hbare, hname, hpackage, rfl⟩
    have hsound := ImportSet.sound_empty.addAll hadd
    rw [ImportSet.addAll_append] at hadd
    obtain ⟨s, hs, hadd⟩ := bind_eq_ok.1 hadd
    refine bind_eq_ok.2 ⟨s, hs, bind_eq_ok.2 ⟨_, idClassMarkers_eq_ok hkey, ?_⟩⟩
    refine bind_eq_ok.2 ⟨superClass, hsuper, bind_eq_ok.2 ⟨key, hkey, ?_⟩⟩
    refine bind_eq_ok.2 ⟨(s', fields), declareFields_eq_ok.2 ⟨hadd, hforall⟩, ?_⟩
    refine bind_eq_ok.2 ⟨getIdMethod e p id more key, (MethodDraft.build_eq_ok rfl).2 ?_, ?_⟩
    · exact ⟨by simpa using hbare, hname', by simp, by simp, rfl⟩
    · refine bind_eq_ok.2 ⟨entityClass e p id more superClass key fields, ?_, ?_⟩
      · exact ClassDraft.build_eq_ok.2 ⟨hname, by simp, rfl⟩
      · exact (unitDraft_eq_ok hsound).2 ⟨hpackage, rfl⟩

theorem entityUnit_eq_ok : entityUnit e p = .ok u ↔
    ∃ id more, e.idFields = id :: more ∧ buildEntity e p id more = .ok u := by
  unfold entityUnit
  cases e.idFields with
  | nil => simp
  | cons id more => simp [mapError_eq_ok]

/-! ## The key -/

/-- The names and types of the fields, as a constructor takes them. -/
def parametersOf (fields : List FieldDecl) : List Java.Parameter :=
  fields.map fun f => ⟨f.name, f.type⟩

def partitionDecl (partition : String) (type : TypeRef) : FieldDecl :=
  ⟨partition, [.privateAccess], [], type, none⟩

/-- The constructor of a key, which looks the partition up. -/
def keyConstructor (e : Entity) (calls : Calls) (ids : List EntityField) (partition : String)
    (fields : List FieldDecl) : ConstructorDecl :=
  ⟨e.keyClassName, [.privateAccess], parametersOf fields,
    (ids.map (fun f => "this." ++ f.name ++ " = " ++ f.name) ++
      ["this." ++ partition ++ " = " ++ calls.partition.expression]).map expression⟩

/-- The text that makes a key of the identifying fields. -/
def newKeyText (e : Entity) (ids : List EntityField) : String :=
  "return new " ++ e.keyClassName ++ "(" ++ ", ".intercalate (ids.map EntityField.name) ++ ")"

/-- The method that makes a key of the identifying fields. -/
def keyMaker (e : Entity) (ids : List EntityField) (key : TypeRef) (fields : List FieldDecl) :
    MethodDecl :=
  ⟨"of", [.publicAccess, .staticMember], [], parametersOf fields, key,
    some [expression (newKeyText e ids)]⟩

/-- The class of a key. -/
def keyClass (e : Entity) (calls : Calls) (ids : List EntityField) (partition : String)
    (key partitionType : TypeRef) (fields : List FieldDecl) : ClassDecl :=
  ⟨e.keyClassName, [.publicAccess], [bareMarker "Data", bareMarker "NoArgsConstructor"], none,
    [simpleType "Serializable"],
    (serialVersion :: fields ++ [partitionDecl partition partitionType]).map .field ++
      [keyConstructor e calls ids partition fields].map .constructor ++
      [keyMaker e ids key fields].map .method⟩

/-- The imports of the field that holds the partition. -/
def partitionImports (e : Entity) : List String := (e.partitionField.map EntityField.imports).getD []

theorem map_parameter (fields : List FieldDecl) : (fields.map fun f => (f.name, f.type)).map
    (fun q => (⟨q.1, q.2⟩ : Java.Parameter)) = parametersOf fields := List.map_map

theorem buildPartition_eq_ok {partition : String} {type : TypeRef} {d : FieldDecl} :
    FieldDraft.build { modifiers := [.privateAccess], name := partition, type } = .ok d ↔
      isSimpleName partition.toList = true ∧ d = partitionDecl partition type := by
  rw [FieldDraft.build_eq_ok]
  constructor
  · rintro ⟨-, hname, -, rfl⟩
    exact ⟨hname, rfl⟩
  · rintro ⟨hname, rfl⟩
    exact ⟨by simp, hname, by simp, rfl⟩

theorem buildConstructor_eq_ok {partition : String} {fields : List FieldDecl} {c : ConstructorDecl} :
    ConstructorDraft.build
      { modifiers := [.privateAccess]
        name := e.keyClassName
        parameters := fields.map fun f => (f.name, f.type)
        statements := ids.map (fun f => "this." ++ f.name ++ " = " ++ f.name) ++
          ["this." ++ partition ++ " = " ++ calls.partition.expression] } = .ok c ↔
      isSimpleName e.keyClassName.toList = true ∧
        (∀ f ∈ fields, isSimpleName f.name.toList = true) ∧
        (∀ f ∈ ids, bareStatement ("this." ++ f.name ++ " = " ++ f.name) ≠ "") ∧
        bareStatement ("this." ++ partition ++ " = " ++ calls.partition.expression) ≠ "" ∧
        c = keyConstructor e calls ids partition fields := by
  rw [ConstructorDraft.build_eq_ok, map_parameter, List.forall_mem_append, List.forall_mem_singleton,
    List.forall_mem_map, List.forall_mem_map]
  constructor
  · rintro ⟨hname, -, hparameters, ⟨hbody, hlookup⟩, rfl⟩
    exact ⟨hname, hparameters, hbody, hlookup, rfl⟩
  · rintro ⟨hname, hparameters, hbody, hlookup, rfl⟩
    exact ⟨hname, by simp, hparameters, ⟨hbody, hlookup⟩, rfl⟩

theorem buildMaker_eq_ok {key : TypeRef} {fields : List FieldDecl} {m : MethodDecl} :
    MethodDraft.build
      { modifiers := [.publicAccess, .staticMember]
        name := "of"
        returnType := key
        parameters := fields.map fun f => (f.name, f.type)
        statements := [newKeyText e ids] } = .ok m ↔
      bareStatement (newKeyText e ids) ≠ "" ∧ (∀ f ∈ fields, isSimpleName f.name.toList = true) ∧
        m = keyMaker e ids key fields := by
  have hof : isSimpleName "of".toList = true := by decide
  rw [MethodDraft.build_eq_ok rfl, map_parameter, List.forall_mem_singleton, List.forall_mem_map]
  constructor
  · rintro ⟨hbare, -, -, hparameters, rfl⟩
    exact ⟨hbare, hparameters, rfl⟩
  · rintro ⟨hbare, hparameters, rfl⟩
    exact ⟨hbare, hof, by simp, hparameters, rfl⟩

theorem buildKey_eq_ok {partition : String} : buildKey e calls ids partition = .ok u ↔
    ∃ key partitionType fields s, TypeRef.parse e.keyClassName = .ok key ∧
      TypeRef.parse ((e.partitionField.map EntityField.type).getD "String") = .ok partitionType ∧
      ImportSet.addAll {} (keyImports calls ++ ids.flatMap EntityField.imports ++
        partitionImports e) = .ok s ∧
      List.Forall₂ (fun f g => keyField f = .ok g) ids fields ∧
      isSimpleName partition.toList = true ∧ isSimpleName e.keyClassName.toList = true ∧
      (∀ f ∈ fields, isSimpleName f.name.toList = true) ∧
      (∀ f ∈ ids, bareStatement ("this." ++ f.name ++ " = " ++ f.name) ≠ "") ∧
      bareStatement ("this." ++ partition ++ " = " ++ calls.partition.expression) ≠ "" ∧
      bareStatement (newKeyText e ids) ≠ "" ∧
      isQualifiedName e.packages.entityKey.toList = true ∧
      u = unitOf e e.packages.entityKey s
        (.classDecl (keyClass e calls ids partition key partitionType fields)) := by
  rw [ImportSet.addAll_append, ImportSet.addAll_append]
  constructor
  · intro h
    obtain ⟨s₁, hs₁, h⟩ := bind_eq_ok.1 h
    obtain ⟨key, hkey, h⟩ := bind_eq_ok.1 h
    obtain ⟨⟨s₂, fields⟩, hfields, h⟩ := bind_eq_ok.1 h
    obtain ⟨s, hs, h⟩ := bind_eq_ok.1 h
    obtain ⟨partitionType, htype, h⟩ := bind_eq_ok.1 h
    obtain ⟨partitionField, hpartition, h⟩ := bind_eq_ok.1 h
    obtain ⟨constructor, hconstructor, h⟩ := bind_eq_ok.1 h
    obtain ⟨make, hmake, h⟩ := bind_eq_ok.1 h
    obtain ⟨decl, hdecl, h⟩ := bind_eq_ok.1 h
    obtain ⟨hs₂, hforall⟩ := declareFields_eq_ok.1 hfields
    obtain ⟨hsimple, rfl⟩ := buildPartition_eq_ok.1 hpartition
    obtain ⟨hname, hparameters, hbody, hlookup, rfl⟩ := buildConstructor_eq_ok.1 hconstructor
    obtain ⟨hbare, -, rfl⟩ := buildMaker_eq_ok.1 hmake
    obtain ⟨-, -, hdecl⟩ := ClassDraft.build_eq_ok.1 hdecl
    obtain rfl : decl = keyClass e calls ids partition key partitionType fields := hdecl
    have hsound := ((ImportSet.sound_empty.addAll hs₁).addAll hs₂).addAll hs
    obtain ⟨hpackage, rfl⟩ := (unitDraft_eq_ok hsound).1 h
    exact ⟨key, partitionType, fields, s, hkey, htype,
      bind_eq_ok.2 ⟨s₂, bind_eq_ok.2 ⟨s₁, hs₁, hs₂⟩, hs⟩, hforall, hsimple, hname, hparameters, hbody,
      hlookup, hbare, hpackage, rfl⟩
  · rintro ⟨key, partitionType, fields, s, hkey, htype, hadd, hforall, hsimple, hname, hparameters,
      hbody, hlookup, hbare, hpackage, rfl⟩
    obtain ⟨s₂, hadd, hs⟩ := bind_eq_ok.1 hadd
    obtain ⟨s₁, hs₁, hs₂⟩ := bind_eq_ok.1 hadd
    have hsound := ((ImportSet.sound_empty.addAll hs₁).addAll hs₂).addAll hs
    refine bind_eq_ok.2 ⟨s₁, hs₁, bind_eq_ok.2 ⟨key, hkey, ?_⟩⟩
    refine bind_eq_ok.2 ⟨(s₂, fields), declareFields_eq_ok.2 ⟨hs₂, hforall⟩, ?_⟩
    refine bind_eq_ok.2 ⟨s, hs, bind_eq_ok.2 ⟨partitionType, htype, ?_⟩⟩
    refine bind_eq_ok.2 ⟨_, buildPartition_eq_ok.2 ⟨hsimple, rfl⟩, ?_⟩
    refine bind_eq_ok.2
      ⟨_, buildConstructor_eq_ok.2 ⟨hname, hparameters, hbody, hlookup, rfl⟩, ?_⟩
    refine bind_eq_ok.2 ⟨_, buildMaker_eq_ok.2 ⟨hbare, hparameters, rfl⟩, ?_⟩
    refine bind_eq_ok.2 ⟨keyClass e calls ids partition key partitionType fields, ?_, ?_⟩
    · exact ClassDraft.build_eq_ok.2 ⟨hname, by simp, rfl⟩
    · exact (unitDraft_eq_ok hsound).2 ⟨hpackage, rfl⟩

theorem keyUnit_eq_ok : keyUnit e calls = .ok u ↔
    ∃ partition, e.idFields ≠ [] ∧ e.partitionName = some partition ∧
      buildKey e calls e.idFields partition = .ok u := by
  unfold keyUnit
  cases hids : e.idFields with
  | nil => simp
  | cons id more =>
    cases e.partitionName with
    | none => simp
    | some partition => simp [mapError_eq_ok]

theorem optionalKeyUnit_eq_ok {k : Option CompilationUnit} : optionalKeyUnit e p calls = .ok k ↔
    if p.compositeKey then ∃ u, k = some u ∧ keyUnit e calls = .ok u else k = none := by
  unfold optionalKeyUnit
  split
  · rw [map_eq_ok]
    constructor
    · rintro ⟨u, hu, rfl⟩
      exact ⟨u, rfl, hu⟩
    · rintro ⟨u, rfl, hu⟩
      exact ⟨u, hu, rfl⟩
  · rw [Except.ok.injEq, eq_comm]

/-! ## The repository -/

def repositoryInterface (e : Entity) (base entity key : TypeRef) : InterfaceDecl :=
  ⟨e.repositoryName, [.publicAccess], [bareMarker "Repository"], [.mk base.name [entity, key] base.dims],
    []⟩

theorem buildRepository_eq_ok : buildRepository e p id = .ok u ↔
    ∃ base entity key s, TypeRef.parse e.repositorySuper.name = .ok base ∧
      TypeRef.parse e.className = .ok entity ∧ TypeRef.parse (e.keyTypeOf id) = .ok key ∧
      ImportSet.addAll {} (repositoryImports e p id) = .ok s ∧
      isSimpleName e.repositoryName.toList = true ∧
      isQualifiedName e.packages.repository.toList = true ∧
      u = unitOf e e.packages.repository s (.interfaceDecl (repositoryInterface e base entity key)) := by
  constructor
  · intro h
    obtain ⟨s, hs, h⟩ := bind_eq_ok.1 h
    obtain ⟨entity, hentity, h⟩ := bind_eq_ok.1 h
    obtain ⟨key, hkey, h⟩ := bind_eq_ok.1 h
    obtain ⟨extended, hextended, h⟩ := bind_eq_ok.1 h
    obtain ⟨decl, hdecl, h⟩ := bind_eq_ok.1 h
    obtain ⟨base, hbase, rfl⟩ := map_eq_ok.1 hextended
    obtain ⟨hname, -, rfl⟩ := InterfaceDraft.build_eq_ok.1 hdecl
    obtain ⟨hpackage, s', hs', rfl⟩ := UnitDraft.buildInterface_eq_ok.1 h
    rw [(ImportSet.sound_empty.addAll hs).addAll_names] at hs'
    cases hs'
    exact ⟨base, entity, key, s, hbase, hentity, hkey, hs, hname, hpackage, rfl⟩
  · rintro ⟨base, entity, key, s, hbase, hentity, hkey, hs, hname, hpackage, rfl⟩
    refine bind_eq_ok.2 ⟨s, hs, bind_eq_ok.2 ⟨entity, hentity, bind_eq_ok.2 ⟨key, hkey, ?_⟩⟩⟩
    refine bind_eq_ok.2 ⟨_, map_eq_ok.2 ⟨base, hbase, rfl⟩, ?_⟩
    refine bind_eq_ok.2 ⟨repositoryInterface e base entity key, ?_, ?_⟩
    · exact InterfaceDraft.build_eq_ok.2 ⟨hname, by simp, rfl⟩
    · refine UnitDraft.buildInterface_eq_ok.2 ⟨hpackage, s, ?_, rfl⟩
      exact (ImportSet.sound_empty.addAll hs).addAll_names

theorem repositoryUnit_eq_ok : repositoryUnit e p = .ok u ↔
    ∃ id more, e.idFields = id :: more ∧ buildRepository e p id = .ok u := by
  unfold repositoryUnit
  cases e.idFields with
  | nil => simp
  | cons id more => simp [mapError_eq_ok]

/-! ## The value object -/

theorem idCall_eq_some {call : Call} : idCall calls f = some call ↔
    f.type = "Long" ∧ call = calls.nextId ∨ f.type = "String" ∧ call = calls.nextIdAsString := by
  unfold idCall
  split
  · next hlong => simp [hlong, eq_comm]
  · next hlong =>
    split
    · next hstring => simp [hstring, eq_comm]
    · next hstring => simp [hlong, hstring]

/-- A method that answers a builder on which the calls were made. -/
def chainMethod (e : Entity) (name : String) (setters : List Setter) (builder : TypeRef) :
    MethodDecl :=
  ⟨name, [.publicAccess, .staticMember], [], [], builder,
    some [expression ("return " ++ chainText e.voName setters)]⟩

def chainMethods (e : Entity) (p : Policy) (calls : Calls) (ids : List EntityField)
    (builder : TypeRef) : List MethodDecl :=
  [chainMethod e "builderWithId" (idSetters calls ids) builder,
    chainMethod e "builderWithDefault"
      (idSetters calls ids ++ valueSetters e ++ partitionSetters e p calls) builder]

def valueObjectClass (e : Entity) (superClass : TypeRef) (fields : List FieldDecl)
    (methods : List MethodDecl) : ClassDecl :=
  ⟨e.voName, [.publicAccess],
    [bareMarker "Data", bareMarker "Builder", bareMarker "AllArgsConstructor",
      bareMarker "NoArgsConstructor", ⟨"EqualsAndHashCode", [⟨"callSuper", .verbatim "true"⟩]⟩],
    some superClass, [],
    (serialVersion :: fields).map .field ++ [].map .constructor ++ methods.map .method⟩

theorem builderMethod_eq_ok {voName name : String} {setters : List Setter} {m : MethodDecl}
    (hname : isSimpleName name.toList = true) : builderMethod voName name setters = .ok m ↔
      ∃ type, TypeRef.parse (voName ++ "Builder") = .ok type ∧
        bareStatement ("return " ++ chainText voName setters) ≠ "" ∧
        m = ⟨name, [.publicAccess, .staticMember], [], [], type,
          some [expression ("return " ++ chainText voName setters)]⟩ := by
  rw [builderMethod, bind_eq_ok]
  refine exists_congr fun type => and_congr_right fun _ => ?_
  rw [MethodDraft.build_eq_ok rfl]
  constructor
  · rintro ⟨hbare, -, -, -, rfl⟩
    exact ⟨hbare _ (by simp), rfl⟩
  · rintro ⟨hbare, rfl⟩
    exact ⟨by simpa using hbare, hname, by simp, by simp, rfl⟩

/-- What the builders of a value object add to it: nothing, or their imports and two methods. -/
def Chains (e : Entity) (p : Policy) (calls : Calls) (ids : List EntityField) (s s' : ImportSet)
    (methods : List MethodDecl) : Prop :=
  ∃ builder, TypeRef.parse (e.voName ++ "Builder") = .ok builder ∧
    s.addAll (builderImports e p calls ids) = .ok s' ∧
    bareStatement ("return " ++ chainText e.voName (idSetters calls ids)) ≠ "" ∧
    bareStatement ("return " ++ chainText e.voName
      (idSetters calls ids ++ valueSetters e ++ partitionSetters e p calls)) ≠ "" ∧
    methods = chainMethods e p calls ids builder

theorem voBuilders_eq_ok {methods : List MethodDecl} :
    voBuilders e p calls id more s = .ok (s', methods) ↔
      if hasBuilders (idSetters calls (id :: more)) id then Chains e p calls (id :: more) s s' methods
      else s' = s ∧ methods = [] := by
  have hwithId : isSimpleName "builderWithId".toList = true := by decide
  have hwithDefault : isSimpleName "builderWithDefault".toList = true := by decide
  simp only [voBuilders]
  split
  · constructor
    · intro h
      obtain ⟨s₁, hs₁, h⟩ := bind_eq_ok.1 h
      obtain ⟨withId, hid, h⟩ := bind_eq_ok.1 h
      obtain ⟨withDefault, hdefault, h⟩ := bind_eq_ok.1 h
      obtain ⟨builder, hbuilder, hbare, rfl⟩ := (builderMethod_eq_ok hwithId).1 hid
      obtain ⟨builder', hbuilder', hbare', rfl⟩ := (builderMethod_eq_ok hwithDefault).1 hdefault
      rw [hbuilder] at hbuilder'
      cases hbuilder'
      cases h
      exact ⟨builder, hbuilder, hs₁, hbare, hbare', rfl⟩
    · rintro ⟨builder, hbuilder, hs₁, hbare, hbare', rfl⟩
      refine bind_eq_ok.2 ⟨s', hs₁, ?_⟩
      refine bind_eq_ok.2 ⟨_, (builderMethod_eq_ok hwithId).2 ⟨builder, hbuilder, hbare, rfl⟩, ?_⟩
      exact bind_eq_ok.2
        ⟨_, (builderMethod_eq_ok hwithDefault).2 ⟨builder, hbuilder, hbare', rfl⟩, rfl⟩
  · constructor
    · intro h
      cases h
      exact ⟨rfl, rfl⟩
    · rintro ⟨rfl, rfl⟩
      rfl

theorem buildValueObject_eq_ok : buildValueObject e p calls id more = .ok u ↔
    ∃ superClass fields methods s s', TypeRef.parse e.voSuper.name = .ok superClass ∧
      ImportSet.addAll {} (e.voSuper.fullName :: voImports ++ e.fields.flatMap voFieldImports) =
        .ok s ∧
      List.Forall₂ (fun f g => voField f = .ok g) e.fields fields ∧
      voBuilders e p calls id more s = .ok (s', methods) ∧
      isSimpleName e.voName.toList = true ∧ isQualifiedName e.packages.vo.toList = true ∧
      u = unitOf e e.packages.vo s' (.classDecl (valueObjectClass e superClass fields methods)) := by
  have hsound {s s' : ImportSet} {methods : List MethodDecl} (hs : s.Sound)
      (h : voBuilders e p calls id more s = .ok (s', methods)) : s'.Sound := by
    rw [voBuilders_eq_ok] at h
    split at h
    · obtain ⟨-, -, hadd, -⟩ := h
      exact hs.addAll hadd
    · rw [h.1]
      exact hs
  constructor
  · intro h
    obtain ⟨s₁, hs₁, h⟩ := bind_eq_ok.1 h
    obtain ⟨⟨s, fields⟩, hfields, h⟩ := bind_eq_ok.1 h
    obtain ⟨superClass, hsuper, h⟩ := bind_eq_ok.1 h
    obtain ⟨⟨s', methods⟩, hmethods, h⟩ := bind_eq_ok.1 h
    obtain ⟨d, hd, h⟩ := bind_eq_ok.1 h
    obtain ⟨decl, hdecl, h⟩ := bind_eq_ok.1 h
    obtain ⟨hs, hforall⟩ := declareFields_eq_ok.1 hfields
    have hs' := hsound ((ImportSet.sound_empty.addAll hs₁).addAll hs) hmethods
    obtain ⟨hpackage, imports, himports, rfl⟩ := UnitDraft.addHeader_eq_ok.1 hd
    rw [hs'.addAll_names] at himports
    cases himports
    cases h
    obtain ⟨hname, -, rfl⟩ := ClassDraft.build_eq_ok.1 hdecl
    refine ⟨superClass, fields, methods, s, s', hsuper, ?_, hforall, hmethods, hname, hpackage, rfl⟩
    rw [ImportSet.addAll_append]
    exact bind_eq_ok.2 ⟨s₁, hs₁, hs⟩
  · rintro ⟨superClass, fields, methods, s, s', hsuper, hadd, hforall, hmethods, hname, hpackage, rfl⟩
    have hs' := hsound (ImportSet.sound_empty.addAll hadd) hmethods
    rw [ImportSet.addAll_append] at hadd
    obtain ⟨s₁, hs₁, hs⟩ := bind_eq_ok.1 hadd
    refine bind_eq_ok.2 ⟨s₁, hs₁, ?_⟩
    refine bind_eq_ok.2 ⟨(s, fields), declareFields_eq_ok.2 ⟨hs, hforall⟩, ?_⟩
    refine bind_eq_ok.2 ⟨superClass, hsuper, bind_eq_ok.2 ⟨(s', methods), hmethods, ?_⟩⟩
    refine bind_eq_ok.2 ⟨_, UnitDraft.addHeader_eq_ok.2 ⟨hpackage, s', hs'.addAll_names, rfl⟩, ?_⟩
    refine bind_eq_ok.2 ⟨valueObjectClass e superClass fields methods, ?_, rfl⟩
    exact ClassDraft.build_eq_ok.2 ⟨hname, by simp, rfl⟩

theorem valueObjectUnit_eq_ok : valueObjectUnit e p calls = .ok u ↔
    ∃ id more, e.idFields = id :: more ∧ buildValueObject e p calls id more = .ok u := by
  unfold valueObjectUnit
  cases e.idFields with
  | nil => simp
  | cons id more => simp [mapError_eq_ok]

/-! ## All units -/

/-- The units of an entity are there if each of them can be built. -/
theorem unitsUnder_eq_ok {us : TableUnits} :
    unitsUnder e p calls = .ok us ↔ e.idFields ≠ [] ∧ entityUnit e p = .ok us.entity ∧
      optionalKeyUnit e p calls = .ok us.key ∧ repositoryUnit e p = .ok us.repository ∧
      valueObjectUnit e p calls = .ok us.valueObject := by
  unfold unitsUnder
  cases hid : e.idFields with
  | nil =>
    constructor
    · intro h
      cases h
    · rintro ⟨hne, -⟩
      exact absurd rfl hne
  | cons id more =>
    constructor
    · intro h
      obtain ⟨entity, hentity, h⟩ := bind_eq_ok.1 h
      obtain ⟨key, hkey, h⟩ := bind_eq_ok.1 h
      obtain ⟨repository, hrepository, h⟩ := bind_eq_ok.1 h
      obtain ⟨valueObject, hvo, h⟩ := bind_eq_ok.1 h
      cases h
      exact ⟨by simp, hentity, hkey, hrepository, hvo⟩
    · rintro ⟨-, hentity, hkey, hrepository, hvo⟩
      refine bind_eq_ok.2 ⟨us.entity, hentity, bind_eq_ok.2 ⟨us.key, hkey, ?_⟩⟩
      exact bind_eq_ok.2 ⟨_, hrepository, bind_eq_ok.2 ⟨_, hvo, rfl⟩⟩

theorem built_of_mem {us : TableUnits} (h : unitsUnder e p calls = .ok us) (hu : u ∈ us.toList) :
    entityUnit e p = .ok u ∨ p.compositeKey = true ∧ keyUnit e calls = .ok u ∨
      repositoryUnit e p = .ok u ∨ valueObjectUnit e p calls = .ok u := by
  obtain ⟨-, hentity, hkey, hrepository, hvo⟩ := unitsUnder_eq_ok.1 h
  simp only [TableUnits.toList, List.cons_append, List.mem_cons, List.mem_append,
    Option.mem_toList, List.not_mem_nil, or_false] at hu
  rcases hu with rfl | hu | rfl | rfl
  · exact .inl hentity
  · rw [optionalKeyUnit_eq_ok, hu] at hkey
    split at hkey
    · next hcomposite =>
      obtain ⟨_, hsame, hkey⟩ := hkey
      cases hsame
      exact .inr (.inl ⟨hcomposite, hkey⟩)
    · cases hkey
  · exact .inr (.inr (.inl hrepository))
  · exact .inr (.inr (.inr hvo))

/-- The package and the name of each type. -/
theorem places_of_unitsUnder {us : TableUnits} (h : unitsUnder e p calls = .ok us) :
    us.toList.map (fun u => (u.package, u.typeName)) =
      (e.packages.entity, e.className) ::
        (if p.compositeKey then [(e.packages.entityKey, e.keyClassName)] else []) ++
        [(e.packages.repository, e.repositoryName), (e.packages.vo, e.voName)] := by
  obtain ⟨-, hentity, hkey, hrepository, hvo⟩ := unitsUnder_eq_ok.1 h
  obtain ⟨_, _, -, hentity⟩ := entityUnit_eq_ok.1 hentity
  obtain ⟨_, _, _, _, -, -, -, -, -, -, -, hentity⟩ := buildEntity_eq_ok.1 hentity
  obtain ⟨_, _, -, hrepository⟩ := repositoryUnit_eq_ok.1 hrepository
  obtain ⟨_, _, _, _, -, -, -, -, -, -, hrepository⟩ := buildRepository_eq_ok.1 hrepository
  obtain ⟨_, _, -, hvo⟩ := valueObjectUnit_eq_ok.1 hvo
  obtain ⟨_, _, _, _, _, -, -, -, -, -, -, hvo⟩ := buildValueObject_eq_ok.1 hvo
  have hkeys : us.key.toList.map (fun u => (u.package, u.typeName)) =
      if p.compositeKey then [(e.packages.entityKey, e.keyClassName)] else [] := by
    rw [optionalKeyUnit_eq_ok] at hkey
    by_cases hp : p.compositeKey = true
    · rw [if_pos hp] at hkey ⊢
      obtain ⟨u, hu, hkey⟩ := hkey
      obtain ⟨_, -, -, hkey⟩ := keyUnit_eq_ok.1 hkey
      obtain ⟨_, _, _, _, -, -, -, -, -, -, -, -, -, -, -, hkey⟩ := buildKey_eq_ok.1 hkey
      rw [hu, hkey]
      rfl
    · rw [if_neg hp] at hkey ⊢
      rw [hkey]
      rfl
  rw [TableUnits.toList, List.cons_append, List.map_cons, List.map_append, hkeys, hentity,
    hrepository, hvo]
  rfl

end JpaScaffold.Units
