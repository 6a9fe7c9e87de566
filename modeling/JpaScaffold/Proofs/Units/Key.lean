import JpaScaffold.Proofs.Units.Fields

/-!
# The key of a table

The entity, its repository and its key class are built apart from each other, and agree on the type
of the key: it is the argument of `Persistable`, what `getId` returns, and the second argument of the
repository. A key class takes the identifying fields in the order in which `getId` passes them, and
its fields are fields of the entity. A type that names another one lives in its package or imports
it.
-/
namespace JpaScaffold.Units

open Java (ClassDecl CompilationUnit FieldDecl ImportSet InterfaceDecl MethodDecl Parameter TypeDecl
  TypeRef bareStatement isQualifiedName isSimpleName)

variable {e : Entity} {p : Policy} {calls : Calls} {c : Config} {t : Table} {us : TableUnits}

/-- The methods of a class that have this name. -/
def methodsNamed (d : ClassDecl) (name : String) : List MethodDecl :=
  d.methods.filter fun m => m.name == name

/-- A unit can name the type of another one by its simple name: they share a package, or the type is
imported. -/
def Sees (u v : CompilationUnit) : Prop :=
  u.package = v.package ∨ v.package ++ "." ++ v.typeName ∈ u.imports

/-- The entity and its repository have this key, which `getId` returns as the value of the
expression. -/
structure Keyed (entity : ClassDecl) (repository : InterfaceDecl) (key : TypeRef)
    (expression : String) : Prop where
  persistable : entity.interfaces = [.mk "Persistable" [key] 0]
  getId : ∃ m, methodsNamed entity "getId" = [m] ∧ m.returnType = key ∧ m.parameters = [] ∧
    m.body = some [.expression ("return " ++ expression)]
  repository : ∃ base dims, repository.supers = [.mk base [simpleType entity.name, key] dims]

/-- The key class of an entity is made of the fields with these names. -/
structure KeyClassOf (entity key : ClassDecl) (parameters : List Parameter) : Prop where
  idClass : (entity.markers.filter fun m => m.name == "IdClass") =
    [classMarker "IdClass" (simpleType key.name)]
  constructor : ∃ k, key.constructors = [k] ∧ k.parameters = parameters
  maker : ∃ m, methodsNamed key "of" = [m] ∧ m.parameters = parameters ∧
    m.returnType = simpleType key.name
  arguments : ∀ q ∈ parameters, ∃ g ∈ entity.fields, g.name = q.name ∧ g.type = q.type
  fields : ∃ fields, key.fields = serialVersion :: fields ∧
    ∀ f ∈ fields, ∃ g ∈ entity.fields, g.name = f.name ∧ g.type = f.type

/-- A statement that returns what ends in a word or a parenthesis is written as it stands. -/
theorem expression_return {text : String} {x : Char} (hx : text.toList.getLast? = some x)
    (hb : Text.isBlank x = false) (hs : x ≠ ';') :
    expression ("return " ++ text) = .expression ("return " ++ text) := by
  have hlast : ("return " ++ text).toList.getLast? = some x := by
    rw [String.toList_append, List.getLast?_append, hx]
    rfl
  have hhead : ("return " ++ text).toList.head? = some 'r' := by simp
  have hlast' : ("return " ++ text).toList.getLast? ≠ some ';' := by
    rw [hlast]
    exact fun h => hs (Option.some.inj h)
  have htrimmed : Text.Trimmed ("return " ++ text).toList := by
    refine ⟨fun d hd => ?_, fun d hd => ?_⟩
    · rw [hhead] at hd
      cases hd
      decide
    · rw [hlast] at hd
      cases hd
      exact hb
  rw [expression, Java.bareStatement_eq_self htrimmed hlast']

theorem expression_idExpression {keyType : String} {id : EntityField} {more : List EntityField}
    (h : isSimpleName id.name.toList = true) :
    expression ("return " ++ idExpression p keyType id more) =
      .expression ("return " ++ idExpression p keyType id more) := by
  unfold idExpression
  split
  · refine expression_return (x := ')') ?_ (by decide) (by decide)
    rw [String.toList_append, List.getLast?_append]
    rfl
  · have hne := Java.ne_nil_of_isSimpleName h
    have hlast := List.getLast?_eq_getLast_of_ne_nil hne
    have hword := Java.isWordChar_of_isSimpleName h _ (List.getLast_mem hne)
    refine expression_return hlast (Java.isBlank_eq_false_of_isWordChar hword) ?_
    intro hs
    rw [hs] at hword
    revert hword
    decide

theorem exists_declared {l : List EntityField} {fields : List FieldDecl}
    (h : List.Forall₂ (fun f g => entityField p f = .ok g) l fields) {f : EntityField} (hf : f ∈ l) :
    ∃ g ∈ fields, g.name = f.name ∧ TypeRef.parse f.type = .ok g.type ∧
      isSimpleName f.name.toList = true ∧
      markersNamed g "Id" = if f.isId then [bareMarker "Id"] else [] := by
  induction h with
  | nil => cases hf
  | @cons a g _ _ hg _ ih =>
    rcases List.mem_cons.1 hf with rfl | hf
    · obtain ⟨type, htype, -, hname, rfl⟩ := privateField_eq_ok.1 hg
      exact ⟨_, List.mem_cons_self, rfl, htype, hname, filter_entityMarkers_id ..⟩
    · obtain ⟨g', hg', h'⟩ := ih hf
      exact ⟨g', List.mem_cons_of_mem _ hg', h'⟩

theorem mem_keyFields {ids : List EntityField} {fields : List FieldDecl}
    (h : List.Forall₂ (fun f g => keyField f = .ok g) ids fields) :
    ∀ g ∈ fields, ∃ f ∈ ids, g.name = f.name ∧ TypeRef.parse f.type = .ok g.type := by
  induction h with
  | nil => exact List.forall_mem_nil _
  | @cons f g _ _ hg _ ih =>
    obtain ⟨type, htype, -, -, rfl⟩ := privateField_eq_ok.1 hg
    refine List.forall_mem_cons.2 ⟨⟨f, by simp, rfl, htype⟩, fun g' hg' => ?_⟩
    obtain ⟨f', hf', h'⟩ := ih g' hg'
    exact ⟨f', List.mem_cons_of_mem _ hf', h'⟩

theorem partitionField_ofTable {name : String} (h : (Entity.ofTable c t).partitionName = some name) :
    ∃ f ∈ (Entity.ofTable c t).fields, (Entity.ofTable c t).partitionField = some f ∧
      f.name = name := by
  obtain ⟨f, hf, rfl⟩ := Option.map_eq_some_iff.1 h
  have hmem : f ∈ (Entity.ofTable c t).fields := List.mem_of_find?_eq_some hf
  obtain ⟨g, hg⟩ : ∃ g, (Entity.ofTable c t).field? f.name = some g :=
    Option.isSome_iff_exists.1 (List.find?_isSome.2 ⟨f, hmem, beq_self_eq_true _⟩)
  obtain ⟨hmem', hname⟩ := mem_fields_of_field? hg
  exact ⟨g, hmem', by rw [Entity.partitionField, h]; exact hg, hname⟩

theorem methodsNamed_getId {id : EntityField} {more : List EntityField} {superClass key : TypeRef}
    {fields : List FieldDecl} :
    methodsNamed (entityClass e p id more superClass key fields) "getId" =
      [getIdMethod e p id more key] := by
  rw [methodsNamed, entityClass, ClassDecl.methods_of_members]
  rfl

theorem methodsNamed_of {ids : List EntityField} {partition : String} {key type : TypeRef}
    {fields : List FieldDecl} :
    methodsNamed (keyClass e calls ids partition key type fields) "of" = [keyMaker e ids key fields] := by
  rw [methodsNamed, keyClass, ClassDecl.methods_of_members]
  rfl

theorem idClass_of_entityClass {id : EntityField} {more : List EntityField} {superClass key : TypeRef}
    {fields : List FieldDecl} :
    ((entityClass e p id more superClass key fields).markers.filter fun m => m.name == "IdClass") =
      if p.compositeKey then [classMarker "IdClass" key] else [] := by
  unfold entityClass
  split <;> simp [bareMarker, classMarker]

theorem sees_of_mem {package full : String} {names : List String} {s : ImportSet} {decl decl' : TypeDecl}
    {s' : ImportSet} (hs : ImportSet.addAll {} names = .ok s)
    (hp : isQualifiedName full.toList = true) (ht : isSimpleName decl'.name.toList = true)
    (h : full ≠ package → full ++ "." ++ decl'.name ∈ names) :
    Sees (unitOf e package s decl) (unitOf e full s' decl') := by
  by_cases hsame : full = package
  · exact .inl hsame.symm
  · refine .inr ((ImportSet.mem_addAll hs).2 (.inr ⟨_, h hsame, ?_⟩))
    exact (Java.trim_fullName hp ht).symm

theorem exists_declared_of_type {fields : List FieldDecl} {f : EntityField} {name : String}
    {type : TypeRef} (h : List.Forall₂ (fun f g => entityField p f = .ok g) e.fields fields)
    (hf : f ∈ e.fields) (hname : name = f.name) (htype : TypeRef.parse f.type = .ok type)
    {id : EntityField} {more : List EntityField} {superClass key : TypeRef} :
    ∃ g ∈ (entityClass e p id more superClass key fields).fields, g.name = name ∧ g.type = type := by
  obtain ⟨g, hg, hgname, hgtype, -⟩ := exists_declared h hf
  rw [htype] at hgtype
  refine ⟨g, ?_, by rw [hgname, hname], (Except.ok.inj hgtype).symm⟩
  have hentity : (entityClass e p id more superClass key fields).fields =
      serialVersion :: fields ++ [isNewField] := ClassDecl.fields_of_members ..
  rw [hentity]
  exact List.mem_append_left _ (List.mem_cons_of_mem _ hg)

/-- The key class is built of the fields of the entity. -/
theorem keyClassOf {id : EntityField} {more : List EntityField} {superClass key partitionType : TypeRef}
    {fields keyFields : List FieldDecl} {partition : String} (hc : p.compositeKey = true)
    (hkey : key = simpleType e.keyClassName)
    (hfields : List.Forall₂ (fun f g => entityField p f = .ok g) e.fields fields)
    (hkeyFields : List.Forall₂ (fun f g => keyField f = .ok g) e.idFields keyFields)
    (hpartition : ∃ f ∈ e.fields, f.name = partition ∧ TypeRef.parse f.type = .ok partitionType) :
    KeyClassOf (entityClass e p id more superClass key fields)
      (keyClass e calls e.idFields partition key partitionType keyFields)
      (parametersOf keyFields) := by
  have hidentifying : ∀ g ∈ keyFields, ∃ g' ∈ (entityClass e p id more superClass key fields).fields,
      g'.name = g.name ∧ g'.type = g.type := by
    intro g hg
    obtain ⟨f, hf, hname, htype⟩ := mem_keyFields hkeyFields g hg
    exact exists_declared_of_type hfields (mem_fields_of_mem_idFields hf).1 hname htype
  refine ⟨?_, ⟨_, ClassDecl.constructors_of_members .., rfl⟩, ⟨_, methodsNamed_of, rfl, hkey⟩, ?_,
    keyFields ++ [partitionDecl partition partitionType], ?_, ?_⟩
  · rw [idClass_of_entityClass, if_pos hc, hkey]
    rfl
  · intro q hq
    obtain ⟨g, hg, rfl⟩ := List.mem_map.1 hq
    exact hidentifying g hg
  · rw [keyClass, ClassDecl.fields_of_members, List.cons_append]
  · intro g hg
    rcases List.mem_append.1 hg with hg | hg
    · exact hidentifying g hg
    · rw [List.mem_singleton.1 hg]
      obtain ⟨f, hf, hname, htype⟩ := hpartition
      exact exists_declared_of_type hfields hf hname.symm htype

theorem hasCompositeKey_ofTable :
    (Entity.ofTable c t).hasCompositeKey = true ↔ c.partitionKey ∈ t.primaryKeys := by
  have hcomposite : (Entity.ofTable c t).hasCompositeKey = (c.partitioning t == .compositeKey) := rfl
  rw [hcomposite, beq_iff_eq]
  unfold Config.partitioning
  split
  · next h => simpa using h
  · next h =>
    have hnot : c.partitionKey ∉ t.primaryKeys := by simpa using h
    split <;> simp [hnot]

theorem compositeKey_of : (Policy.of e).compositeKey = e.hasCompositeKey := by
  unfold Policy.of
  split
  · next h => rw [h]; rfl
  · next h => rw [eq_false_of_ne_true h]; rfl

/-- The statement that creates a table of stocks, each of a product in a partition. -/
def stockTable : Sql.CreateTable where
  qualifier := []
  name := ⟨"product_stock", none⟩
  columns :=
    [⟨⟨"product_id_", none⟩, .builtin "INT8" none "", []⟩,
      ⟨⟨"site_", none⟩, .builtin "VARCHAR" (some "20") "", []⟩,
      ⟨⟨"dealer_partition_", none⟩, .builtin "VARCHAR" (some "20") "", []⟩,
      ⟨⟨"amount_", none⟩, .builtin "NUMERIC" (some "16,2") "", [.null]⟩]
  constraints := [.primaryKey [⟨"site_", none⟩, ⟨"product_id_", none⟩, ⟨"dealer_partition_", none⟩]]

/-- The field that comes first in the key of a stock. -/
def stockSite : EntityField where
  column := ⟨"site_", "varchar", some 20, none, none, false, true, false, false⟩
  name := "site"
  type := "String"
  imports := []
  initialValue := none
  initialValueImport := none

/-- The field that comes second in the key of a stock. -/
def stockProduct : EntityField where
  column := ⟨"product_id_", "int8", none, none, none, false, true, false, false⟩
  name := "productId"
  type := "Long"
  imports := []
  initialValue := none
  initialValueImport := none

theorem plain_stocks : Plain
    (Entity.ofTable Config.default (Table.ofCreateTable Config.default true stockTable))
    (Calls.ofConfig Config.default) stockSite [stockProduct] := by
  decide +kernel

end JpaScaffold.Units
