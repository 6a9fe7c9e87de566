import JpaScaffold.Proofs.Java.Name
import JpaScaffold.Proofs.Units.Built

/-!
# Units that can be built

An entity whose class and fields have simple names, whose types can be read, whose packages and
imports are dotted names and whose initial values are not empty has all its units. The statements
that the builders write are never empty.
-/
namespace JpaScaffold.Units

open Java (FieldDecl ImportSet MethodDecl TypeRef bareStatement isQualifiedName isSimpleName
  isWordChar)

variable {e : Entity} {p : Policy} {calls : Calls} {id : EntityField} {more : List EntityField}

/-- Every name can be imported. -/
def Importable (names : List String) : Prop :=
  ∀ name ∈ names, isQualifiedName (Text.trim name.toList) = true

/-- The field has a simple name and a simple type, and no initial value that is empty. -/
@[mk_iff] structure EntityField.Plain (f : EntityField) : Prop where
  name : isSimpleName f.name.toList = true
  type : isSimpleName f.type.toList = true
  value : (initialValue f).map (Text.mapChars Text.trim) ≠ some ""

/-- The field has a simple name, a type that can be read, and no initial value that is empty. -/
structure EntityField.Declarable (f : EntityField) : Prop where
  name : isSimpleName f.name.toList = true
  type : ∃ type, TypeRef.parse f.type = .ok type
  value : (initialValue f).map (Text.mapChars Text.trim) ≠ some ""

def importedNames (e : Entity) (calls : Calls) (id : EntityField) : List String :=
  entityHeaderImports e (.of e) (e.keyTypeOf id) ++ e.fields.flatMap (entityFieldImports (.of e)) ++
    keyImports calls ++ repositoryImports e (.of e) id ++ e.voSuper.fullName :: voImports ++
    calls.nextId.importName.toList ++ calls.nextIdAsString.importName.toList

/-- The names that the units of an entity are made of are simple, and its packages and imports are
dotted names. -/
@[mk_iff] structure Plain (e : Entity) (calls : Calls) (id : EntityField) (more : List EntityField) :
    Prop where
  ids : e.idFields = id :: more
  className : isSimpleName e.className.toList = true
  supers : ∀ s ∈ [e.superClass, e.repositorySuper, e.voSuper], isSimpleName s.name.toList = true
  packages : ∀ s ∈ [e.packages.entity, e.packages.entityKey, e.packages.repository, e.packages.vo],
    isQualifiedName s.toList = true
  fields : ∀ f ∈ e.fields, EntityField.Plain f
  partition : e.hasCompositeKey = true → e.partitionField.isSome = true
  imports : Importable (importedNames e calls id)

/-- The names of an entity are simple, its types can be read, and its packages and imports are dotted
names. -/
structure Buildable (e : Entity) (calls : Calls) (id : EntityField) (more : List EntityField) :
    Prop where
  ids : e.idFields = id :: more
  className : isSimpleName e.className.toList = true
  supers : ∀ s ∈ [e.superClass, e.repositorySuper, e.voSuper],
    ∃ type, TypeRef.parse s.name = .ok type
  packages : ∀ s ∈ [e.packages.entity, e.packages.entityKey, e.packages.repository, e.packages.vo],
    isQualifiedName s.toList = true
  fields : ∀ f ∈ e.fields, EntityField.Declarable f
  partition : e.hasCompositeKey = true → e.partitionField.isSome = true
  imports : Importable (importedNames e calls id)

instance (names : List String) : Decidable (Importable names) :=
  inferInstanceAs (Decidable (∀ name ∈ names, _))

instance (f : EntityField) : Decidable (EntityField.Plain f) :=
  decidable_of_iff' _ (EntityField.plain_iff f)

instance : Decidable (Plain e calls id more) := decidable_of_iff' _ (plain_iff e calls id more)

theorem return_ne_empty (text : String) : bareStatement ("return " ++ text) ≠ "" := by
  have htext : ("return " ++ text).toList = 'r' :: ("eturn ".toList ++ text.toList) := by simp
  exact Java.bareStatement_ne_empty htext (by decide) (by decide)

theorem this_ne_empty (text : String) : bareStatement ("this." ++ text) ≠ "" := by
  have htext : ("this." ++ text).toList = 't' :: ("his.".toList ++ text.toList) := by simp
  exact Java.bareStatement_ne_empty htext (by decide) (by decide)

theorem isSimpleName_append_word {name suffix : String} (h : isSimpleName name.toList = true)
    (hs : suffix.toList.all isWordChar = true) : isSimpleName (name ++ suffix).toList = true := by
  rw [String.toList_append]
  exact Java.isSimpleName_append h (List.all_eq_true.1 hs)

theorem mem_fields_of_field? {f : EntityField} {name : String} (h : e.field? name = some f) :
    f ∈ e.fields ∧ f.name = name :=
  ⟨List.mem_of_find?_eq_some h, by simpa using List.find?_some h⟩

theorem mem_fields_of_mem_idFields {f : EntityField} (h : f ∈ e.idFields) :
    f ∈ e.fields ∧ f.isId = true := by
  obtain ⟨hmem, hid⟩ := List.mem_filter.1 h
  obtain ⟨name, -, hname⟩ := List.mem_filterMap.1 hmem
  exact ⟨(mem_fields_of_field? hname).1, hid⟩

theorem exists_addAll_of_subset {names names' : List String} (h : Importable names')
    (hs : names ⊆ names') (s : ImportSet) : ∃ s', s.addAll names = .ok s' :=
  ImportSet.exists_addAll s fun name hn => h name (hs hn)

theorem exists_forall₂ {α β : Type} {r : α → β → Prop} {l : List α} (h : ∀ a ∈ l, ∃ b, r a b) :
    ∃ l', List.Forall₂ r l l' := by
  induction l with
  | nil => exact ⟨[], .nil⟩
  | cons a l ih =>
    obtain ⟨⟨b, hb⟩, hl⟩ := List.forall_mem_cons.1 h
    obtain ⟨l', hl'⟩ := ih hl
    exact ⟨b :: l', .cons hb hl'⟩

theorem EntityField.Plain.declarable {f : EntityField} (h : EntityField.Plain f) :
    EntityField.Declarable f :=
  ⟨h.name, ⟨_, TypeRef.parse_simpleName h.type⟩, h.value⟩

theorem Plain.buildable (h : Plain e calls id more) : Buildable e calls id more where
  ids := h.ids
  className := h.className
  supers s hs := ⟨_, TypeRef.parse_simpleName (h.supers s hs)⟩
  packages := h.packages
  fields f hf := (h.fields f hf).declarable
  partition := h.partition
  imports := h.imports

theorem exists_privateField {f : EntityField} (h : EntityField.Declarable f) (ms : List Java.Marker)
    {value : Option String} (hv : value.map (Text.mapChars Text.trim) ≠ some "") :
    ∃ g, privateField f ms value = .ok g := by
  obtain ⟨type, htype⟩ := h.type
  exact ⟨_, privateField_eq_ok.2 ⟨type, htype, hv, h.name, rfl⟩⟩

theorem isSimpleName_of_keyFields {ids : List EntityField} {fields : List FieldDecl}
    (h : List.Forall₂ (fun f g => keyField f = .ok g) ids fields) :
    ∀ g ∈ fields, isSimpleName g.name.toList = true := by
  induction h with
  | nil => exact List.forall_mem_nil _
  | cons hg _ ih =>
    obtain ⟨type, -, -, hname, rfl⟩ := privateField_eq_ok.1 hg
    exact List.forall_mem_cons.2 ⟨hname, ih⟩

theorem mem_importedNames {name : String} :
    name ∈ importedNames e calls id ↔
      name ∈ entityHeaderImports e (.of e) (e.keyTypeOf id) ∨
      name ∈ e.fields.flatMap (entityFieldImports (.of e)) ∨ name ∈ keyImports calls ∨
      name ∈ repositoryImports e (.of e) id ∨ name ∈ e.voSuper.fullName :: voImports ∨
      name ∈ calls.nextId.importName.toList ∨ name ∈ calls.nextIdAsString.importName.toList := by
  simp only [importedNames, List.mem_append, or_assoc]

namespace Buildable

variable (h : Buildable e calls id more)

include h

theorem mem_fields {f : EntityField} (hf : f ∈ id :: more) : f ∈ e.fields := by
  rw [← h.ids] at hf
  exact (mem_fields_of_mem_idFields hf).1

theorem keyClassName : isSimpleName e.keyClassName.toList = true :=
  isSimpleName_append_word h.className (by decide)

theorem voName : isSimpleName e.voName.toList = true :=
  isSimpleName_append_word h.className (by decide)

theorem keyType : ∃ key, TypeRef.parse (e.keyTypeOf id) = .ok key := by
  unfold Entity.keyTypeOf
  split
  · exact ⟨_, TypeRef.parse_simpleName h.keyClassName⟩
  · exact (h.fields id (h.mem_fields (by simp))).type

theorem exists_entity : ∃ u, entityUnit e (.of e) = .ok u := by
  have hsubset : entityHeaderImports e (.of e) (e.keyTypeOf id) ++
      e.fields.flatMap (entityFieldImports (.of e)) ⊆ importedNames e calls id := by
    intro name hn
    rw [List.mem_append] at hn
    exact mem_importedNames.2 (by tauto)
  obtain ⟨s, hs⟩ := exists_addAll_of_subset h.imports hsubset {}
  obtain ⟨fields, hfields⟩ := exists_forall₂ (r := fun f g => entityField (.of e) f = .ok g)
    fun f hf => exists_privateField (h.fields f hf) _ (h.fields f hf).value
  obtain ⟨superClass, hsuper⟩ := h.supers e.superClass (by simp)
  obtain ⟨key, hkey⟩ := h.keyType
  have hbuild : ∃ u, buildEntity e (.of e) id more = .ok u :=
    ⟨_, buildEntity_eq_ok.2 ⟨superClass, key, fields, s, hsuper, hkey, hs, hfields,
      return_ne_empty _, h.className, h.packages _ (by simp), rfl⟩⟩
  obtain ⟨u, hu⟩ := hbuild
  exact ⟨u, entityUnit_eq_ok.2 ⟨id, more, h.ids, hu⟩⟩

theorem exists_keyUnit (hc : e.hasCompositeKey = true) : ∃ u, keyUnit e calls = .ok u := by
  obtain ⟨f, hf⟩ := Option.isSome_iff_exists.1 (h.partition hc)
  obtain ⟨name, hname, hfield?⟩ := Option.bind_eq_some_iff.1 hf
  obtain ⟨hpartition, rfl⟩ := mem_fields_of_field? hfield?
  have hfield {g : EntityField} (hg : g ∈ e.fields) {name : String} (hn : name ∈ g.imports) :
      name ∈ importedNames e calls id :=
    mem_importedNames.2 (.inr (.inl (List.mem_flatMap.2 ⟨g, hg, by simp [entityFieldImports, hn]⟩)))
  have hsubset : keyImports calls ++ (id :: more).flatMap EntityField.imports ++
      partitionImports e ⊆ importedNames e calls id := by
    intro name hn
    rcases List.mem_append.1 hn with hn | hn
    · rcases List.mem_append.1 hn with hn | hn
      · exact mem_importedNames.2 (.inr (.inr (.inl hn)))
      · obtain ⟨g, hg, hn⟩ := List.mem_flatMap.1 hn
        exact hfield (h.mem_fields hg) hn
    · rw [partitionImports, hf] at hn
      exact hfield hpartition hn
  obtain ⟨s, hs⟩ := exists_addAll_of_subset h.imports hsubset {}
  obtain ⟨fields, hfields⟩ := exists_forall₂ (r := fun f g => keyField f = .ok g)
    (l := id :: more) fun f hf => exists_privateField (h.fields f (h.mem_fields hf)) _ (by simp)
  obtain ⟨type, htype⟩ := (h.fields f hpartition).type
  have hpartitionType : TypeRef.parse ((e.partitionField.map EntityField.type).getD "String") =
      .ok type := by
    rw [hf]
    exact htype
  have hthis (name value : String) : bareStatement ("this." ++ name ++ " = " ++ value) ≠ "" := by
    rw [String.append_assoc, String.append_assoc]
    exact this_ne_empty _
  have hnew (ids : List EntityField) : bareStatement (newKeyText e ids) ≠ "" := by
    have hreturn : "return new " = "return " ++ "new " := by decide
    rw [newKeyText, hreturn]
    simp only [String.append_assoc]
    exact return_ne_empty _
  have hbuild : ∃ u, buildKey e calls e.idFields f.name = .ok u := by
    rw [h.ids]
    exact ⟨_, buildKey_eq_ok.2 ⟨_, _, fields, s, TypeRef.parse_simpleName h.keyClassName,
      hpartitionType, hs, hfields, (h.fields f hpartition).name, h.keyClassName,
      isSimpleName_of_keyFields hfields, fun g _ => hthis _ _, hthis _ _, hnew _,
      h.packages _ (by simp), rfl⟩⟩
  obtain ⟨u, hu⟩ := hbuild
  exact ⟨u, keyUnit_eq_ok.2 ⟨f.name, by simp [h.ids], hname, hu⟩⟩

theorem exists_optionalKey : ∃ k, optionalKeyUnit e (.of e) calls = .ok k := by
  by_cases hc : e.hasCompositeKey = true
  · obtain ⟨u, hu⟩ := h.exists_keyUnit hc
    refine ⟨some u, optionalKeyUnit_eq_ok.2 ?_⟩
    rw [Policy.of, if_pos hc]
    exact ⟨u, rfl, hu⟩
  · refine ⟨none, optionalKeyUnit_eq_ok.2 ?_⟩
    rw [Policy.of, if_neg hc]
    rfl

theorem exists_repository : ∃ u, repositoryUnit e (.of e) = .ok u := by
  have hsubset : repositoryImports e (.of e) id ⊆ importedNames e calls id :=
    fun name hn => mem_importedNames.2 (by tauto)
  obtain ⟨s, hs⟩ := exists_addAll_of_subset h.imports hsubset {}
  have hname : isSimpleName e.repositoryName.toList = true :=
    isSimpleName_append_word h.className (by decide)
  obtain ⟨base, hbase⟩ := h.supers e.repositorySuper (by simp)
  obtain ⟨key, hkey⟩ := h.keyType
  have hbuild : ∃ u, buildRepository e (.of e) id = .ok u :=
    ⟨_, buildRepository_eq_ok.2 ⟨base, _, key, s, hbase, TypeRef.parse_simpleName h.className, hkey,
      hs, hname, h.packages _ (by simp), rfl⟩⟩
  obtain ⟨u, hu⟩ := hbuild
  exact ⟨u, repositoryUnit_eq_ok.2 ⟨id, more, h.ids, hu⟩⟩

theorem exists_voBuilders (s : ImportSet) :
    ∃ s' methods, voBuilders e (.of e) calls id more s = .ok (s', methods) := by
  by_cases hb : hasBuilders (idSetters calls (id :: more)) id = true
  · have hsubset : builderImports e (.of e) calls (id :: more) ⊆ importedNames e calls id := by
      intro name hn
      rcases List.mem_append.1 hn with hn | hn
      · obtain ⟨call, hcall, hn⟩ := List.mem_flatMap.1 hn
        obtain ⟨f, -, hcall⟩ := List.mem_filterMap.1 hcall
        rcases idCall_eq_some.1 hcall with ⟨-, rfl⟩ | ⟨-, rfl⟩
        · exact mem_importedNames.2 (by tauto)
        · exact mem_importedNames.2 (by tauto)
      · obtain ⟨_, -, hn⟩ := List.mem_flatMap.1 hn
        exact mem_importedNames.2 (.inr (.inr (.inl (List.mem_append_right _ hn))))
    obtain ⟨s', hs'⟩ := exists_addAll_of_subset h.imports hsubset s
    have hbuilder : isSimpleName (e.voName ++ "Builder").toList = true :=
      isSimpleName_append_word h.voName (by decide)
    have hchains : ∃ methods, Chains e (.of e) calls (id :: more) s s' methods :=
      ⟨_, _, TypeRef.parse_simpleName hbuilder, hs', return_ne_empty _, return_ne_empty _, rfl⟩
    obtain ⟨methods, hmethods⟩ := hchains
    exact ⟨s', methods, voBuilders_eq_ok.2 (by rwa [if_pos hb])⟩
  · refine ⟨s, [], voBuilders_eq_ok.2 ?_⟩
    rw [if_neg hb]
    exact ⟨rfl, rfl⟩

theorem exists_valueObject : ∃ u, valueObjectUnit e (.of e) calls = .ok u := by
  have hsubset : e.voSuper.fullName :: voImports ++ e.fields.flatMap voFieldImports ⊆
      importedNames e calls id := by
    intro name hn
    rcases List.mem_append.1 hn with hn | hn
    · exact mem_importedNames.2 (by tauto)
    · obtain ⟨f, hf, hn⟩ := List.mem_flatMap.1 hn
      refine mem_importedNames.2 (.inr (.inl (List.mem_flatMap.2 ⟨f, hf, ?_⟩)))
      rcases List.mem_append.1 hn with hn | hn
      · split at hn
        · cases hn
        · simp [entityFieldImports, hn]
      · simp [entityFieldImports, hn]
  obtain ⟨s, hs⟩ := exists_addAll_of_subset h.imports hsubset {}
  obtain ⟨fields, hfields⟩ := exists_forall₂ (r := fun f g => voField f = .ok g)
    fun f hf => exists_privateField (h.fields f hf) _ (h.fields f hf).value
  obtain ⟨s', methods, hmethods⟩ := h.exists_voBuilders s
  obtain ⟨superClass, hsuper⟩ := h.supers e.voSuper (by simp)
  have hbuild : ∃ u, buildValueObject e (.of e) calls id more = .ok u :=
    ⟨_, buildValueObject_eq_ok.2 ⟨superClass, fields, methods, s, s', hsuper, hs, hfields, hmethods,
      h.voName, h.packages _ (by simp), rfl⟩⟩
  obtain ⟨u, hu⟩ := hbuild
  exact ⟨u, valueObjectUnit_eq_ok.2 ⟨id, more, h.ids, hu⟩⟩

theorem exists_units : ∃ us, units e calls = .ok us := by
  obtain ⟨entity, hentity⟩ := h.exists_entity
  obtain ⟨key, hkey⟩ := h.exists_optionalKey
  obtain ⟨repository, hrepository⟩ := h.exists_repository
  obtain ⟨valueObject, hvalueObject⟩ := h.exists_valueObject
  exact ⟨⟨entity, key, repository, valueObject⟩,
    unitsUnder_eq_ok.2 ⟨by simp [h.ids], hentity, hkey, hrepository, hvalueObject⟩⟩

end Buildable

theorem Plain.exists_units (h : Plain e calls id more) : ∃ us, units e calls = .ok us :=
  h.buildable.exists_units

end JpaScaffold.Units
