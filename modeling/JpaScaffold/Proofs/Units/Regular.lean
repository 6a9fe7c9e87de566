import JpaScaffold.Proofs.Units.Key
import JpaScaffold.Proofs.Units.Values

/-!
# Generated units are regular

The units that are built for a table are made of names, of literals, and of the free texts of the
configuration. If these are values, each unit is regular: every layout accepts it, and changes the
order of its imports only.
-/
namespace JpaScaffold.Units

open Java (AreParameters ClassDecl CompilationUnit ConstructorDecl FieldDecl ImportSet IsDoc Marker
  MethodDecl TypeDecl TypeRef isQualifiedName isSimpleName isWordChar)
open Java.Layout (Loose Phrase)

variable {e : Entity} {p : Policy} {calls : Calls} {c : Config} {t : Table} {us : TableUnits}
  {f id : EntityField} {ids more l : List EntityField} {s : ImportSet} {fields : List FieldDecl}
  {name : String} {type key : TypeRef} {u : CompilationUnit}

/-- The author can be named in a doc comment, and what goes into the units as it stands is a value.
-/
structure PlainTexts (e : Entity) (calls : Calls) : Prop where
  doc : IsDoc (authorDoc e)
  values : ∀ f ∈ e.fields, ∀ v, f.initialValue = some v →
    IsValue v.toList ∧ Text.mapChars Text.trim v = v
  partition : IsValue calls.partition.expression.toList
  nextId : IsValue calls.nextId.expression.toList
  nextIdAsString : IsValue calls.nextIdAsString.expression.toList

/-! ## Types and annotations -/

theorem named_simpleType (h : isQualifiedName name.toList = true) : (simpleType name).Named :=
  .mk h (List.forall_mem_nil _)

theorem named_generic {args : List TypeRef} {dims : Nat} (h : isQualifiedName name.toList = true)
    (hargs : ∀ a ∈ args, a.Named) : (TypeRef.mk name args dims).Named :=
  .mk h hargs

theorem isQualifiedName_of_named (h : type.Named) : isQualifiedName type.name.toList = true := by
  cases h with
  | mk h _ => exact h

/-- The attribute has a name, and its value is regular. -/
structure RegularAttribute (a : Java.Attribute) : Prop where
  key : isSimpleName a.key.toList = true
  value : a.value.Regular

theorem regular_attribute {value : Java.AttributeValue} (h : isSimpleName name.toList = true)
    (hvalue : value.Regular) : RegularAttribute ⟨name, value⟩ := ⟨h, hvalue⟩

theorem regular_marker {attributes : List Java.Attribute} (h : isSimpleName name.toList = true)
    (hne : name.toList ≠ "interface".toList) (hattributes : ∀ a ∈ attributes, RegularAttribute a) :
    Marker.Regular ⟨name, attributes⟩ where
  name := h
  declares := hne
  keys a ha := (hattributes a ha).key
  values a ha := (hattributes a ha).value

theorem regular_bareMarker (h : isSimpleName name.toList = true)
    (hne : name.toList ≠ "interface".toList) : (bareMarker name).Regular :=
  regular_marker h hne (List.forall_mem_nil _)

theorem regular_classMarker (h : isSimpleName name.toList = true)
    (hne : name.toList ≠ "interface".toList) (htype : type.Named) :
    (classMarker name type).Regular :=
  regular_marker h hne
    (List.forall_mem_singleton.2 (regular_attribute (by decide) (.classOf htype)))

theorem regular_number (n : Nat) : (Java.AttributeValue.verbatim (toString n)).Regular := by
  have hdigits : (toString n).toList = Nat.toDigits 10 n := Nat.toList_repr
  refine .verbatim (by rw [hdigits]; exact Nat.toDigits_ne_nil) fun d hd => ?_
  rw [hdigits] at hd
  exact Java.isWordChar_of_isDigit (Nat.isDigit_of_mem_toDigits (by decide) (by decide) hd)

theorem regular_numberAttribute (h : isSimpleName name.toList = true) (value : Option Nat) :
    ∀ a ∈ numberAttribute name value, RegularAttribute a := by
  cases value with
  | none => exact List.forall_mem_nil _
  | some n => exact List.forall_mem_singleton.2 (regular_attribute h (regular_number n))

theorem regular_truth (b : Bool) :
    (Java.AttributeValue.verbatim (if b then "true" else "false")).Regular := by
  have hword (value : String) (hne : value.toList ≠ []) (h : value.toList.all isWordChar = true) :
      (Java.AttributeValue.verbatim value).Regular := .verbatim hne (List.all_eq_true.1 h)
  cases b with
  | true => exact hword "true" (by decide) (by decide)
  | false => exact hword "false" (by decide) (by decide)

theorem regular_columnMarker (column : Column) : (columnMarker column).Regular := by
  refine regular_marker (by decide) (by decide) fun a ha => ?_
  simp only [List.mem_append, List.mem_singleton] at ha
  rcases ha with (((rfl | ha) | ha) | ha) | rfl
  · exact regular_attribute (by decide) (.string _)
  · exact regular_numberAttribute (by decide) _ a ha
  · exact regular_numberAttribute (by decide) _ a ha
  · exact regular_numberAttribute (by decide) _ a ha
  · exact regular_attribute (by decide) (regular_truth _)

theorem regular_entityMarkers (p : Policy) (f : EntityField) :
    ∀ m ∈ entityMarkers p f, m.Regular := by
  intro m hm
  unfold entityMarkers at hm
  simp only [List.mem_append, List.mem_singleton, List.mem_ite_nil_right] at hm
  rcases hm with ((⟨-, rfl⟩ | ⟨-, rfl⟩) | ⟨-, rfl⟩) | rfl
  · exact regular_bareMarker (by decide) (by decide)
  · exact regular_bareMarker (by decide) (by decide)
  · exact regular_classMarker (by decide) (by decide)
      (named_simpleType (by decide))
  · exact regular_columnMarker f.column

/-! ## Fields -/

theorem regular_serialVersion : serialVersion.Regular where
  name := by decide
  modifiers := by decide
  markers := List.forall_mem_nil _
  type := named_simpleType (by decide)
  value v hv := by
    cases hv
    exact Java.Layout.phrase_word (by decide) (List.all_eq_true.1 (by decide))

theorem regular_isNewField : isNewField.Regular where
  name := by decide
  modifiers := by decide
  markers := List.forall_mem_singleton.2 (regular_bareMarker (by decide) (by decide))
  type := named_simpleType (by decide)
  value v hv := by
    cases hv
    exact Java.Layout.phrase_word (by decide) (List.all_eq_true.1 (by decide))

theorem phrase_initialValue (h : PlainTexts e calls) (hf : f ∈ e.fields) :
    ∀ v, (initialValue f).map (Text.mapChars Text.trim) = some v → Phrase Loose True v.toList := by
  intro v hv
  obtain ⟨v', hv', rfl⟩ := Option.map_eq_some_iff.1 hv
  unfold initialValue at hv'
  split at hv'
  · cases hv'
  · obtain ⟨hvalue, htrim⟩ := h.values f hf v' hv'
    rw [htrim]
    exact hvalue.phrase

theorem regular_fieldDecl {ms : List Marker} {value : Option String}
    (hname : isSimpleName f.name.toList = true) (htype : type.Named) (hms : ∀ m ∈ ms, m.Regular)
    (hvalue : ∀ v, value.map (Text.mapChars Text.trim) = some v → Phrase Loose True v.toList) :
    (fieldDecl f type ms value).Regular where
  name := hname
  modifiers := List.cons_ne_nil _ _
  markers := hms
  type := htype
  value := hvalue

theorem regular_declared {markers : EntityField → List Marker} {value : EntityField → Option String}
    (h : List.Forall₂ (fun f g => privateField f (markers f) (value f) = .ok g) l fields)
    (hmarkers : ∀ f ∈ l, ∀ m ∈ markers f, m.Regular)
    (hvalue : ∀ f ∈ l, ∀ v, (value f).map (Text.mapChars Text.trim) = some v →
      Phrase Loose True v.toList) : ∀ g ∈ fields, g.Regular := by
  induction h with
  | nil => exact List.forall_mem_nil _
  | cons hg _ ih =>
    obtain ⟨hms, hmarkers⟩ := List.forall_mem_cons.1 hmarkers
    obtain ⟨hv, hvalue⟩ := List.forall_mem_cons.1 hvalue
    obtain ⟨type, htype, -, hname, rfl⟩ := privateField_eq_ok.1 hg
    exact List.forall_mem_cons.2
      ⟨regular_fieldDecl hname (Java.TypeRef.named_of_parse htype) hms hv, ih hmarkers hvalue⟩

theorem simpleNames_of_declared {markers : EntityField → List Marker}
    {value : EntityField → Option String}
    (h : List.Forall₂ (fun f g => privateField f (markers f) (value f) = .ok g) l fields) :
    ∀ f ∈ l, isSimpleName f.name.toList = true := by
  induction h with
  | nil => exact List.forall_mem_nil _
  | cons hg _ ih =>
    obtain ⟨-, -, -, hname, -⟩ := privateField_eq_ok.1 hg
    exact List.forall_mem_cons.2 ⟨hname, ih⟩

theorem areParameters_of_regular (h : ∀ g ∈ fields, g.Regular) :
    AreParameters (parametersOf fields) := by
  intro q hq
  obtain ⟨g, hg, rfl⟩ := List.mem_map.1 hq
  exact ⟨(h g hg).name, (h g hg).type⟩

/-! ## Values that are returned -/

theorem phrase_names (h : ∀ f ∈ l, isSimpleName f.name.toList = true) :
    Phrase Loose True (", ".intercalate (l.map EntityField.name)).toList := by
  refine Java.phrase_commaList fun part hpart => ?_
  obtain ⟨f, hf, rfl⟩ := List.mem_map.1 hpart
  exact Java.Layout.phrase_name (h f hf)

theorem isValue_idExpression {keyType : String}
    (hkey : p.compositeKey = true → isSimpleName keyType.toList = true)
    (h : ∀ f ∈ id :: more, isSimpleName f.name.toList = true) :
    IsValue (idExpression p keyType id more).toList := by
  unfold idExpression
  split
  · next hcomposite =>
    have hof : isSimpleName "of".toList = true := by decide
    have hmember := phrase_member (Java.Layout.phrase_name (A := True) (hkey hcomposite)) hof
    have hcall := isValue_call hmember (phrase_names h)
    have htext : (keyType ++ ".of(" ++ ", ".intercalate ((id :: more).map EntityField.name) ++
        ")").toList = keyType.toList ++ '.' :: "of".toList ++
        '(' :: ((", ".intercalate ((id :: more).map EntityField.name)).toList ++ [')']) := by
      simp only [String.toList_append, List.append_assoc]
      rfl
    rw [htext]
    exact hcall
  · exact isValue_name (h id List.mem_cons_self)

/-- A statement that makes a key of the identifying fields. -/
theorem regular_newKey (hkey : isSimpleName e.keyClassName.toList = true)
    (h : ∀ f ∈ ids, isSimpleName f.name.toList = true) :
    (expression (newKeyText e ids)).Regular := by
  have hnew : Phrase Loose True "new".toList :=
    Java.Layout.phrase_word (by decide) (List.all_eq_true.1 (by decide))
  have hcall := isValue_call
    (hnew.append_cons (Java.Layout.phrase_name hkey).blank (by decide)) (phrase_names h)
  have htext : newKeyText e ids = "return " ++ ("new " ++ e.keyClassName ++ "(" ++
      ", ".intercalate (ids.map EntityField.name) ++ ")") := by
    have hword : "return new " = "return " ++ "new " := rfl
    rw [newKeyText, hword]
    simp only [String.append_assoc]
  have hvalue : ("new " ++ e.keyClassName ++ "(" ++ ", ".intercalate (ids.map EntityField.name) ++
      ")").toList = "new".toList ++ ' ' :: e.keyClassName.toList ++
      '(' :: ((", ".intercalate (ids.map EntityField.name)).toList ++ [')']) := by
    simp only [String.toList_append, List.append_assoc]
    rfl
  rw [htext]
  apply regular_return
  rw [hvalue]
  exact hcall

theorem isValue_calls {cs : List Char} (hcs : IsValue cs) {setters : List Setter}
    (h : ∀ s ∈ setters, isSimpleName s.field.toList = true ∧ IsValue s.value.toList) :
    IsValue (cs ++ setters.flatMap fun s =>
      '.' :: (s.field.toList ++ '(' :: (s.value.toList ++ [')']))) := by
  induction setters generalizing cs with
  | nil => rwa [List.flatMap_nil, List.append_nil]
  | cons s rest ih =>
    obtain ⟨⟨hfield, hvalue⟩, hrest⟩ := List.forall_mem_cons.1 h
    have hcall := isValue_call (phrase_member hcs.phrase hfield) hvalue.phrase
    have hall := ih hcall hrest
    rw [List.flatMap_cons]
    simpa using hall

theorem isValue_chainText {voName : String} (hvo : isSimpleName voName.toList = true)
    {setters : List Setter}
    (h : ∀ s ∈ setters, isSimpleName s.field.toList = true ∧ IsValue s.value.toList) :
    IsValue (chainText voName setters).toList := by
  have hmethod : isSimpleName "builder".toList = true := by decide
  have hbuilder := isValue_call (phrase_member (Java.Layout.phrase_name (A := True) hvo) hmethod)
    Java.Layout.phrase_nil
  have hcalls := isValue_calls hbuilder h
  have htext : (chainText voName setters).toList = voName.toList ++ '.' :: "builder".toList ++
      '(' :: ([] ++ [')']) ++ setters.flatMap fun s =>
        '.' :: (s.field.toList ++ '(' :: (s.value.toList ++ [')'])) := by
    rw [chainText, String.toList_append, String.toList_append, String.toList_join, List.flatMap_map]
    simp [String.toList_append]
  rw [htext]
  exact hcalls

/-! ## The units -/

/-- A unit whose names are names, with a regular type and the author in its comment. -/
theorem regular_unitOf {package : String} {decl : TypeDecl} (hdoc : IsDoc (authorDoc e))
    (hpackage : isQualifiedName package.toList = true) (hs : s.Sound) (hdecl : decl.Regular) :
    (unitOf e package s decl).Regular where
  package := hpackage
  imports := hs.qualified
  nodup := hs.nodup
  doc := ⟨authorDoc e, rfl, hdoc⟩
  decl := hdecl
  comments := rfl

theorem regular_method {m : MethodDecl} {b : Java.Statement} (hname : isSimpleName m.name.toList = true)
    (hmodifiers : m.modifiers ≠ []) (hmarkers : ∀ m' ∈ m.markers, m'.Regular)
    (hparameters : AreParameters m.parameters) (htype : m.returnType.Named)
    (hbody : m.body = some [b]) (hb : b.Regular) : m.Regular where
  name := hname
  modifiers := hmodifiers
  markers := hmarkers
  parameters := hparameters
  type := htype
  body body' h := by
    rw [hbody] at h
    cases h
    exact List.forall_mem_singleton.2 hb

theorem regular_isNewMethod : isNewMethod.Regular := by
  have hreturn : (expression ("return " ++ "isNew")).Regular :=
    regular_return (isValue_name (by decide))
  exact regular_method (by decide) (by decide)
    (List.forall_mem_singleton.2 (regular_bareMarker (by decide) (by decide)))
    (List.forall_mem_nil _) (named_simpleType (by decide)) rfl hreturn

theorem regular_markMethod : markMethod.Regular := by
  have hfalse : IsValue "false".toList := isValue_name (by decide)
  have hassign : (expression ("this." ++ "isNew" ++ " = " ++ "false")).Regular :=
    regular_assignment (by decide) hfalse
  refine regular_method (by decide) (by decide) ?_ (List.forall_mem_nil _)
    (named_simpleType (by decide)) rfl hassign
  exact List.forall_mem_cons.2 ⟨regular_bareMarker (by decide) (by decide),
    List.forall_mem_singleton.2 (regular_bareMarker (by decide) (by decide))⟩

theorem regular_members {fields : List FieldDecl} {constructors : List ConstructorDecl}
    {methods : List MethodDecl} (hfields : ∀ g ∈ fields, g.Regular)
    (hconstructors : ∀ k ∈ constructors, k.Regular) (hmethods : ∀ m ∈ methods, m.Regular) :
    ∀ m ∈ fields.map Java.Member.field ++ constructors.map .constructor ++ methods.map .method,
      m.Regular := by
  intro m hm
  simp only [List.mem_append, List.mem_map] at hm
  rcases hm with (⟨g, hg, rfl⟩ | ⟨k, hk, rfl⟩) | ⟨m', hm', rfl⟩
  · exact .field (hfields g hg)
  · exact .constructor (hconstructors k hk)
  · exact .method (hmethods m' hm')

theorem regular_entityClass {superClass : TypeRef} (hname : isSimpleName e.className.toList = true)
    (hsuper : superClass.Named) (hkey : key.Named) (hfields : ∀ g ∈ fields, g.Regular)
    (hvalue : IsValue (idExpression p (e.keyTypeOf id) id more).toList) :
    (entityClass e p id more superClass key fields).Regular where
  name := hname
  modifiers := List.cons_ne_nil _ _
  markers m hm := by
    simp only [entityClass, List.mem_append, List.mem_cons, List.not_mem_nil, or_false,
      List.mem_ite_nil_right] at hm
    rcases hm with ((rfl | rfl | rfl) | ⟨-, rfl⟩) | rfl
    · exact regular_bareMarker (by decide) (by decide)
    · exact regular_bareMarker (by decide) (by decide)
    · exact regular_bareMarker (by decide) (by decide)
    · exact regular_classMarker (by decide) (by decide) hkey
    · exact regular_marker (by decide) (by decide)
        (List.forall_mem_singleton.2 (regular_attribute (by decide) (.string _)))
  superClass := List.forall_mem_singleton.2 hsuper
  interfaces := List.forall_mem_singleton.2
    (named_generic (by decide) (List.forall_mem_singleton.2 hkey))
  members := by
    refine regular_members ?_ (List.forall_mem_nil _) ?_
    · intro g hg
      simp only [List.cons_append, List.mem_cons, List.mem_append, List.not_mem_nil, or_false] at hg
      rcases hg with rfl | hg | rfl
      · exact regular_serialVersion
      · exact hfields g hg
      · exact regular_isNewField
    · have hgetId : isSimpleName "getId".toList = true := by decide
      have hmarkers : ∀ m ∈ [bareMarker "Override"], m.Regular :=
        List.forall_mem_singleton.2 (regular_bareMarker (by decide) (by decide))
      refine List.forall_mem_cons.2 ⟨?_, List.forall_mem_cons.2 ⟨regular_isNewMethod,
        List.forall_mem_singleton.2 regular_markMethod⟩⟩
      exact regular_method hgetId (List.cons_ne_nil _ _) hmarkers (List.forall_mem_nil _) hkey rfl
        (regular_return hvalue)

theorem regular_keyConstructor {partition : String} (hname : isSimpleName e.keyClassName.toList = true)
    (hpartition : isSimpleName partition.toList = true)
    (hids : ∀ f ∈ ids, isSimpleName f.name.toList = true) (hfields : ∀ g ∈ fields, g.Regular)
    (hvalue : IsValue calls.partition.expression.toList) :
    (keyConstructor e calls ids partition fields).Regular where
  name := hname
  modifiers := List.cons_ne_nil _ _
  parameters := areParameters_of_regular hfields
  body b hb := by
    obtain ⟨text, htext, rfl⟩ := List.mem_map.1 hb
    rcases List.mem_append.1 htext with htext | htext
    · obtain ⟨f, hf, rfl⟩ := List.mem_map.1 htext
      exact regular_assignment (hids f hf) (isValue_name (hids f hf))
    · rw [List.mem_singleton.1 htext]
      exact regular_assignment hpartition hvalue

theorem regular_keyClass {partition : String} {partitionType : TypeRef}
    (hname : isSimpleName e.keyClassName.toList = true) (hkey : key.Named)
    (hpartition : isSimpleName partition.toList = true) (htype : partitionType.Named)
    (hids : ∀ f ∈ ids, isSimpleName f.name.toList = true) (hfields : ∀ g ∈ fields, g.Regular)
    (hvalue : IsValue calls.partition.expression.toList) :
    (keyClass e calls ids partition key partitionType fields).Regular where
  name := hname
  modifiers := List.cons_ne_nil _ _
  markers := List.forall_mem_cons.2 ⟨regular_bareMarker (by decide) (by decide),
    List.forall_mem_singleton.2 (regular_bareMarker (by decide) (by decide))⟩
  superClass := List.forall_mem_nil _
  interfaces := List.forall_mem_singleton.2 (named_simpleType (by decide))
  members := by
    have hpartitionDecl : (partitionDecl partition partitionType).Regular :=
      ⟨hpartition, List.cons_ne_nil _ _, List.forall_mem_nil _, htype, fun v hv => by cases hv⟩
    refine regular_members ?_ ?_ ?_
    · intro g hg
      simp only [List.cons_append, List.mem_cons, List.mem_append, List.not_mem_nil, or_false] at hg
      rcases hg with rfl | hg | rfl
      · exact regular_serialVersion
      · exact hfields g hg
      · exact hpartitionDecl
    · exact List.forall_mem_singleton.2
        (regular_keyConstructor hname hpartition hids hfields hvalue)
    · have hof : isSimpleName "of".toList = true := by decide
      exact List.forall_mem_singleton.2 (regular_method hof (List.cons_ne_nil _ _)
        (List.forall_mem_nil _) (areParameters_of_regular hfields) hkey rfl
        (regular_newKey hname hids))

theorem regular_repositoryInterface {base entity : TypeRef}
    (hname : isSimpleName e.repositoryName.toList = true) (hbase : base.Named)
    (hentity : entity.Named) (hkey : key.Named) :
    (repositoryInterface e base entity key).Regular where
  name := hname
  modifiers := List.cons_ne_nil _ _
  markers := List.forall_mem_singleton.2 (regular_bareMarker (by decide) (by decide))
  supers := List.forall_mem_singleton.2 (named_generic (isQualifiedName_of_named hbase)
    (List.forall_mem_cons.2 ⟨hentity, List.forall_mem_singleton.2 hkey⟩))
  members := List.forall_mem_nil _

theorem regular_valueObjectClass {superClass : TypeRef} {methods : List MethodDecl}
    (hname : isSimpleName e.voName.toList = true) (hsuper : superClass.Named)
    (hfields : ∀ g ∈ fields, g.Regular) (hmethods : ∀ m ∈ methods, m.Regular) :
    (valueObjectClass e superClass fields methods).Regular where
  name := hname
  modifiers := List.cons_ne_nil _ _
  markers m hm := by
    simp only [valueObjectClass, List.mem_cons, List.not_mem_nil, or_false] at hm
    rcases hm with rfl | rfl | rfl | rfl | rfl
    · exact regular_bareMarker (by decide) (by decide)
    · exact regular_bareMarker (by decide) (by decide)
    · exact regular_bareMarker (by decide) (by decide)
    · exact regular_bareMarker (by decide) (by decide)
    · exact regular_marker (by decide) (by decide)
        (List.forall_mem_singleton.2 (regular_attribute (by decide) (regular_truth true)))
  superClass := List.forall_mem_singleton.2 hsuper
  interfaces := List.forall_mem_nil _
  members := regular_members (List.forall_mem_cons.2 ⟨regular_serialVersion, hfields⟩)
    (List.forall_mem_nil _) hmethods

/-- What the builders of a value object set. -/
def IsSetter (s : Setter) : Prop := isSimpleName s.field.toList = true ∧ IsValue s.value.toList

theorem isSetter_id (h : PlainTexts e calls) (hids : ∀ f ∈ ids, isSimpleName f.name.toList = true) :
    ∀ s ∈ idSetters calls ids, IsSetter s := by
  intro s hs
  obtain ⟨f, hf, hsetter⟩ := List.mem_filterMap.1 hs
  obtain ⟨call, hcall, rfl⟩ := Option.map_eq_some_iff.1 hsetter
  rcases idCall_eq_some.1 hcall with ⟨-, rfl⟩ | ⟨-, rfl⟩
  · exact ⟨hids f hf, h.nextId⟩
  · exact ⟨hids f hf, h.nextIdAsString⟩

theorem isSetter_value (h : PlainTexts e calls)
    (hfields : ∀ f ∈ e.fields, isSimpleName f.name.toList = true) :
    ∀ s ∈ valueSetters e, IsSetter s := by
  intro s hs
  obtain ⟨f, hf, hsetter⟩ := List.mem_filterMap.1 hs
  obtain ⟨v, hv, rfl⟩ := Option.map_eq_some_iff.1 hsetter
  have hmem := (List.mem_filter.1 hf).1
  exact ⟨hfields f hmem, (h.values f hmem v hv).1⟩

theorem isSetter_partition (h : PlainTexts e calls)
    (hfields : ∀ f ∈ e.fields, isSimpleName f.name.toList = true) :
    ∀ s ∈ partitionSetters e p calls, IsSetter s := by
  intro s hs
  obtain ⟨f, hf, rfl⟩ := List.mem_map.1 hs
  rw [Option.mem_toList] at hf
  unfold populatedPartition at hf
  split at hf
  · obtain ⟨name, -, hfield⟩ := Option.bind_eq_some_iff.1 hf
    exact ⟨hfields f (mem_fields_of_field? hfield).1, h.partition⟩
  · cases hf

theorem regular_chainMethod {setters : List Setter} {builder : TypeRef}
    (hname : isSimpleName name.toList = true) (hvo : isSimpleName e.voName.toList = true)
    (hbuilder : builder.Named) (h : ∀ s ∈ setters, IsSetter s) :
    (chainMethod e name setters builder).Regular :=
  regular_method hname (List.cons_ne_nil _ _) (List.forall_mem_nil _) (List.forall_mem_nil _) hbuilder
    rfl (regular_return (isValue_chainText hvo h))

theorem regular_chainMethods {builder : TypeRef} (h : PlainTexts e calls)
    (hvo : isSimpleName e.voName.toList = true) (hbuilder : builder.Named)
    (hids : ∀ f ∈ ids, isSimpleName f.name.toList = true)
    (hfields : ∀ f ∈ e.fields, isSimpleName f.name.toList = true) :
    ∀ m ∈ chainMethods e p calls ids builder, m.Regular := by
  have hid := isSetter_id h hids
  have hall : ∀ s ∈ idSetters calls ids ++ valueSetters e ++ partitionSetters e p calls,
      IsSetter s := by
    intro s hs
    simp only [List.mem_append] at hs
    rcases hs with (hs | hs) | hs
    · exact hid s hs
    · exact isSetter_value h hfields s hs
    · exact isSetter_partition h hfields s hs
  exact List.forall_mem_cons.2 ⟨regular_chainMethod (by decide) hvo hbuilder hid,
    List.forall_mem_singleton.2 (regular_chainMethod (by decide) hvo hbuilder hall)⟩

/-! ## All units of a table -/

theorem regular_entityUnit (h : PlainTexts e calls) (hunit : entityUnit e (.of e) = .ok u) :
    u.Regular ∧ ∀ f ∈ e.fields, isSimpleName f.name.toList = true := by
  obtain ⟨id, more, hids, hunit⟩ := entityUnit_eq_ok.1 hunit
  obtain ⟨superClass, key, fields, s, hsuper, hkey, hadd, hfields, -, hname, hpackage, rfl⟩ :=
    buildEntity_eq_ok.1 hunit
  have hnames := simpleNames_of_declared hfields
  have hregular := regular_declared hfields (fun f _ => regular_entityMarkers (.of e) f)
    fun f hf => phrase_initialValue h hf
  have hidNames : ∀ f ∈ id :: more, isSimpleName f.name.toList = true :=
    fun f hf => hnames f (mem_fields_of_mem_idFields (hids ▸ hf)).1
  have hkeyName : (Policy.of e).compositeKey = true → isSimpleName (e.keyTypeOf id).toList = true := by
    intro hcomposite
    rw [compositeKey_of] at hcomposite
    rw [Entity.keyTypeOf, if_pos hcomposite]
    exact isSimpleName_append_word hname (by decide)
  have hclass := regular_entityClass hname (TypeRef.named_of_parse hsuper)
    (TypeRef.named_of_parse hkey) hregular (isValue_idExpression hkeyName hidNames)
  exact ⟨regular_unitOf h.doc hpackage (ImportSet.sound_empty.addAll hadd) (.classDecl hclass), hnames⟩

theorem regular_keyUnit (h : PlainTexts e calls)
    (hnames : ∀ f ∈ e.fields, isSimpleName f.name.toList = true) (hunit : keyUnit e calls = .ok u) :
    u.Regular := by
  obtain ⟨partition, -, -, hunit⟩ := keyUnit_eq_ok.1 hunit
  obtain ⟨key, partitionType, fields, s, hkey, htype, hadd, hfields, hpartition, hname, -, -, -, -,
    hpackage, rfl⟩ := buildKey_eq_ok.1 hunit
  have hregular := regular_declared hfields (fun _ _ => List.forall_mem_nil _)
    fun _ _ _ hv => by cases hv
  have hids : ∀ f ∈ e.idFields, isSimpleName f.name.toList = true :=
    fun f hf => hnames f (mem_fields_of_mem_idFields hf).1
  have hclass := regular_keyClass hname (TypeRef.named_of_parse hkey) hpartition
    (TypeRef.named_of_parse htype) hids hregular h.partition
  exact regular_unitOf h.doc hpackage (ImportSet.sound_empty.addAll hadd) (.classDecl hclass)

theorem regular_repositoryUnit (h : PlainTexts e calls) (hunit : repositoryUnit e p = .ok u) :
    u.Regular := by
  obtain ⟨id, more, -, hunit⟩ := repositoryUnit_eq_ok.1 hunit
  obtain ⟨base, entity, key, s, hbase, hentity, hkey, hadd, hname, hpackage, rfl⟩ :=
    buildRepository_eq_ok.1 hunit
  have hinterface := regular_repositoryInterface hname (TypeRef.named_of_parse hbase)
    (TypeRef.named_of_parse hentity) (TypeRef.named_of_parse hkey)
  exact regular_unitOf h.doc hpackage (ImportSet.sound_empty.addAll hadd) (.interfaceDecl hinterface)

theorem regular_valueObjectUnit (h : PlainTexts e calls)
    (hnames : ∀ f ∈ e.fields, isSimpleName f.name.toList = true)
    (hunit : valueObjectUnit e p calls = .ok u) : u.Regular := by
  obtain ⟨id, more, hids, hunit⟩ := valueObjectUnit_eq_ok.1 hunit
  obtain ⟨superClass, fields, methods, s, s', hsuper, hadd, hfields, hbuilders, hname, hpackage,
    rfl⟩ := buildValueObject_eq_ok.1 hunit
  have hregular := regular_declared hfields (fun _ _ => List.forall_mem_nil _)
    fun f hf => phrase_initialValue h hf
  have hidNames : ∀ f ∈ id :: more, isSimpleName f.name.toList = true :=
    fun f hf => hnames f (mem_fields_of_mem_idFields (hids ▸ hf)).1
  have hsound := ImportSet.sound_empty.addAll hadd
  have hmethods : s'.Sound ∧ ∀ m ∈ methods, m.Regular := by
    rw [voBuilders_eq_ok] at hbuilders
    split at hbuilders
    · obtain ⟨builder, hbuilder, hmore, -, -, rfl⟩ := hbuilders
      exact ⟨hsound.addAll hmore,
        regular_chainMethods h hname (TypeRef.named_of_parse hbuilder) hidNames hnames⟩
    · obtain ⟨rfl, rfl⟩ := hbuilders
      exact ⟨hsound, List.forall_mem_nil _⟩
  have hclass := regular_valueObjectClass hname (TypeRef.named_of_parse hsuper) hregular hmethods.2
  exact regular_unitOf h.doc hpackage hmethods.1 (.classDecl hclass)

theorem regular_of_units (h : PlainTexts e calls) (hunits : units e calls = .ok us) :
    ∀ u ∈ us.toList, u.Regular := by
  obtain ⟨-, hnames⟩ := regular_entityUnit h (unitsUnder_eq_ok.1 hunits).2.1
  intro u hu
  rcases built_of_mem hunits hu with hentity | ⟨-, hkey⟩ | hrepository | hvo
  · exact (regular_entityUnit h hentity).1
  · exact regular_keyUnit h hnames hkey
  · exact regular_repositoryUnit h hrepository
  · exact regular_valueObjectUnit h hnames hvo

/-- The free texts of a configuration are plain if each is one of the default configuration. -/
theorem plainTexts_of_freeTexts (h : ∀ text ∈ c.freeTexts, text ∈ Config.default.freeTexts) :
    PlainTexts (.ofTable c t) (.ofConfig c) := by
  have hmem (text : String) (htext : text ∈ c.freeTexts) := h text htext
  refine ⟨isDoc_of_mem_freeTexts (hmem _ (by simp [Config.freeTexts, Entity.ofTable])),
    fun f hf v hv => ?_, isValue_of_mem_freeTexts (hmem _ (by simp [Config.freeTexts, Calls.ofConfig])),
    isValue_of_mem_freeTexts (hmem _ (by simp [Config.freeTexts, Calls.ofConfig])),
    isValue_of_mem_freeTexts (hmem _ (by simp [Config.freeTexts, Calls.ofConfig]))⟩
  obtain ⟨column, -, rfl⟩ := List.mem_map.1 hf
  have hentry : (column.sqlType, v) ∈ c.defaultValueMap.entries := NameMap.mem_of_get? hv
  have hfree : v ∈ c.freeTexts := List.mem_append_right _ (List.mem_map_of_mem hentry)
  exact ⟨isValue_of_mem_freeTexts (hmem v hfree), trim_of_mem_freeTexts (hmem v hfree)⟩

end JpaScaffold.Units
