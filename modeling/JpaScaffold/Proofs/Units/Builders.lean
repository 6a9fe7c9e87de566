import JpaScaffold.Proofs.Units.Key

/-!
# The builders of a value object

A value object has both of its builders or neither of them: it has them where the first field that
identifies a row has a type that can be generated. The chain of the one sets the identifying fields
of such a type, and the chain of the other sets, behind them, the fields that have an initial value
and the partition. The imports of these values come from three places, and the value object has all
of them.
-/
namespace JpaScaffold.Units

open Java (ClassDecl CompilationUnit ImportSet MethodDecl TypeRef)

variable {e : Entity} {p : Policy} {calls : Calls} {f g id : EntityField} {more : List EntityField}
  {u : CompilationUnit}

/-- The types of the fields whose values can be generated. -/
def generatedTypes : List String := ["Long", "String"]

/-- The call that generates a value for the field. -/
inductive Generates (calls : Calls) (f : EntityField) : Call → Prop
  | number (h : f.type = "Long") : Generates calls f calls.nextId
  | text (h : f.type = "String") : Generates calls f calls.nextIdAsString

/-- The setter gives the field this value, and the unit has the import that the value needs. -/
structure Sets (u : CompilationUnit) (f : EntityField) (value : String) (importName : Option String)
    (s : Setter) : Prop where
  setter : s = ⟨f.name, value⟩
  imported : ∀ name ∈ importName, Text.mapChars Text.trim name ∈ u.imports

/-- The setters of the builders: of the identifying fields that can be generated in the order of the
key, of the fields outside the key that have an initial value in the order of the columns, and of the
partition. -/
structure Fills (e : Entity) (p : Policy) (calls : Calls) (u : CompilationUnit)
    (ids values partition : List Setter) : Prop where
  ids : List.Forall₂
    (fun f s => ∃ call, Generates calls f call ∧ Sets u f call.expression call.importName s)
    (e.idFields.filter fun f => f.type ∈ generatedTypes) ids
  values : List.Forall₂
    (fun f s => ∃ value, f.initialValue = some value ∧ Sets u f value f.initialValueImport s)
    (e.fields.filter fun f => f.initialValue.isSome && !f.column.isPrimaryKey) values
  partition : List.Forall₂
    (fun f s => Sets u f calls.partition.expression calls.partition.importName s)
    (if p.voPopulatesPartition then e.partitionField.toList else []) partition

/-- The method answers a builder of the value object on which the fields were set in this order. -/
structure IsBuilder (e : Entity) (name : String) (setters : List Setter) (m : MethodDecl) :
    Prop where
  name : m.name = name
  modifiers : m.modifiers = [.publicAccess, .staticMember]
  parameters : m.parameters = []
  returnType : TypeRef.parse (e.voName ++ "Builder") = .ok m.returnType
  body : m.body = some [.expression ("return " ++ chainText e.voName setters)]

/-! ## Whether there are builders -/

theorem isSome_idCall (calls : Calls) (f : EntityField) :
    (idCall calls f).isSome = true ↔ f.type ∈ generatedTypes := by
  unfold idCall
  split
  · next h => simp [generatedTypes, h]
  · next hlong =>
    split
    · next h => simp [generatedTypes, h]
    · next hstring => simp [generatedTypes, hlong, hstring]

theorem generates_of_idCall {call : Call} (h : idCall calls f = some call) :
    Generates calls f call := by
  rcases idCall_eq_some.1 h with ⟨htype, rfl⟩ | ⟨htype, rfl⟩
  · exact .number htype
  · exact .text htype

/-- The fields that identify a row are the ones that their names stand for, so that no two of them
share a name. -/
theorem eq_of_mem_idFields (hf : f ∈ e.idFields) (hg : g ∈ e.idFields) (h : f.name = g.name) :
    f = g := by
  have hfound {f : EntityField} (hf : f ∈ e.idFields) : e.field? f.name = some f := by
    obtain ⟨name, -, hname⟩ := List.mem_filterMap.1 (List.mem_filter.1 hf).1
    rwa [(mem_fields_of_field? hname).2]
  have hsame := hfound hf
  rw [h, hfound hg] at hsame
  exact (Option.some.inj hsame).symm

/-- The first setter is compared with the first identifying field by its name, which tells whether it
was made for that field. -/
theorem hasBuilders_iff (calls : Calls) (h : e.idFields = id :: more) :
    hasBuilders (idSetters calls (id :: more)) id = true ↔ id.type ∈ generatedTypes := by
  constructor
  · intro hb
    cases hs : idSetters calls (id :: more) with
    | nil =>
      rw [hs] at hb
      cases hb
    | cons first rest =>
      have hfirst : first ∈ idSetters calls (id :: more) := by simp [hs]
      obtain ⟨g, hg, hsetter⟩ := List.mem_filterMap.1 hfirst
      obtain ⟨call, hcall, rfl⟩ := Option.map_eq_some_iff.1 hsetter
      rw [hs] at hb
      have hname : g.name = id.name := beq_iff_eq.1 hb
      rw [← h] at hg
      have hid : id ∈ e.idFields := by simp [h]
      rw [← eq_of_mem_idFields hg hid hname, ← isSome_idCall calls, hcall]
      rfl
  · intro htype
    obtain ⟨call, hcall⟩ := Option.isSome_iff_exists.1 ((isSome_idCall calls id).2 htype)
    simp [idSetters, hasBuilders, hcall]

/-! ## The text of a chain -/

theorem getLast?_flatMap {α : Type} {x : Char} {chars : α → List Char} {l : List Char}
    (hl : l.getLast? = some x) (hchars : ∀ a, (chars a).getLast? = some x) (as : List α) :
    (l ++ as.flatMap chars).getLast? = some x := by
  induction as generalizing l with
  | nil => rwa [List.flatMap_nil, List.append_nil]
  | cons a as ih =>
    rw [List.flatMap_cons, ← List.append_assoc]
    refine ih ?_
    rw [List.getLast?_append, hchars a]
    rfl

/-- A chain ends in the parenthesis of its last call, so that its statement is written as it stands. -/
theorem expression_chainText (voName : String) (setters : List Setter) :
    expression ("return " ++ chainText voName setters) =
      .expression ("return " ++ chainText voName setters) := by
  refine expression_return (x := ')') ?_ (by decide) (by decide)
  rw [chainText, String.toList_append, String.toList_join, List.flatMap_map]
  refine getLast?_flatMap ?_ (fun s => ?_) setters
  · rw [String.toList_append, List.getLast?_append]
    rfl
  · rw [String.toList_append, List.getLast?_append]
    rfl

theorem isBuilder_chainMethod {name : String} {setters : List Setter} {builder : TypeRef}
    (h : TypeRef.parse (e.voName ++ "Builder") = .ok builder) :
    IsBuilder e name setters (chainMethod e name setters builder) where
  name := rfl
  modifiers := rfl
  parameters := rfl
  returnType := h
  body := by rw [chainMethod, expression_chainText]

/-! ## The setters and their imports -/

/-- What is kept of a list stands for the elements for which there is something to keep. -/
theorem forall₂_filterMap {α β : Type} {r : α → β → Prop} {kept : α → Bool} {image : α → Option β}
    {l : List α} (hkept : ∀ a, (image a).isSome = kept a)
    (hr : ∀ a ∈ l, ∀ b, image a = some b → r a b) :
    List.Forall₂ r (l.filter kept) (l.filterMap image) := by
  induction l with
  | nil => exact .nil
  | cons a l ih =>
    obtain ⟨ha, hl⟩ := List.forall_mem_cons.1 hr
    rw [List.filter_cons, List.filterMap_cons, ← hkept]
    cases himage : image a with
    | none => exact ih hl
    | some b => exact .cons (ha b himage) (ih hl)

/-- The setters that are written fill the builders, in a unit that has the imports of the fields and
those of the builders. -/
theorem fills_setters
    (hfields : ∀ name ∈ e.fields.flatMap voFieldImports, Text.mapChars Text.trim name ∈ u.imports)
    (hbuilders : ∀ name ∈ builderImports e p calls e.idFields,
      Text.mapChars Text.trim name ∈ u.imports) :
    Fills e p calls u (idSetters calls e.idFields) (valueSetters e) (partitionSetters e p calls) where
  ids := by
    refine forall₂_filterMap (fun f => ?_) fun f hf s hs => ?_
    · rw [Option.isSome_map, Bool.eq_iff_iff, isSome_idCall, decide_eq_true_iff]
    · obtain ⟨call, hcall, rfl⟩ := Option.map_eq_some_iff.1 hs
      refine ⟨call, generates_of_idCall hcall, rfl, fun name hname => hbuilders name ?_⟩
      refine List.mem_append_left _ (List.mem_flatMap.2 ⟨call, ?_, Option.mem_toList.2 hname⟩)
      exact List.mem_filterMap.2 ⟨f, hf, hcall⟩
  values := by
    rw [← List.filter_filter]
    refine forall₂_filterMap (fun f => Option.isSome_map) fun f hf s hs => ?_
    obtain ⟨value, hvalue, rfl⟩ := Option.map_eq_some_iff.1 hs
    obtain ⟨hf, hkey⟩ := List.mem_filter.1 hf
    have hinitial : initialValue f = some value := by
      rw [initialValue, if_neg (by simpa using hkey), hvalue]
    refine ⟨value, hvalue, rfl, fun name hname => hfields name ?_⟩
    refine List.mem_flatMap.2 ⟨f, hf, List.mem_append_right _ ?_⟩
    rw [initialValueImports, hinitial]
    exact Option.mem_toList.2 hname
  partition := by
    have hpartition : (if p.voPopulatesPartition then e.partitionField.toList else []) =
        (populatedPartition e p).toList := by
      unfold populatedPartition
      split <;> rfl
    rw [hpartition, partitionSetters]
    refine List.forall₂_map_right_iff.2 (List.forall₂_same.2 fun f hf => ⟨rfl, fun name hname => ?_⟩)
    refine hbuilders name (List.mem_append_right _ (List.mem_flatMap.2 ⟨f, hf, ?_⟩))
    exact Option.mem_toList.2 hname

/-- The methods of a value object are its builders, if the first identifying field can be generated,
and it has their imports besides those of its fields. -/
theorem methods_of_valueObjectUnit (h : valueObjectUnit e p calls = .ok u) :
    ∃ d id more, u.decl = .classDecl d ∧ e.idFields = id :: more ∧
      (∀ name ∈ e.fields.flatMap voFieldImports, Text.mapChars Text.trim name ∈ u.imports) ∧
      (id.type ∈ generatedTypes → ∃ builder,
        TypeRef.parse (e.voName ++ "Builder") = .ok builder ∧
        (∀ name ∈ builderImports e p calls e.idFields, Text.mapChars Text.trim name ∈ u.imports) ∧
        d.methods = chainMethods e p calls e.idFields builder) ∧
      (id.type ∉ generatedTypes → d.methods = []) := by
  obtain ⟨id, more, hids, h⟩ := valueObjectUnit_eq_ok.1 h
  obtain ⟨superClass, fields, methods, s, s', -, hadd, -, hmethods, -, -, rfl⟩ :=
    buildValueObject_eq_ok.1 h
  have hdecl : (valueObjectClass e superClass fields methods).methods = methods :=
    ClassDecl.methods_of_members ..
  have hs : ∀ name ∈ e.fields.flatMap voFieldImports, Text.mapChars Text.trim name ∈ s.names :=
    fun name hname => (ImportSet.mem_addAll hadd).2
      (.inr ⟨name, List.mem_append_right _ hname, rfl⟩)
  rw [voBuilders_eq_ok] at hmethods
  by_cases htype : id.type ∈ generatedTypes
  · rw [if_pos ((hasBuilders_iff calls hids).2 htype)] at hmethods
    obtain ⟨builder, hbuilder, hmore, -, -, rfl⟩ := hmethods
    have hs' (name : String) := ImportSet.mem_addAll hmore (n := Text.mapChars Text.trim name)
    refine ⟨_, id, more, rfl, hids, fun name hname => (hs' name).2 (.inl (hs name hname)),
      fun _ => ⟨builder, hbuilder, fun name hname => (hs' name).2 (.inr ⟨name, ?_, rfl⟩), ?_⟩,
      fun hnot => absurd htype hnot⟩
    · rwa [← hids]
    · rw [hdecl, hids]
  · rw [if_neg (mt (hasBuilders_iff calls hids).1 htype)] at hmethods
    obtain ⟨rfl, rfl⟩ := hmethods
    exact ⟨_, id, more, rfl, hids, hs, fun hin => absurd hin htype, fun _ => hdecl⟩

end JpaScaffold.Units
