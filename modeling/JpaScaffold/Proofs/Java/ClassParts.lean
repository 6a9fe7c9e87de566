import JpaScaffold.Java.Render
import JpaScaffold.Proofs.Java.Build
import JpaScaffold.Proofs.Java.UnitParts

/-!
# Classes from their parts

Parts are added to a class in any order, and modifiers are given in any order, some of them several
times. What is built depends on the parts of each kind alone and on which modifiers there are: the
members are the fields, then the constructors, then the methods, and the modifiers are written each
once and in their own order, which the text of the declaration keeps.
-/
namespace JpaScaffold.Java

variable {ms ms' : List Modifier} {name : String} {parts parts' : List ClassPart}

/-! ## Modifiers -/

/-- The modifiers of `given`, each once and in the order in which they are written. -/
structure Modifier.IsCanonical (ms given : List Modifier) : Prop where
  order : ms.Sublist Modifier.all
  mem_iff : ∀ m, m ∈ ms ↔ m ∈ given

theorem Modifier.isCanonical_canonical (ms : List Modifier) : IsCanonical (canonical ms) ms where
  order := List.filter_sublist
  mem_iff m := by
    have hall : m ∈ all := by cases m <;> decide
    simp [canonical, hall]

theorem Modifier.canonical_congr (h : ∀ m, m ∈ ms ↔ m ∈ ms') : canonical ms = canonical ms' := by
  refine List.filter_congr fun m _ => ?_
  rw [Bool.eq_iff_iff, List.contains_iff_mem, List.contains_iff_mem]
  exact h m

theorem buildModifiers_congr (h : ∀ m, m ∈ ms ↔ m ∈ ms') (role : Role) :
    buildModifiers role ms = buildModifiers role ms' := by
  have hempty : ms.isEmpty = ms'.isEmpty := by
    rw [Bool.eq_iff_iff, List.isEmpty_iff, List.isEmpty_iff, List.eq_nil_iff_forall_not_mem,
      List.eq_nil_iff_forall_not_mem]
    exact forall_congr' fun m => not_congr (h m)
  rw [buildModifiers, buildModifiers, hempty, Modifier.canonical_congr h]

/-- The words of modifiers as they stand, each with a space behind it. -/
def modifierWords (ms : List Modifier) : String := String.join (ms.map fun m => m.word ++ " ")

theorem modifierText_canonical (ms : List Modifier) :
    modifierText (Modifier.canonical ms) = modifierWords (Modifier.canonical ms) := by
  rw [modifierText, Modifier.canonical_congr (Modifier.isCanonical_canonical ms).mem_iff]
  rfl

/-- Lines of a declaration: its annotations, and then a line that begins with `front`. -/
def Begins (lines : List String) (markers : List Marker) (front : String) : Prop :=
  ∃ rest more, lines = markers.map Marker.text ++ (front ++ rest) :: more

theorem FieldDecl.begins (f : FieldDecl) :
    Begins f.lines f.markers (modifierText f.modifiers ++ (f.type.text ++ " " ++ f.name)) := by
  simp only [Begins, FieldDecl.lines, String.append_assoc]
  exact ⟨_, _, rfl⟩

theorem ConstructorDecl.begins (c : ConstructorDecl) :
    Begins c.lines [] (modifierText c.modifiers ++ (c.name ++ "(")) := by
  simp only [Begins, ConstructorDecl.lines, braced, String.append_assoc]
  exact ⟨_, _, rfl⟩

theorem MethodDecl.begins (m : MethodDecl) : Begins m.lines m.markers
    (modifierText m.modifiers ++ (m.returnType.text ++ " " ++ m.name ++ "(")) := by
  simp only [Begins, MethodDecl.lines, braced, String.append_assoc]
  cases m.body <;> exact ⟨_, _, rfl⟩

theorem ClassDecl.begins (c : ClassDecl) :
    Begins c.lines c.markers (modifierText c.modifiers ++ ("class " ++ c.name)) := by
  simp only [Begins, ClassDecl.lines, braced, String.append_assoc]
  exact ⟨_, _, rfl⟩

theorem InterfaceDecl.begins (i : InterfaceDecl) :
    Begins i.lines i.markers (modifierText i.modifiers ++ ("interface " ++ i.name)) := by
  simp only [Begins, InterfaceDecl.lines, braced, String.append_assoc]
  exact ⟨_, _, rfl⟩

/-- Modifiers in any order and with repetitions make the same declaration. It has them each once and
in order, and is written with them in this order. -/
structure ModifierLaw {α : Type} (build : List Modifier → Except BuildError α)
    (modifiers : α → List Modifier) (lines : α → List String) (markers : α → List Marker)
    (head : α → String) : Prop where
  same : ∀ ms ms', (∀ m, m ∈ ms ↔ m ∈ ms') → build ms = build ms'
  canonical : ∀ ms a, build ms = .ok a → Modifier.IsCanonical (modifiers a) ms
  written : ∀ ms a, build ms = .ok a →
    Begins (lines a) (markers a) (modifierWords (modifiers a) ++ head a)

section

variable {α : Type} {build : List Modifier → Except BuildError α} {modifiers : α → List Modifier}
  {lines : α → List String} {markers : α → List Marker} {head : α → String}

theorem modifierLaw_of_build (hsame : ∀ ms ms', (∀ m, m ∈ ms ↔ m ∈ ms') → build ms = build ms')
    (hbuild : ∀ ms a, build ms = .ok a → modifiers a = Modifier.canonical ms)
    (hbegins : ∀ a, Begins (lines a) (markers a) (modifierText (modifiers a) ++ head a)) :
    ModifierLaw build modifiers lines markers head where
  same := hsame
  canonical ms a h := by
    rw [hbuild ms a h]
    exact Modifier.isCanonical_canonical ms
  written ms a h := by
    have hb := hbegins a
    rwa [hbuild ms a h, modifierText_canonical, ← hbuild ms a h] at hb

end

theorem modifierLaw_field (d : FieldDraft) :
    ModifierLaw (fun ms => { d with modifiers := ms }.build) FieldDecl.modifiers FieldDecl.lines
      FieldDecl.markers (fun f => f.type.text ++ " " ++ f.name) := by
  refine modifierLaw_of_build (fun ms ms' h => ?_) (fun ms f h => ?_) FieldDecl.begins
  · simp only [FieldDraft.build, buildModifiers_congr h]
  · obtain ⟨-, -, -, rfl⟩ := FieldDraft.build_eq_ok.1 h
    rfl

theorem modifierLaw_constructor (d : ConstructorDraft) :
    ModifierLaw (fun ms => { d with modifiers := ms }.build) ConstructorDecl.modifiers
      ConstructorDecl.lines (fun _ => []) (fun c => c.name ++ "(") := by
  refine modifierLaw_of_build (fun ms ms' h => ?_) (fun ms c h => ?_) ConstructorDecl.begins
  · simp only [ConstructorDraft.build, buildModifiers_congr h]
  · obtain ⟨-, -, -, -, rfl⟩ := ConstructorDraft.build_eq_ok.1 h
    rfl

theorem modifierLaw_method (d : MethodDraft) :
    ModifierLaw (fun ms => { d with modifiers := ms }.build) MethodDecl.modifiers MethodDecl.lines
      MethodDecl.markers (fun m => m.returnType.text ++ " " ++ m.name ++ "(") := by
  refine modifierLaw_of_build (fun ms ms' h => ?_) (fun ms m h => ?_) MethodDecl.begins
  · simp only [MethodDraft.build, buildModifiers_congr h]
  · cases hbody : d.hasBody with
    | true =>
      have hok := @MethodDraft.build_eq_ok { d with modifiers := ms } m hbody
      obtain ⟨-, -, -, -, rfl⟩ := hok.1 h
      rfl
    | false =>
      have hok := @MethodDraft.build_bodiless_eq_ok { d with modifiers := ms } m hbody
      obtain ⟨-, -, -, rfl⟩ := hok.1 h
      rfl

theorem modifierLaw_interface (d : InterfaceDraft) :
    ModifierLaw (fun ms => { d with modifiers := ms }.build) InterfaceDecl.modifiers
      InterfaceDecl.lines InterfaceDecl.markers (fun i => "interface " ++ i.name) := by
  refine modifierLaw_of_build (fun ms ms' h => ?_) (fun ms i h => ?_) InterfaceDecl.begins
  · simp only [InterfaceDraft.build, buildModifiers_congr h]
  · obtain ⟨-, -, rfl⟩ := InterfaceDraft.build_eq_ok.1 h
    rfl

/-! ## Parts -/

namespace ClassPart

@[simp] def markers : ClassPart → List Marker
  | .marker m => [m]
  | _ => []

@[simp] def superClasses : ClassPart → List TypeRef
  | .superClass t => [t]
  | _ => []

@[simp] def interfaces : ClassPart → List TypeRef
  | .interface t => [t]
  | _ => []

@[simp] def fields : ClassPart → List FieldDecl
  | .field f => [f]
  | _ => []

@[simp] def constructors : ClassPart → List ConstructorDecl
  | .constructor c => [c]
  | _ => []

@[simp] def methods : ClassPart → List MethodDecl
  | .method m => [m]
  | _ => []

end ClassPart

/-- The parts of each kind are the same, in the same order. -/
structure SameParts (parts parts' : List ClassPart) : Prop where
  markers : parts.flatMap ClassPart.markers = parts'.flatMap ClassPart.markers
  superClasses : parts.flatMap ClassPart.superClasses = parts'.flatMap ClassPart.superClasses
  interfaces : parts.flatMap ClassPart.interfaces = parts'.flatMap ClassPart.interfaces
  fields : parts.flatMap ClassPart.fields = parts'.flatMap ClassPart.fields
  constructors : parts.flatMap ClassPart.constructors = parts'.flatMap ClassPart.constructors
  methods : parts.flatMap ClassPart.methods = parts'.flatMap ClassPart.methods

namespace ClassDraft

/-- The draft with parts of each kind behind those that it has. -/
def extended (d : ClassDraft) (parts : List ClassPart) : ClassDraft :=
  { d with
    markers := d.markers ++ parts.flatMap ClassPart.markers
    superClass := d.superClass.or (parts.flatMap ClassPart.superClasses).head?
    interfaces := d.interfaces ++ parts.flatMap ClassPart.interfaces
    fields := d.fields ++ parts.flatMap ClassPart.fields
    constructors := d.constructors ++ parts.flatMap ClassPart.constructors
    methods := d.methods ++ parts.flatMap ClassPart.methods }

theorem addAll_cons (d : ClassDraft) (p : ClassPart) (parts : List ClassPart) :
    d.addAll (p :: parts) = d.add p >>= fun d => d.addAll parts :=
  List.foldlM_cons

theorem addAll_eq (d : ClassDraft) (parts : List ClassPart) : d.addAll parts =
    if (d.superClass.toList ++ parts.flatMap ClassPart.superClasses).length ≤ 1 then
      .ok (d.extended parts)
    else .error (.secondSuperClass d.name) := by
  induction parts generalizing d with
  | nil =>
    have hone : d.superClass.toList.length ≤ 1 := by cases d.superClass <;> simp
    simp only [List.flatMap_nil, List.append_nil, hone, if_true, extended, List.head?_nil,
      Option.or_none]
    rfl
  | cons p parts ih =>
    rw [addAll_cons]
    cases p with
    | superClass t =>
      cases hs : d.superClass with
      | some s => simp [add, hs]
      | none => simp [add, hs, ih, extended]
    | _ => simp [add, ih, extended]

/-- The class of this name with these modifiers and parts. -/
def declare (ms : List Modifier) (name : String) (parts : List ClassPart) :
    Except BuildError ClassDecl :=
  ClassDraft.addAll { modifiers := ms, name := name } parts >>= build

theorem declare_eq (ms : List Modifier) (name : String) (parts : List ClassPart) :
    declare ms name parts =
      if (parts.flatMap ClassPart.superClasses).length ≤ 1 then
        (ClassDraft.extended { modifiers := ms, name := name } parts).build
      else .error (.secondSuperClass name) := by
  rw [declare, addAll_eq, Option.toList_none, List.nil_append]
  by_cases hone : (parts.flatMap ClassPart.superClasses).length ≤ 1
  · rw [if_pos hone, if_pos hone]
    rfl
  · rw [if_neg hone, if_neg hone]
    rfl

/-- What is declared depends on the parts of each kind, and on which modifiers there are. -/
theorem declare_congr (hms : ∀ m, m ∈ ms ↔ m ∈ ms') (hparts : SameParts parts parts') :
    declare ms name parts = declare ms' name parts' := by
  rw [declare_eq, declare_eq, hparts.superClasses]
  simp only [extended, build, buildModifiers_congr hms, hparts.markers, hparts.superClasses,
    hparts.interfaces, hparts.fields, hparts.constructors, hparts.methods]

theorem declare_eq_ok {c : ClassDecl} : declare ms name parts = .ok c ↔
    (parts.flatMap ClassPart.superClasses).length ≤ 1 ∧ isSimpleName name.toList = true ∧ ms ≠ [] ∧
      c = ⟨name, Modifier.canonical ms, parts.flatMap ClassPart.markers,
        (parts.flatMap ClassPart.superClasses).head?, parts.flatMap ClassPart.interfaces,
        (parts.flatMap ClassPart.fields).map .field ++
          (parts.flatMap ClassPart.constructors).map .constructor ++
          (parts.flatMap ClassPart.methods).map .method⟩ := by
  rw [declare_eq]
  by_cases hone : (parts.flatMap ClassPart.superClasses).length ≤ 1
  · rw [if_pos hone, ClassDraft.build_eq_ok, and_iff_right hone]
    rfl
  · rw [if_neg hone]
    constructor
    · intro h
      cases h
    · rintro ⟨h, -⟩
      exact absurd h hone

end ClassDraft

theorem modifierLaw_class (name : String) (parts : List ClassPart) :
    ModifierLaw (fun ms => ClassDraft.declare ms name parts) ClassDecl.modifiers ClassDecl.lines
      ClassDecl.markers (fun c => "class " ++ c.name) := by
  refine modifierLaw_of_build (fun ms ms' h => ?_) (fun ms c h => ?_) ClassDecl.begins
  · exact ClassDraft.declare_congr h ⟨rfl, rfl, rfl, rfl, rfl, rfl⟩
  · obtain ⟨-, -, -, rfl⟩ := ClassDraft.declare_eq_ok.1 h
    rfl

/-- The class has the parts of each kind in the order in which they were added, its fields in front
of its constructors, and these in front of its methods. -/
structure MadeOf (parts : List ClassPart) (c : ClassDecl) : Prop where
  markers : c.markers = parts.flatMap ClassPart.markers
  superClass : c.superClass.toList = parts.flatMap ClassPart.superClasses
  interfaces : c.interfaces = parts.flatMap ClassPart.interfaces
  members : c.members = (parts.flatMap ClassPart.fields).map .field ++
    (parts.flatMap ClassPart.constructors).map .constructor ++
    (parts.flatMap ClassPart.methods).map .method

/-- Two sequences of parts that have the same parts of each kind declare the same class, under
modifiers that are the same up to order and repetition. It is declared if its name is a simple name
and it has a modifier and one super class at most. All declarations keep the law of modifiers. -/
theorem class_of_parts (hms : ∀ m, m ∈ ms ↔ m ∈ ms') (hparts : SameParts parts parts') :
    ClassDraft.declare ms name parts = ClassDraft.declare ms' name parts' ∧
      ((∃ c, ClassDraft.declare ms name parts = .ok c) ↔
        (parts.flatMap ClassPart.superClasses).length ≤ 1 ∧ isSimpleName name.toList = true ∧
          ms ≠ []) ∧
      (∀ c, ClassDraft.declare ms name parts = .ok c → c.name = name ∧ MadeOf parts c) ∧
      ModifierLaw (fun ms => ClassDraft.declare ms name parts) ClassDecl.modifiers ClassDecl.lines
        ClassDecl.markers (fun c => "class " ++ c.name) ∧
      (∀ d : FieldDraft, ModifierLaw (fun ms => { d with modifiers := ms }.build)
        FieldDecl.modifiers FieldDecl.lines FieldDecl.markers
        (fun f => f.type.text ++ " " ++ f.name)) ∧
      (∀ d : MethodDraft, ModifierLaw (fun ms => { d with modifiers := ms }.build)
        MethodDecl.modifiers MethodDecl.lines MethodDecl.markers
        (fun m => m.returnType.text ++ " " ++ m.name ++ "(")) ∧
      (∀ d : ConstructorDraft, ModifierLaw (fun ms => { d with modifiers := ms }.build)
        ConstructorDecl.modifiers ConstructorDecl.lines (fun _ => []) (fun c => c.name ++ "(")) ∧
      ∀ d : InterfaceDraft, ModifierLaw (fun ms => { d with modifiers := ms }.build)
        InterfaceDecl.modifiers InterfaceDecl.lines InterfaceDecl.markers
        (fun i => "interface " ++ i.name) := by
  refine ⟨ClassDraft.declare_congr hms hparts, ⟨?_, ?_⟩, ?_, modifierLaw_class name parts,
    modifierLaw_field, modifierLaw_method, modifierLaw_constructor, modifierLaw_interface⟩
  · rintro ⟨c, hc⟩
    obtain ⟨hone, hname, hne, -⟩ := ClassDraft.declare_eq_ok.1 hc
    exact ⟨hone, hname, hne⟩
  · rintro ⟨hone, hname, hne⟩
    exact ⟨_, ClassDraft.declare_eq_ok.2 ⟨hone, hname, hne, rfl⟩⟩
  · intro c hc
    obtain ⟨hone, -, -, rfl⟩ := ClassDraft.declare_eq_ok.1 hc
    exact ⟨rfl, rfl, toList_head? hone, rfl, rfl⟩

/-- A final, public and static class to which a method, a super class and a field are added, and one
with the same parts and modifiers in another order. -/
theorem class_of_parts_of_turned :
    let size : MethodDecl := ⟨"size", [.publicAccess], [], [], .mk "int" [] 0, none⟩
    let count : FieldDecl := ⟨"count", [.privateAccess], [], .mk "int" [] 0, none⟩
    let ms : List Modifier := [.finalMember, .publicAccess, .staticMember, .publicAccess]
    let ms' : List Modifier := [.publicAccess, .staticMember, .finalMember]
    let parts : List ClassPart := [.method size, .superClass (.mk "Base" [] 0), .field count]
    let parts' : List ClassPart := [.field count, .method size, .superClass (.mk "Base" [] 0)]
    (∀ m, m ∈ ms ↔ m ∈ ms') ∧ SameParts parts parts' ∧
      ClassDraft.declare ms "Box" parts = ClassDraft.declare ms' "Box" parts' ∧
      ∃ c, ClassDraft.declare ms "Box" parts = .ok c ∧ c.name = "Box" ∧ MadeOf parts c := by
  intro size count ms ms' parts parts'
  have hms : ∀ m, m ∈ ms ↔ m ∈ ms' := by
    intro m
    cases m <;> decide
  have hparts : SameParts parts parts' := ⟨rfl, rfl, rfl, rfl, rfl, rfl⟩
  obtain ⟨hsame, hok, hmade, -⟩ := @class_of_parts ms ms' "Box" parts parts' hms hparts
  obtain ⟨c, hc⟩ := hok.2 ⟨by decide, by decide, by decide⟩
  exact ⟨hms, hparts, hsame, c, hc, hmade c hc⟩

end JpaScaffold.Java
