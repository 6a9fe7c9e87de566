import JpaScaffold.Java.UnitDraft
import JpaScaffold.Proofs.Results
import JpaScaffold.Proofs.Text.Trim

/-!
# What a draft becomes

Building a draft either refuses it or returns its parts as they were given: names are kept, modifiers
are put in order, and the blanks around values and statements go away. Each lemma says both, when a
part is accepted and what it then is.
-/
namespace JpaScaffold

namespace Java

theorem simpleName_eq_ok {role : Role} {name name' : String} :
    simpleName role name = .ok name' ↔ isSimpleName name.toList = true ∧ name' = name := by
  unfold simpleName
  split
  · next h =>
    have hnil : name.toList = [] := String.toList_eq_nil_iff.2 (String.isEmpty_iff.1 h)
    simp [hnil, isSimpleName]
  · split
    · next h =>
      rw [Except.ok.injEq]
      constructor
      · rintro rfl
        exact ⟨h, rfl⟩
      · rintro ⟨-, rfl⟩
        rfl
    · next h => simp [h]

theorem qualifiedName_eq_ok {role : Role} {name name' : String} :
    qualifiedName role name = .ok name' ↔ isQualifiedName name.toList = true ∧ name' = name := by
  unfold qualifiedName
  split
  · next h =>
    have hnil : name.toList = [] := String.toList_eq_nil_iff.2 (String.isEmpty_iff.1 h)
    simp [hnil, isQualifiedName, List.splitOnP_nil, isSimpleName]
  · split
    · next h =>
      rw [Except.ok.injEq]
      constructor
      · rintro rfl
        exact ⟨h, rfl⟩
      · rintro ⟨-, rfl⟩
        rfl
    · next h => simp [h]

theorem buildModifiers_eq_ok {role : Role} {ms ms' : List Modifier} :
    buildModifiers role ms = .ok ms' ↔ ms ≠ [] ∧ ms' = Modifier.canonical ms := by
  unfold buildModifiers
  cases ms with
  | nil => simp
  | cons m ms => simp [eq_comm]

/-- A statement that begins with something else than a blank or a semicolon is not empty. -/
theorem bareStatement_ne_empty {s : String} {c : Char} {cs : List Char} (hs : s.toList = c :: cs)
    (hb : Text.isBlank c = false) (hc : (c == ';') = false) : bareStatement s ≠ "" := by
  have hstart : Text.trimStart (c :: cs) = c :: cs :=
    Text.trimStart_eq_self fun d hd => Option.some.inj hd ▸ hb
  intro h
  have hnil := congrArg String.toList h
  rw [bareStatement, Text.toList_mapChars, hs, Text.trim, hstart, Text.trimEnd_cons hb,
    Text.dropEndWhile_cons (p := (· == ';')) hc, Text.trimEnd_cons hb] at hnil
  cases hnil

/-- A statement without blanks around it and without a semicolon behind it stays as it is. -/
theorem bareStatement_eq_self {s : String} (ht : Text.Trimmed s.toList)
    (hl : s.toList.getLast? ≠ some ';') : bareStatement s = s := by
  have hdrop : Text.dropEndWhile (· == ';') s.toList = s.toList :=
    Text.dropEndWhile_eq_self fun c hc => beq_eq_false_iff_ne.2 fun h => hl (h ▸ hc)
  rw [bareStatement, Text.mapChars, ht.trim_eq, hdrop, Text.trimEnd_eq_self ht.last,
    String.ofList_toList]

theorem buildStatement_eq_ok {role : Role} {s : String} {st : Statement} :
    buildStatement role s = .ok st ↔
      bareStatement s ≠ "" ∧ st = .expression (bareStatement s) := by
  simp only [buildStatement]
  split
  · next h => simp [String.isEmpty_iff.1 h]
  · next h =>
    have hne : bareStatement s ≠ "" := fun h0 => h (String.isEmpty_iff.2 h0)
    simp [hne, eq_comm]

theorem buildStatement_eq_error {role : Role} {s : String} {e : BuildError} :
    buildStatement role s = .error e ↔ bareStatement s = "" ∧ e = .emptyStatement role := by
  simp only [buildStatement]
  split
  · next h => simp [String.isEmpty_iff.1 h, eq_comm]
  · next h =>
    have hne : bareStatement s ≠ "" := fun h0 => h (String.isEmpty_iff.2 h0)
    simp [hne]

theorem buildParameter_eq_ok {p : String × TypeRef} {q : Parameter} :
    buildParameter p = .ok q ↔ isSimpleName p.1.toList = true ∧ q = ⟨p.1, p.2⟩ := by
  rw [buildParameter, map_eq_ok]
  constructor
  · rintro ⟨name, hname, rfl⟩
    obtain ⟨hsimple, rfl⟩ := simpleName_eq_ok.1 hname
    exact ⟨hsimple, rfl⟩
  · rintro ⟨hsimple, rfl⟩
    exact ⟨p.1, simpleName_eq_ok.2 ⟨hsimple, rfl⟩, rfl⟩

theorem buildStatements_eq_ok {role : Role} {l : List String} {sts : List Statement} :
    l.mapM (buildStatement role) = .ok sts ↔
      (∀ s ∈ l, bareStatement s ≠ "") ∧ sts = l.map fun s => .expression (bareStatement s) :=
  mapM_checked_eq_ok fun _ _ => buildStatement_eq_ok

/-- The only cause for which statements are refused is an empty one among them. -/
theorem buildStatements_eq_error {role : Role} {l : List String} {e : BuildError} :
    l.mapM (buildStatement role) = .error e ↔
      (∃ s ∈ l, bareStatement s = "") ∧ e = .emptyStatement role := by
  cases hl : l.mapM (buildStatement role) with
  | error e' =>
    obtain ⟨before, s, after, rfl, -, hs⟩ := mapM_eq_error.1 hl
    obtain ⟨hbare, rfl⟩ := buildStatement_eq_error.1 hs
    constructor
    · intro h
      cases h
      exact ⟨⟨s, List.mem_append_cons_self, hbare⟩, rfl⟩
    · rintro ⟨-, rfl⟩
      rfl
  | ok sts =>
    obtain ⟨hall, -⟩ := buildStatements_eq_ok.1 hl
    constructor
    · intro h
      cases h
    · rintro ⟨⟨s, hs, hbare⟩, -⟩
      exact absurd hbare (hall s hs)

theorem buildParameters_eq_ok {l : List (String × TypeRef)} {ps : List Parameter} :
    l.mapM buildParameter = .ok ps ↔
      (∀ p ∈ l, isSimpleName p.1.toList = true) ∧ ps = l.map fun p => ⟨p.1, p.2⟩ :=
  mapM_checked_eq_ok fun _ _ => buildParameter_eq_ok

theorem FieldDraft.build_eq_ok {d : FieldDraft} {f : FieldDecl} :
    d.build = .ok f ↔
      d.initialValue.map (Text.mapChars Text.trim) ≠ some "" ∧ isSimpleName d.name.toList = true ∧
        d.modifiers ≠ [] ∧
        f = ⟨d.name, Modifier.canonical d.modifiers, d.markers, d.type,
          d.initialValue.map (Text.mapChars Text.trim)⟩ := by
  unfold FieldDraft.build
  by_cases hvalue : d.initialValue.map (Text.mapChars Text.trim) = some ""
  · simp only [hvalue, if_true, ne_eq, not_true_eq_false, false_and, iff_false]
    intro h
    cases h
  · simp only [hvalue, if_false]
    rw [bind_eq_ok]
    constructor
    · rintro ⟨name, hname, h⟩
      obtain ⟨modifiers, hmodifiers, h⟩ := bind_eq_ok.1 h
      obtain ⟨hsimple, rfl⟩ := simpleName_eq_ok.1 hname
      obtain ⟨hne, rfl⟩ := buildModifiers_eq_ok.1 hmodifiers
      cases h
      exact ⟨hvalue, hsimple, hne, rfl⟩
    · rintro ⟨-, hsimple, hne, rfl⟩
      refine ⟨d.name, simpleName_eq_ok.2 ⟨hsimple, rfl⟩, ?_⟩
      exact bind_eq_ok.2 ⟨_, buildModifiers_eq_ok.2 ⟨hne, rfl⟩, rfl⟩

theorem ClassDraft.build_eq_ok {d : ClassDraft} {c : ClassDecl} :
    d.build = .ok c ↔ isSimpleName d.name.toList = true ∧ d.modifiers ≠ [] ∧
      c = ⟨d.name, Modifier.canonical d.modifiers, d.markers, d.superClass, d.interfaces,
        d.fields.map .field ++ d.constructors.map .constructor ++ d.methods.map .method⟩ := by
  rw [ClassDraft.build, bind_eq_ok]
  constructor
  · rintro ⟨name, hname, h⟩
    obtain ⟨modifiers, hmodifiers, h⟩ := bind_eq_ok.1 h
    obtain ⟨hsimple, rfl⟩ := simpleName_eq_ok.1 hname
    obtain ⟨hne, rfl⟩ := buildModifiers_eq_ok.1 hmodifiers
    cases h
    exact ⟨hsimple, hne, rfl⟩
  · rintro ⟨hsimple, hne, rfl⟩
    refine ⟨d.name, simpleName_eq_ok.2 ⟨hsimple, rfl⟩, ?_⟩
    exact bind_eq_ok.2 ⟨_, buildModifiers_eq_ok.2 ⟨hne, rfl⟩, rfl⟩

/-- The method of a draft behind its statements. -/
theorem MethodDraft.signature_eq_ok {d : MethodDraft} {body : Option (List Statement)}
    {m : MethodDecl} :
    (do
      let name ← simpleName .method d.name
      let modifiers ← buildModifiers .method d.modifiers
      let parameters ← d.parameters.mapM buildParameter
      return (⟨name, modifiers, d.markers, parameters, d.returnType, body⟩ : MethodDecl)) = .ok m ↔
      isSimpleName d.name.toList = true ∧ d.modifiers ≠ [] ∧
        (∀ p ∈ d.parameters, isSimpleName p.1.toList = true) ∧
        m = ⟨d.name, Modifier.canonical d.modifiers, d.markers,
          d.parameters.map fun p => ⟨p.1, p.2⟩, d.returnType, body⟩ := by
  rw [bind_eq_ok]
  constructor
  · rintro ⟨name, hname, h⟩
    obtain ⟨modifiers, hmodifiers, h⟩ := bind_eq_ok.1 h
    obtain ⟨parameters, hps, h⟩ := bind_eq_ok.1 h
    obtain ⟨hsimple, rfl⟩ := simpleName_eq_ok.1 hname
    obtain ⟨hne, rfl⟩ := buildModifiers_eq_ok.1 hmodifiers
    obtain ⟨hnames, rfl⟩ := buildParameters_eq_ok.1 hps
    cases h
    exact ⟨hsimple, hne, hnames, rfl⟩
  · rintro ⟨hsimple, hne, hnames, rfl⟩
    refine ⟨d.name, simpleName_eq_ok.2 ⟨hsimple, rfl⟩, ?_⟩
    refine bind_eq_ok.2 ⟨_, buildModifiers_eq_ok.2 ⟨hne, rfl⟩, ?_⟩
    exact bind_eq_ok.2 ⟨_, buildParameters_eq_ok.2 ⟨hnames, rfl⟩, rfl⟩

theorem MethodDraft.build_bodiless_eq_ok {d : MethodDraft} {m : MethodDecl}
    (hbody : d.hasBody = false) :
    d.build = .ok m ↔ isSimpleName d.name.toList = true ∧ d.modifiers ≠ [] ∧
      (∀ p ∈ d.parameters, isSimpleName p.1.toList = true) ∧
      m = ⟨d.name, Modifier.canonical d.modifiers, d.markers,
        d.parameters.map fun p => ⟨p.1, p.2⟩, d.returnType, none⟩ := by
  rw [← MethodDraft.signature_eq_ok, MethodDraft.build, if_neg (by simp [hbody])]
  rfl

theorem MethodDraft.build_eq_ok {d : MethodDraft} {m : MethodDecl} (hbody : d.hasBody = true) :
    d.build = .ok m ↔ (∀ s ∈ d.statements, bareStatement s ≠ "") ∧
      isSimpleName d.name.toList = true ∧ d.modifiers ≠ [] ∧
      (∀ p ∈ d.parameters, isSimpleName p.1.toList = true) ∧
      m = ⟨d.name, Modifier.canonical d.modifiers, d.markers,
        d.parameters.map fun p => ⟨p.1, p.2⟩, d.returnType,
        some (d.statements.map fun s => .expression (bareStatement s))⟩ := by
  rw [MethodDraft.build, if_pos hbody, bind_eq_ok]
  constructor
  · rintro ⟨body, hbuilt, h⟩
    obtain ⟨statements, hss, rfl⟩ := map_eq_ok.1 hbuilt
    obtain ⟨hbare, rfl⟩ := buildStatements_eq_ok.1 hss
    exact ⟨hbare, MethodDraft.signature_eq_ok.1 h⟩
  · rintro ⟨hbare, h⟩
    exact ⟨_, map_eq_ok.2 ⟨_, buildStatements_eq_ok.2 ⟨hbare, rfl⟩, rfl⟩,
      MethodDraft.signature_eq_ok.2 h⟩

theorem ConstructorDraft.build_eq_ok {d : ConstructorDraft} {c : ConstructorDecl} :
    d.build = .ok c ↔ isSimpleName d.name.toList = true ∧ d.modifiers ≠ [] ∧
      (∀ p ∈ d.parameters, isSimpleName p.1.toList = true) ∧
      (∀ s ∈ d.statements, bareStatement s ≠ "") ∧
      c = ⟨d.name, Modifier.canonical d.modifiers, d.parameters.map fun p => ⟨p.1, p.2⟩,
        d.statements.map fun s => .expression (bareStatement s)⟩ := by
  rw [ConstructorDraft.build, bind_eq_ok]
  constructor
  · rintro ⟨name, hname, h⟩
    obtain ⟨modifiers, hmodifiers, h⟩ := bind_eq_ok.1 h
    obtain ⟨parameters, hps, h⟩ := bind_eq_ok.1 h
    obtain ⟨body, hss, h⟩ := bind_eq_ok.1 h
    obtain ⟨hsimple, rfl⟩ := simpleName_eq_ok.1 hname
    obtain ⟨hne, rfl⟩ := buildModifiers_eq_ok.1 hmodifiers
    obtain ⟨hnames, rfl⟩ := buildParameters_eq_ok.1 hps
    obtain ⟨hbare, rfl⟩ := buildStatements_eq_ok.1 hss
    cases h
    exact ⟨hsimple, hne, hnames, hbare, rfl⟩
  · rintro ⟨hsimple, hne, hnames, hbare, rfl⟩
    refine ⟨d.name, simpleName_eq_ok.2 ⟨hsimple, rfl⟩, ?_⟩
    refine bind_eq_ok.2 ⟨_, buildModifiers_eq_ok.2 ⟨hne, rfl⟩, ?_⟩
    refine bind_eq_ok.2 ⟨_, buildParameters_eq_ok.2 ⟨hnames, rfl⟩, ?_⟩
    exact bind_eq_ok.2 ⟨_, buildStatements_eq_ok.2 ⟨hbare, rfl⟩, rfl⟩

theorem ClassDecl.fields_of_members (name : String) (modifiers : List Modifier)
    (markers : List Marker) (superClass : Option TypeRef) (interfaces : List TypeRef)
    (fields : List FieldDecl) (constructors : List ConstructorDecl) (methods : List MethodDecl) :
    ClassDecl.fields ⟨name, modifiers, markers, superClass, interfaces,
      fields.map .field ++ constructors.map .constructor ++ methods.map .method⟩ = fields := by
  simp [ClassDecl.fields, List.filterMap_append, List.filterMap_map]

theorem ClassDecl.constructors_of_members (name : String) (modifiers : List Modifier)
    (markers : List Marker) (superClass : Option TypeRef) (interfaces : List TypeRef)
    (fields : List FieldDecl) (constructors : List ConstructorDecl) (methods : List MethodDecl) :
    ClassDecl.constructors ⟨name, modifiers, markers, superClass, interfaces,
      fields.map .field ++ constructors.map .constructor ++ methods.map .method⟩ = constructors := by
  simp [ClassDecl.constructors, List.filterMap_append, List.filterMap_map]

theorem ClassDecl.methods_of_members (name : String) (modifiers : List Modifier)
    (markers : List Marker) (superClass : Option TypeRef) (interfaces : List TypeRef)
    (fields : List FieldDecl) (constructors : List ConstructorDecl) (methods : List MethodDecl) :
    ClassDecl.methods ⟨name, modifiers, markers, superClass, interfaces,
      fields.map .field ++ constructors.map .constructor ++ methods.map .method⟩ = methods := by
  simp [ClassDecl.methods, List.filterMap_append, List.filterMap_map]

theorem InterfaceDraft.build_eq_ok {d : InterfaceDraft} {i : InterfaceDecl} :
    d.build = .ok i ↔ isSimpleName d.name.toList = true ∧ d.modifiers ≠ [] ∧
      i = ⟨d.name, Modifier.canonical d.modifiers, d.markers, d.supers, d.methods.map .method⟩ := by
  rw [InterfaceDraft.build, bind_eq_ok]
  constructor
  · rintro ⟨name, hname, h⟩
    obtain ⟨modifiers, hmodifiers, h⟩ := bind_eq_ok.1 h
    obtain ⟨hsimple, rfl⟩ := simpleName_eq_ok.1 hname
    obtain ⟨hne, rfl⟩ := buildModifiers_eq_ok.1 hmodifiers
    cases h
    exact ⟨hsimple, hne, rfl⟩
  · rintro ⟨hsimple, hne, rfl⟩
    refine ⟨d.name, simpleName_eq_ok.2 ⟨hsimple, rfl⟩, ?_⟩
    exact bind_eq_ok.2 ⟨_, buildModifiers_eq_ok.2 ⟨hne, rfl⟩, rfl⟩

namespace UnitDraft

theorem addAll_append (d : UnitDraft) (ps qs : List UnitPart) :
    d.addAll (ps ++ qs) = d.addAll ps >>= fun d => d.addAll qs :=
  List.foldlM_append

theorem addHeader_eq_ok {p : String} {s : ImportSet} {lines : List String} {d : UnitDraft} :
    UnitDraft.addAll {} [.package p, .importSet s, .doc lines] = .ok d ↔
      isQualifiedName p.toList = true ∧ ∃ imports, ImportSet.addAll {} s.names = .ok imports ∧
        d = { package := some p, imports := imports, doc := some lines } := by
  simp only [addAll, List.foldlM_cons, List.foldlM_nil, add]
  constructor
  · intro h
    obtain ⟨d₁, hpackage, h⟩ := bind_eq_ok.1 h
    obtain ⟨d₂, himports, h⟩ := bind_eq_ok.1 h
    obtain ⟨p', hp, rfl⟩ := map_eq_ok.1 hpackage
    obtain ⟨hqualified, rfl⟩ := qualifiedName_eq_ok.1 hp
    obtain ⟨imports, hs, rfl⟩ := map_eq_ok.1 himports
    cases h
    exact ⟨hqualified, imports, hs, rfl⟩
  · rintro ⟨hqualified, imports, hs, rfl⟩
    refine bind_eq_ok.2 ⟨_, map_eq_ok.2 ⟨p, qualifiedName_eq_ok.2 ⟨hqualified, rfl⟩, rfl⟩, ?_⟩
    exact bind_eq_ok.2 ⟨_, map_eq_ok.2 ⟨imports, hs, rfl⟩, rfl⟩

theorem buildClass_eq_ok {p : String} {s : ImportSet} {lines : List String} {c : ClassDecl}
    {u : CompilationUnit} :
    (UnitDraft.addAll {} [.package p, .importSet s, .doc lines, .classDecl c] >>= build) = .ok u ↔
      isQualifiedName p.toList = true ∧ ∃ imports, ImportSet.addAll {} s.names = .ok imports ∧
        u = ⟨p, imports.names, some lines, .classDecl c, []⟩ := by
  have hsplit := addAll_append {} [.package p, .importSet s, .doc lines] [.classDecl c]
  rw [List.cons_append, List.cons_append, List.cons_append, List.nil_append] at hsplit
  rw [hsplit, bind_eq_ok]
  constructor
  · rintro ⟨d, hd, h⟩
    obtain ⟨d', hd', hc⟩ := bind_eq_ok.1 hd
    obtain ⟨hqualified, imports, hs, rfl⟩ := addHeader_eq_ok.1 hd'
    cases hc
    cases h
    exact ⟨hqualified, imports, hs, rfl⟩
  · rintro ⟨hqualified, imports, hs, rfl⟩
    refine ⟨_, bind_eq_ok.2 ⟨_, addHeader_eq_ok.2 ⟨hqualified, imports, hs, rfl⟩, rfl⟩, rfl⟩

theorem buildInterface_eq_ok {p : String} {s : ImportSet} {lines : List String} {i : InterfaceDecl}
    {u : CompilationUnit} :
    (UnitDraft.addAll {} [.package p, .importSet s, .doc lines, .interfaceDecl i] >>= build) =
        .ok u ↔
      isQualifiedName p.toList = true ∧ ∃ imports, ImportSet.addAll {} s.names = .ok imports ∧
        u = ⟨p, imports.names, some lines, .interfaceDecl i, []⟩ := by
  have hsplit := addAll_append {} [.package p, .importSet s, .doc lines] [.interfaceDecl i]
  rw [List.cons_append, List.cons_append, List.cons_append, List.nil_append] at hsplit
  rw [hsplit, bind_eq_ok]
  constructor
  · rintro ⟨d, hd, h⟩
    obtain ⟨d', hd', hi⟩ := bind_eq_ok.1 hd
    obtain ⟨hqualified, imports, hs, rfl⟩ := addHeader_eq_ok.1 hd'
    cases hi
    cases h
    exact ⟨hqualified, imports, hs, rfl⟩
  · rintro ⟨hqualified, imports, hs, rfl⟩
    refine ⟨_, bind_eq_ok.2 ⟨_, addHeader_eq_ok.2 ⟨hqualified, imports, hs, rfl⟩, rfl⟩, rfl⟩

end UnitDraft

end Java

end JpaScaffold
