import JpaScaffold.Proofs.Java.ImportSet
import JpaScaffold.Proofs.Java.Rendering

/-!
# Units from their parts

Parts are added to a unit in any order. What they leave behind is told by the parts of each kind
alone: the package and the doc comment, each given at most once, the imported names, each at its
first mention, the last class and the last interface, and the comments. A unit can be built if there
is a package and a type of one kind; its items are then in the order in which they are written.
-/
namespace JpaScaffold.Java

variable {parts : List UnitPart} {d : UnitDraft} {s' : ImportSet} {names : List String}
  {name : String} {u : CompilationUnit}

/-! ## The parts of each kind -/

namespace UnitPart

@[simp] def packages : UnitPart → List String
  | .package name => [name]
  | _ => []

/-- The names that are imported, without the blanks around them. -/
@[simp] def imports : UnitPart → List String
  | .importName name => [Text.mapChars Text.trim name]
  | .importNames names => names.map (Text.mapChars Text.trim)
  | .importSet s => s.names.map (Text.mapChars Text.trim)
  | _ => []

@[simp] def docs : UnitPart → List (List String)
  | .doc lines => [lines]
  | _ => []

@[simp] def comments : UnitPart → List Comment
  | .comment c => [c]
  | _ => []

@[simp] def classes : UnitPart → List ClassDecl
  | .classDecl c => [c]
  | _ => []

@[simp] def interfaces : UnitPart → List InterfaceDecl
  | .interfaceDecl i => [i]
  | _ => []

@[simp] def types : UnitPart → List TypeDecl
  | .classDecl c => [.classDecl c]
  | .interfaceDecl i => [.interfaceDecl i]
  | _ => []

end UnitPart

/-- The parts can be added to an empty unit: it gets one package and one doc comment at most, and
its package and its imports are dotted names. -/
@[mk_iff] structure Addable (parts : List UnitPart) : Prop where
  package : (parts.flatMap UnitPart.packages).length ≤ 1
  packageName : ∀ n ∈ parts.flatMap UnitPart.packages, isQualifiedName n.toList = true
  imports : ∀ n ∈ parts.flatMap UnitPart.imports, isQualifiedName n.toList = true
  doc : (parts.flatMap UnitPart.docs).length ≤ 1

def UnitDraft.ofParts (parts : List UnitPart) : UnitDraft where
  package := (parts.flatMap UnitPart.packages).head?
  imports := ⟨(parts.flatMap UnitPart.imports).eraseDups⟩
  doc := (parts.flatMap UnitPart.docs).head?
  comments := parts.flatMap UnitPart.comments
  classDecl := (parts.flatMap UnitPart.classes).getLast?
  interfaceDecl := (parts.flatMap UnitPart.interfaces).getLast?

theorem Addable.of_append {parts' : List UnitPart} (h : Addable (parts ++ parts')) :
    Addable parts where
  package := by
    have := h.package
    rw [List.flatMap_append, List.length_append] at this
    omega
  packageName n hn := h.packageName n (by rw [List.flatMap_append]; exact List.mem_append_left _ hn)
  imports n hn := h.imports n (by rw [List.flatMap_append]; exact List.mem_append_left _ hn)
  doc := by
    have := h.doc
    rw [List.flatMap_append, List.length_append] at this
    omega

/-! ## Adding parts -/

theorem eraseDups_concat (l : List String) (a : String) :
    (l ++ [a]).eraseDups = if a ∈ l then l.eraseDups else l.eraseDups ++ [a] := by
  rw [List.eraseDups_append]
  by_cases h : a ∈ l
  · simp [List.removeAll, h]
  · simp [List.removeAll, h, List.eraseDups_cons]

theorem ImportSet.add_eq_ok {l : List String} (hl : ∀ n ∈ l, isQualifiedName n.toList = true) :
    ImportSet.add ⟨l.eraseDups⟩ name = .ok s' ↔
      isQualifiedName (Text.mapChars Text.trim name).toList = true ∧
        s' = ⟨(l ++ [Text.mapChars Text.trim name]).eraseDups⟩ := by
  rw [eraseDups_concat]
  by_cases hm : Text.mapChars Text.trim name ∈ l
  · have hadd := ImportSet.add_of_mem (s := ⟨l.eraseDups⟩) (List.mem_eraseDups.2 hm)
    rw [hadd, if_pos hm, Except.ok.injEq, eq_comm]
    exact ⟨fun h => ⟨hl _ hm, h⟩, And.right⟩
  · have hadd := ImportSet.add_of_notMem (s := ⟨l.eraseDups⟩) fun h => hm (List.mem_eraseDups.1 h)
    rw [hadd, if_neg hm, map_eq_ok]
    constructor
    · rintro ⟨name', hname, rfl⟩
      obtain ⟨hqualified, rfl⟩ := qualifiedName_eq_ok.1 hname
      exact ⟨hqualified, rfl⟩
    · rintro ⟨hqualified, rfl⟩
      exact ⟨_, qualifiedName_eq_ok.2 ⟨hqualified, rfl⟩, rfl⟩

/-- Names are added each at its first mention. -/
theorem ImportSet.addAll_eq_ok {l : List String} (hl : ∀ n ∈ l, isQualifiedName n.toList = true) :
    ImportSet.addAll ⟨l.eraseDups⟩ names = .ok s' ↔
      (∀ n ∈ names.map (Text.mapChars Text.trim), isQualifiedName n.toList = true) ∧
        s' = ⟨(l ++ names.map (Text.mapChars Text.trim)).eraseDups⟩ := by
  induction names generalizing l with
  | nil =>
    rw [List.map_nil, List.append_nil]
    exact ⟨fun h => ⟨List.forall_mem_nil _, (Except.ok.inj h).symm⟩, fun h => h.2 ▸ rfl⟩
  | cons name names ih =>
    have hbehind (h : isQualifiedName (Text.mapChars Text.trim name).toList = true) :
        ∀ n ∈ l ++ [Text.mapChars Text.trim name], isQualifiedName n.toList = true :=
      List.forall_mem_append.2 ⟨hl, List.forall_mem_singleton.2 h⟩
    rw [ImportSet.addAll_cons, bind_eq_ok, List.map_cons, List.forall_mem_cons]
    constructor
    · rintro ⟨s₁, hadd, h⟩
      obtain ⟨hname, rfl⟩ := (ImportSet.add_eq_ok hl).1 hadd
      obtain ⟨hnames, rfl⟩ := (ih (hbehind hname)).1 h
      exact ⟨⟨hname, hnames⟩, by rw [List.append_assoc, List.singleton_append]⟩
    · rintro ⟨⟨hname, hnames⟩, rfl⟩
      refine ⟨_, (ImportSet.add_eq_ok hl).2 ⟨hname, rfl⟩, (ih (hbehind hname)).2 ⟨hnames, ?_⟩⟩
      rw [List.append_assoc, List.singleton_append]

/-- One part more can be added if it is no second package or doc comment, and its names are dotted
names. -/
theorem addable_concat (h : Addable parts) (p : UnitPart) : Addable (parts ++ [p]) ↔
    (p.packages ≠ [] → parts.flatMap UnitPart.packages = []) ∧
      (∀ n ∈ p.packages, isQualifiedName n.toList = true) ∧
      (∀ n ∈ p.imports, isQualifiedName n.toList = true) ∧
      (p.docs ≠ [] → parts.flatMap UnitPart.docs = []) := by
  have hbound {α : Type} {l l' : List α} (hl : l.length ≤ 1) (hl' : l'.length ≤ 1) :
      (l ++ l').length ≤ 1 ↔ (l' ≠ [] → l = []) := by
    rw [List.length_append, ← List.length_eq_zero_iff, ← List.length_pos_iff]
    omega
  have hpackages : p.packages.length ≤ 1 := by cases p <;> simp [UnitPart.packages]
  have hdocs : p.docs.length ≤ 1 := by cases p <;> simp [UnitPart.docs]
  rw [addable_iff]
  simp only [List.flatMap_append, List.flatMap_singleton, List.forall_mem_append,
    hbound h.package hpackages, hbound h.doc hdocs]
  exact ⟨fun ⟨h₁, h₂, h₃, h₄⟩ => ⟨h₁, h₂.2, h₃.2, h₄⟩,
    fun ⟨h₁, h₂, h₃, h₄⟩ => ⟨h₁, ⟨h.packageName, h₂⟩, ⟨h.imports, h₃⟩, h₄⟩⟩

namespace UnitDraft

theorem ofParts_concat (parts : List UnitPart) (p : UnitPart) : ofParts (parts ++ [p]) =
    { package := (ofParts parts).package.or p.packages.head?
      imports := ⟨(parts.flatMap UnitPart.imports ++ p.imports).eraseDups⟩
      doc := (ofParts parts).doc.or p.docs.head?
      comments := (ofParts parts).comments ++ p.comments
      classDecl := p.classes.getLast?.or (ofParts parts).classDecl
      interfaceDecl := p.interfaces.getLast?.or (ofParts parts).interfaceDecl } := by
  simp only [ofParts, List.flatMap_append, List.flatMap_singleton, List.head?_append,
    List.getLast?_append]

theorem imports_ofParts (parts : List UnitPart) :
    (ofParts parts).imports = ⟨(parts.flatMap UnitPart.imports).eraseDups⟩ := rfl

theorem package_eq_none : (ofParts parts).package = none ↔ parts.flatMap UnitPart.packages = [] :=
  List.head?_eq_none_iff

theorem doc_eq_none : (ofParts parts).doc = none ↔ parts.flatMap UnitPart.docs = [] :=
  List.head?_eq_none_iff

theorem addAll_imports (h : Addable parts) (names : List String) :
    ((ofParts parts).imports.addAll names).map (fun imports => { ofParts parts with imports }) =
        .ok d ↔
      (∀ n ∈ names.map (Text.mapChars Text.trim), isQualifiedName n.toList = true) ∧
        d = { ofParts parts with
          imports := ⟨(parts.flatMap UnitPart.imports ++
            names.map (Text.mapChars Text.trim)).eraseDups⟩ } := by
  rw [map_eq_ok]
  constructor
  · rintro ⟨s, hs, rfl⟩
    obtain ⟨hnames, rfl⟩ := (ImportSet.addAll_eq_ok h.imports).1 hs
    exact ⟨hnames, rfl⟩
  · rintro ⟨hnames, rfl⟩
    exact ⟨_, (ImportSet.addAll_eq_ok h.imports).2 ⟨hnames, rfl⟩, rfl⟩

/-- One part more goes behind the others, if all of them together can be added. -/
theorem add_ofParts (h : Addable parts) (p : UnitPart) :
    (ofParts parts).add p = .ok d ↔ Addable (parts ++ [p]) ∧ d = ofParts (parts ++ [p]) := by
  rw [addable_concat h, ofParts_concat, ← package_eq_none, ← doc_eq_none]
  cases p with
  | package name =>
    cases hp : (ofParts parts).package with
    | some package => simp [add, hp]
    | none =>
      simp [add, hp, map_eq_ok, qualifiedName_eq_ok, imports_ofParts, eq_comm (b := d)]
  | importName name =>
    have hadd : (ofParts parts).imports.add name = (ofParts parts).imports.addAll [name] := by
      rw [ImportSet.addAll_cons]
      exact (bind_pure _).symm
    rw [add, hadd, addAll_imports h]
    simp
  | importNames names =>
    rw [add, addAll_imports h]
    simp
  | importSet s =>
    rw [add, addAll_imports h]
    simp
  | doc lines =>
    cases hdoc : (ofParts parts).doc with
    | some doc => simp [add, hdoc]
    | none =>
      simp [add, hdoc, imports_ofParts, eq_comm (b := d)]
  | comment c => simp [add, imports_ofParts, eq_comm (b := d)]
  | classDecl c => simp [add, imports_ofParts, eq_comm (b := d)]
  | interfaceDecl i => simp [add, imports_ofParts, eq_comm (b := d)]

/-- Parts can be added in a row exactly if all of them together can be added, and leave the draft of
these parts. -/
theorem addAll_eq_ok : addAll {} parts = .ok d ↔ Addable parts ∧ d = ofParts parts := by
  -- parts are added at the end, so the last one is taken off
  induction parts using List.reverseRecOn generalizing d with
  | nil =>
    have hnil : Addable [] := ⟨by simp, by simp, by simp, by simp⟩
    exact ⟨fun h => ⟨hnil, (Except.ok.inj h).symm⟩, fun h => h.2 ▸ rfl⟩
  | append_singleton parts p ih =>
    have hlast (d' : UnitDraft) : addAll d' [p] = d'.add p := bind_pure _
    rw [addAll_append, bind_eq_ok]
    constructor
    · rintro ⟨d', hd', hp⟩
      obtain ⟨hparts, rfl⟩ := ih.1 hd'
      exact (add_ofParts hparts p).1 (hlast _ ▸ hp)
    · intro h
      refine ⟨ofParts parts, ih.2 ⟨h.1.of_append, rfl⟩, ?_⟩
      rw [hlast]
      exact (add_ofParts h.1.of_append p).2 h

end UnitDraft

/-! ## The unit of the parts -/

theorem types_of_classes (h : parts.flatMap UnitPart.interfaces = []) :
    parts.flatMap UnitPart.types = (parts.flatMap UnitPart.classes).map .classDecl := by
  induction parts with
  | nil => rfl
  | cons p parts ih =>
    rw [List.flatMap_cons, List.append_eq_nil_iff] at h
    rw [List.flatMap_cons, List.flatMap_cons, List.map_append, ih h.2]
    cases p with
    | interfaceDecl i => cases h.1
    | _ => simp

theorem types_of_interfaces (h : parts.flatMap UnitPart.classes = []) :
    parts.flatMap UnitPart.types = (parts.flatMap UnitPart.interfaces).map .interfaceDecl := by
  induction parts with
  | nil => rfl
  | cons p parts ih =>
    rw [List.flatMap_cons, List.append_eq_nil_iff] at h
    rw [List.flatMap_cons, List.flatMap_cons, List.map_append, ih h.2]
    cases p with
    | classDecl c => cases h.1
    | _ => simp

/-- A draft has one type if its types are classes or interfaces, not both. It is the one that was
declared last. -/
theorem typeDecl_ofParts {decl : TypeDecl} : (UnitDraft.ofParts parts).typeDecl = .ok decl ↔
    (parts.flatMap UnitPart.classes = [] ↔ parts.flatMap UnitPart.interfaces ≠ []) ∧
      (parts.flatMap UnitPart.types).getLast? = some decl := by
  simp only [UnitDraft.typeDecl, UnitDraft.ofParts]
  by_cases hc : parts.flatMap UnitPart.classes = []
  · rw [types_of_interfaces hc, List.getLast?_map, hc]
    cases hi : (parts.flatMap UnitPart.interfaces).getLast? with
    | none => simp [List.getLast?_eq_none_iff.1 hi]
    | some i =>
      have hne : parts.flatMap UnitPart.interfaces ≠ [] := fun h => by simp [h] at hi
      simp [hne]
  · obtain ⟨c, hlast⟩ := Option.ne_none_iff_exists'.1 fun h => hc (List.getLast?_eq_none_iff.1 h)
    rw [hlast]
    cases hi : (parts.flatMap UnitPart.interfaces).getLast? with
    | none =>
      have hnil := List.getLast?_eq_none_iff.1 hi
      rw [types_of_classes hnil, List.getLast?_map, hlast]
      simp [hc, hnil]
    | some i =>
      have hne : parts.flatMap UnitPart.interfaces ≠ [] := fun h => by simp [h] at hi
      simp [hc, hne]

theorem exists_typeDecl
    (h : parts.flatMap UnitPart.classes = [] ↔ parts.flatMap UnitPart.interfaces ≠ []) :
    ∃ decl, (UnitDraft.ofParts parts).typeDecl = .ok decl := by
  simp only [UnitDraft.typeDecl, UnitDraft.ofParts]
  rw [← List.getLast?_eq_none_iff, ne_eq, ← List.getLast?_eq_none_iff] at h
  cases hc : (parts.flatMap UnitPart.classes).getLast? with
  | none =>
    obtain ⟨i, hi⟩ := Option.ne_none_iff_exists'.1 (h.1 hc)
    exact ⟨.interfaceDecl i, by rw [hi]⟩
  | some c =>
    have hi : (parts.flatMap UnitPart.interfaces).getLast? = none := by
      by_contra hi
      rw [h.2 hi] at hc
      cases hc
    exact ⟨.classDecl c, by rw [hi]⟩

theorem build_of_package (h : parts.flatMap UnitPart.packages ≠ []) : ∃ package,
    (UnitDraft.ofParts parts).build = (UnitDraft.ofParts parts).typeDecl.map fun decl =>
      ⟨package, (parts.flatMap UnitPart.imports).eraseDups, (parts.flatMap UnitPart.docs).head?,
        decl, parts.flatMap UnitPart.comments⟩ := by
  obtain ⟨package, more, hp⟩ := List.exists_cons_of_ne_nil h
  have hfirst : (UnitDraft.ofParts parts).package = some package := by simp [UnitDraft.ofParts, hp]
  exact ⟨package, by rw [UnitDraft.build, hfirst]; rfl⟩

/-- The unit of parts that can be added. -/
theorem build_ofParts (h : Addable parts) : (UnitDraft.ofParts parts).build = .ok u ↔
    ∃ package decl, parts.flatMap UnitPart.packages = [package] ∧
      (parts.flatMap UnitPart.classes = [] ↔ parts.flatMap UnitPart.interfaces ≠ []) ∧
      (parts.flatMap UnitPart.types).getLast? = some decl ∧
      u = ⟨package, (parts.flatMap UnitPart.imports).eraseDups, (parts.flatMap UnitPart.docs).head?,
        decl, parts.flatMap UnitPart.comments⟩ := by
  have hpackage := h.package
  have hfirst : (UnitDraft.ofParts parts).package = (parts.flatMap UnitPart.packages).head? := rfl
  rw [UnitDraft.build, hfirst]
  cases hp : parts.flatMap UnitPart.packages with
  | nil => simp
  | cons package more =>
    obtain rfl : more = [] := by simpa [hp] using hpackage
    rw [List.head?_cons, map_eq_ok]
    constructor
    · rintro ⟨decl, hdecl, rfl⟩
      obtain ⟨hone, hlast⟩ := typeDecl_ofParts.1 hdecl
      exact ⟨package, decl, rfl, hone, hlast, rfl⟩
    · rintro ⟨package', decl, heq, hone, hlast, rfl⟩
      cases heq
      exact ⟨decl, typeDecl_ofParts.2 ⟨hone, hlast⟩, rfl⟩

/-- The unit is written item by item: its package, its imports, each at its first mention, its doc
comment if there is one, the type that was declared last, and its comments. -/
structure Assembled (parts : List UnitPart) (u : CompilationUnit) : Prop where
  items : ∃ (package : String) (doc : Option (List String)) (decl : TypeDecl),
    parts.flatMap UnitPart.packages = [package] ∧ parts.flatMap UnitPart.docs = doc.toList ∧
    (parts.flatMap UnitPart.types).getLast? = some decl ∧
    u.items = [.packageDecl package] ++
      (parts.flatMap UnitPart.imports).eraseDups.map .importDecl ++ (doc.map .doc).toList ++
      [.typeDecl decl] ++ (parts.flatMap UnitPart.comments).map Comment.item
  text : u.text = String.join (u.items.map Item.text)

theorem toList_head? {α : Type} {l : List α} (h : l.length ≤ 1) : l.head?.toList = l := by
  match l with
  | [] => rfl
  | [a] => rfl

theorem assembled_of_build (h : Addable parts) (hu : (UnitDraft.ofParts parts).build = .ok u) :
    Assembled parts u := by
  obtain ⟨package, decl, hpackage, -, hlast, rfl⟩ := (build_ofParts h).1 hu
  refine ⟨⟨package, _, decl, hpackage, (toList_head? h.doc).symm, hlast, ?_⟩,
    CompilationUnit.text_of_items _⟩
  simp [CompilationUnit.items]

/-- What was added part by part can be built if there is a package and either classes or interfaces.
Otherwise the package is missed first, and then the type. -/
theorem build_of_parts (h : UnitDraft.addAll {} parts = .ok d) :
    ((∃ u, d.build = .ok u) ↔ parts.flatMap UnitPart.packages ≠ [] ∧
        (parts.flatMap UnitPart.classes = [] ↔ parts.flatMap UnitPart.interfaces ≠ [])) ∧
      (parts.flatMap UnitPart.packages = [] → d.build = .error .noPackage) ∧
      (parts.flatMap UnitPart.packages ≠ [] → parts.flatMap UnitPart.classes = [] →
        parts.flatMap UnitPart.interfaces = [] → d.build = .error .noType) ∧
      (∀ c i, parts.flatMap UnitPart.packages ≠ [] →
        (parts.flatMap UnitPart.classes).getLast? = some c →
        (parts.flatMap UnitPart.interfaces).getLast? = some i →
        d.build = .error (.twoTypes c.name i.name)) ∧
      ∀ u, d.build = .ok u → Assembled parts u := by
  obtain ⟨hparts, rfl⟩ := UnitDraft.addAll_eq_ok.1 h
  refine ⟨⟨?_, ?_⟩, ?_, ?_, ?_, fun u hu => assembled_of_build hparts hu⟩
  · rintro ⟨u, hu⟩
    obtain ⟨package, decl, hpackage, hone, -⟩ := (build_ofParts hparts).1 hu
    exact ⟨by simp [hpackage], hone⟩
  · rintro ⟨hpackage, hone⟩
    obtain ⟨decl, hdecl⟩ := exists_typeDecl hone
    obtain ⟨package, hbuild⟩ := build_of_package hpackage
    exact ⟨_, by rw [hbuild, hdecl]; rfl⟩
  · intro hpackage
    simp [UnitDraft.build, UnitDraft.ofParts, hpackage]
  · intro hpackage hc hi
    have htype : (UnitDraft.ofParts parts).typeDecl = .error .noType := by
      simp [UnitDraft.typeDecl, UnitDraft.ofParts, hc, hi]
    obtain ⟨package, hbuild⟩ := build_of_package hpackage
    rw [hbuild, htype]
    rfl
  · intro c i hpackage hc hi
    have htype : (UnitDraft.ofParts parts).typeDecl = .error (.twoTypes c.name i.name) := by
      simp [UnitDraft.typeDecl, UnitDraft.ofParts, hc, hi]
    obtain ⟨package, hbuild⟩ := build_of_package hpackage
    rw [hbuild, htype]
    rfl

/-- Parts in no particular order, with a class that takes the place of another. -/
def colorParts : List UnitPart :=
  [.importName " java.util.List ", .comment (.line "end"),
    .classDecl ⟨"Draft", [.publicAccess], [], none, [], []⟩,
    .importSet ⟨["java.io.File", "java.util.List"]⟩, .doc ["The colors."], .package "color.model",
    .classDecl ⟨"Color", [.publicAccess], [], none, [], []⟩, .importNames ["java.io.File"]]

theorem build_of_parts_of_colors :
    UnitDraft.addAll {} colorParts = .ok (UnitDraft.ofParts colorParts) ∧
      ∃ u, (UnitDraft.ofParts colorParts).build = .ok u ∧ Assembled colorParts u ∧
        u.imports = ["java.util.List", "java.io.File"] ∧ u.typeName = "Color" := by
  have hparts : Addable colorParts := ⟨by decide, by decide, by decide, by decide⟩
  have hadd : UnitDraft.addAll {} colorParts = .ok (UnitDraft.ofParts colorParts) :=
    UnitDraft.addAll_eq_ok.2 ⟨hparts, rfl⟩
  obtain ⟨hbuilds, -, -, -, hassembled⟩ := build_of_parts hadd
  obtain ⟨u, hu⟩ := hbuilds.2 ⟨by decide, by simp [colorParts]⟩
  have himports : (colorParts.flatMap UnitPart.imports).eraseDups =
      ["java.util.List", "java.io.File"] := by decide
  refine ⟨hadd, u, hu, hassembled u hu, ?_⟩
  obtain ⟨package, decl, -, -, hdecl, rfl⟩ := (build_ofParts hparts).1 hu
  cases hdecl
  exact ⟨himports, rfl⟩

end JpaScaffold.Java
