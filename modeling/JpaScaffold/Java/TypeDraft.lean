import JpaScaffold.Java.Draft

/-!
Drafts of classes and interfaces. Parts are added one by one, in any order; the members of the
finished class are its fields, then its constructors, then its methods, each in the order in which
they were added.
-/
namespace JpaScaffold.Java

structure ClassDraft where
  modifiers : List Modifier
  name : String
  markers : List Marker := []
  superClass : Option TypeRef := none
  interfaces : List TypeRef := []
  fields : List FieldDecl := []
  constructors : List ConstructorDecl := []
  methods : List MethodDecl := []

/-- A part that is added to a class. -/
inductive ClassPart where
  | marker (marker : Marker)
  | superClass (type : TypeRef)
  | interface (type : TypeRef)
  | field (decl : FieldDecl)
  | constructor (decl : ConstructorDecl)
  | method (decl : MethodDecl)

namespace ClassDraft

/-- The draft with one part more. A class has one super class at most. -/
def add (d : ClassDraft) : ClassPart → Except BuildError ClassDraft
  | .marker m => .ok { d with markers := d.markers ++ [m] }
  | .superClass t =>
    match d.superClass with
    | some _ => .error (.secondSuperClass d.name)
    | none => .ok { d with superClass := some t }
  | .interface t => .ok { d with interfaces := d.interfaces ++ [t] }
  | .field f => .ok { d with fields := d.fields ++ [f] }
  | .constructor c => .ok { d with constructors := d.constructors ++ [c] }
  | .method m => .ok { d with methods := d.methods ++ [m] }

def addAll (d : ClassDraft) (parts : List ClassPart) : Except BuildError ClassDraft :=
  parts.foldlM add d

/-- The class of a draft. Its name is checked first, then its modifiers. -/
def build (d : ClassDraft) : Except BuildError ClassDecl := do
  let name ← simpleName .classType d.name
  let modifiers ← buildModifiers .classType d.modifiers
  let members :=
    d.fields.map .field ++ d.constructors.map .constructor ++ d.methods.map .method
  return ⟨name, modifiers, d.markers, d.superClass, d.interfaces, members⟩

end ClassDraft

structure InterfaceDraft where
  modifiers : List Modifier
  name : String
  markers : List Marker := []
  supers : List TypeRef := []
  methods : List MethodDecl := []

/-- A part that is added to an interface. -/
inductive InterfacePart where
  | marker (marker : Marker)
  | super (type : TypeRef)
  | method (decl : MethodDecl)

namespace InterfaceDraft

def add (d : InterfaceDraft) : InterfacePart → InterfaceDraft
  | .marker m => { d with markers := d.markers ++ [m] }
  | .super t => { d with supers := d.supers ++ [t] }
  | .method m => { d with methods := d.methods ++ [m] }

/-- The interface of a draft. Its name is checked first, then its modifiers. -/
def build (d : InterfaceDraft) : Except BuildError InterfaceDecl := do
  let name ← simpleName .interfaceType d.name
  let modifiers ← buildModifiers .interfaceType d.modifiers
  return ⟨name, modifiers, d.markers, d.supers, d.methods.map .method⟩

end InterfaceDraft

end JpaScaffold.Java
