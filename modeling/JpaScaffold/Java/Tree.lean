import JpaScaffold.Java.TypeRef

/-!
The trees of Java declarations. A tree says what is declared and in which order; its text is that
of `Java.Render`, and `Java.Draft` puts trees together.
-/
namespace JpaScaffold.Java

/-- The modifiers of a declaration. -/
inductive Modifier where
  | publicAccess
  | protectedAccess
  | privateAccess
  | abstractMember
  | staticMember
  | finalMember
  deriving DecidableEq

namespace Modifier

def word : Modifier → String
  | publicAccess => "public"
  | protectedAccess => "protected"
  | privateAccess => "private"
  | abstractMember => "abstract"
  | staticMember => "static"
  | finalMember => "final"

/-- All modifiers in the order in which they are written. -/
def all : List Modifier :=
  [publicAccess, protectedAccess, privateAccess, abstractMember, staticMember, finalMember]

/-- The modifiers of a list in the order in which they are written, each once. -/
def canonical (ms : List Modifier) : List Modifier := all.filter fun m => ms.contains m

end Modifier

/-- The value of an attribute of an annotation. -/
inductive AttributeValue where
  /-- A text, written as a string literal. -/
  | string (value : String)
  /-- A number or a truth value, written as it stands. -/
  | verbatim (value : String)
  /-- The class of a type. -/
  | classOf (type : TypeRef)
  | array (values : List AttributeValue)

/-- An attribute of an annotation. -/
structure Attribute where
  key : String
  value : AttributeValue

/-- An annotation in front of a declaration. -/
structure Marker where
  name : String
  attributes : List Attribute

/-- A parameter of a method or a constructor. -/
structure Parameter where
  name : String
  type : TypeRef

/-- A statement: an expression, or a block of statements. -/
inductive Statement where
  | expression (text : String)
  | block (statements : List Statement)

structure FieldDecl where
  name : String
  modifiers : List Modifier
  markers : List Marker
  type : TypeRef
  initialValue : Option String

structure ConstructorDecl where
  name : String
  modifiers : List Modifier
  parameters : List Parameter
  body : List Statement

structure MethodDecl where
  name : String
  modifiers : List Modifier
  markers : List Marker
  parameters : List Parameter
  returnType : TypeRef
  /-- Without a body, only the signature is declared. -/
  body : Option (List Statement)

inductive Member where
  | field (decl : FieldDecl)
  | constructor (decl : ConstructorDecl)
  | method (decl : MethodDecl)

structure ClassDecl where
  name : String
  modifiers : List Modifier
  markers : List Marker
  superClass : Option TypeRef
  interfaces : List TypeRef
  members : List Member

structure InterfaceDecl where
  name : String
  modifiers : List Modifier
  markers : List Marker
  supers : List TypeRef
  members : List Member

inductive TypeDecl where
  | classDecl (decl : ClassDecl)
  | interfaceDecl (decl : InterfaceDecl)

def TypeDecl.name : TypeDecl → String
  | classDecl c => c.name
  | interfaceDecl i => i.name

def ClassDecl.fields (c : ClassDecl) : List FieldDecl :=
  c.members.filterMap fun
    | .field f => some f
    | _ => none

def ClassDecl.constructors (c : ClassDecl) : List ConstructorDecl :=
  c.members.filterMap fun
    | .constructor k => some k
    | _ => none

def ClassDecl.methods (c : ClassDecl) : List MethodDecl :=
  c.members.filterMap fun
    | .method m => some m
    | _ => none

/-- What a compilation unit holds at its top. -/
inductive Item where
  | packageDecl (name : String)
  | importDecl (name : String)
  | doc (lines : List String)
  | typeDecl (decl : TypeDecl)
  | lineComment (text : String)
  | blockComment (lines : List String)

/-- The place of an item in a unit: items of a lower rank come first. -/
def Item.rank : Item → Nat
  | packageDecl _ => 0
  | importDecl _ => 1
  | doc _ => 2
  | typeDecl _ => 3
  | lineComment _ | blockComment _ => 100

/-- A comment behind the declaration of a unit. -/
inductive Comment where
  | line (text : String)
  | block (lines : List String)

def Comment.item : Comment → Item
  | line text => .lineComment text
  | block lines => .blockComment lines

/-- A source file: one type with the package it belongs to. -/
structure CompilationUnit where
  package : String
  imports : List String
  doc : Option (List String)
  decl : TypeDecl
  comments : List Comment

def CompilationUnit.items (u : CompilationUnit) : List Item :=
  .packageDecl u.package :: u.imports.map .importDecl ++ (u.doc.map .doc).toList ++
    .typeDecl u.decl :: u.comments.map Comment.item

def CompilationUnit.typeName (u : CompilationUnit) : String := u.decl.name

end JpaScaffold.Java
