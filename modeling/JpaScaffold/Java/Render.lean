import JpaScaffold.Java.Tree
import JpaScaffold.Text.Trim

/-!
The text of Java trees, as lines without indentation and without empty lines between them: one
construct to a line.
-/
namespace JpaScaffold.Java

/-- The modifiers in front of a declaration, each with a space behind it. -/
def modifierText (ms : List Modifier) : String :=
  String.join ((Modifier.canonical ms).map fun m => m.word ++ " ")

def escapedChar : Char → List Char
  | '"' => ['\\', '"']
  | '\\' => ['\\', '\\']
  | '\n' => ['\\', 'n']
  | '\t' => ['\\', 't']
  | c => [c]

def escaped (s : String) : String := Text.mapChars (·.flatMap escapedChar) s

def commaList (parts : List String) : String := ", ".intercalate parts

mutual

def AttributeValue.text : AttributeValue → String
  | .string value => "\"" ++ escaped value ++ "\""
  | .verbatim value => value
  | .classOf type => type.text ++ ".class"
  | .array values => "\x7b" ++ commaList (AttributeValue.texts values) ++ "\x7d"

def AttributeValue.texts : List AttributeValue → List String
  | [] => []
  | v :: rest => v.text :: AttributeValue.texts rest

end

/-- The text of an annotation. A lone attribute named `value` is written without its name. -/
def Marker.text (a : Marker) : String :=
  let named := fun (x : Attribute) => x.key ++ " = " ++ x.value.text
  match a.attributes with
  | [] => "@" ++ a.name
  | [only] =>
    "@" ++ a.name ++ "(" ++ (if only.key = "value" then only.value.text else named only) ++ ")"
  | attributes => "@" ++ a.name ++ "(" ++ commaList (attributes.map named) ++ ")"

/-- The text of a parameter list without its parentheses. -/
def parameterText (ps : List Parameter) : String :=
  commaList (ps.map fun p => p.type.text ++ " " ++ p.name)

/-- A header, the lines between braces, and the closing brace. -/
def braced (header : String) (lines : List String) : List String :=
  (header ++ " \x7b") :: lines ++ ["\x7d"]

mutual

def Statement.lines : Statement → List String
  | .expression text => [text ++ ";"]
  | .block statements => "\x7b" :: Statement.listLines statements ++ ["\x7d"]

def Statement.listLines : List Statement → List String
  | [] => []
  | s :: rest => s.lines ++ Statement.listLines rest

end

def FieldDecl.lines (f : FieldDecl) : List String :=
  let value := match f.initialValue with
    | some v => " = " ++ v
    | none => ""
  f.markers.map Marker.text ++
    [modifierText f.modifiers ++ f.type.text ++ " " ++ f.name ++ value ++ ";"]

def ConstructorDecl.lines (c : ConstructorDecl) : List String :=
  braced (modifierText c.modifiers ++ c.name ++ "(" ++ parameterText c.parameters ++ ")")
    (Statement.listLines c.body)

def MethodDecl.lines (m : MethodDecl) : List String :=
  let header :=
    modifierText m.modifiers ++ m.returnType.text ++ " " ++ m.name ++ "(" ++
      parameterText m.parameters ++ ")"
  m.markers.map Marker.text ++
    match m.body with
    | some body => braced header (Statement.listLines body)
    | none => [header ++ ";"]

def Member.lines : Member → List String
  | .field f => f.lines
  | .constructor c => c.lines
  | .method m => m.lines

/-- A keyword and the types behind it, or nothing if there are none. -/
def superText (keyword : String) (types : List TypeRef) : String :=
  if types.isEmpty then "" else " " ++ keyword ++ " " ++ commaList (types.map TypeRef.text)

def ClassDecl.lines (c : ClassDecl) : List String :=
  c.markers.map Marker.text ++
    braced
      (modifierText c.modifiers ++ "class " ++ c.name ++ superText "extends" c.superClass.toList ++
        superText "implements" c.interfaces)
      (c.members.flatMap Member.lines)

def InterfaceDecl.lines (i : InterfaceDecl) : List String :=
  i.markers.map Marker.text ++
    braced (modifierText i.modifiers ++ "interface " ++ i.name ++ superText "extends" i.supers)
      (i.members.flatMap Member.lines)

def TypeDecl.lines : TypeDecl → List String
  | .classDecl c => c.lines
  | .interfaceDecl i => i.lines

def Item.lines : Item → List String
  | packageDecl name => ["package " ++ name ++ ";"]
  | importDecl name => ["import " ++ name ++ ";"]
  | doc lines => "/**" :: lines.map (fun l => Text.mapChars Text.trimEnd (" * " ++ l)) ++ [" */"]
  | typeDecl decl => decl.lines
  | lineComment text => ["// " ++ text]
  | blockComment lines => "/*" :: lines.map (" " ++ ·) ++ [" */"]

/-- The lines of a unit: its items by rank, those of one rank in their order. -/
def CompilationUnit.lines (u : CompilationUnit) : List String :=
  (u.items.mergeSort fun a b => a.rank ≤ b.rank).flatMap Item.lines

/-- The text of a unit, with a line feed behind every line. -/
def CompilationUnit.text (u : CompilationUnit) : String :=
  String.join (u.lines.map (· ++ "\n"))

end JpaScaffold.Java
