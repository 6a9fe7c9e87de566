import JpaScaffold.Text.Quoted
import JpaScaffold.Text.Trim

/-!
What can be wrong with the parts that a Java tree is put together from.
-/
namespace JpaScaffold.Java

/-- What a name, a list of modifiers or a statement is for. -/
inductive Role where
  | field
  | method
  | parameter
  | constructor
  | classType
  | interfaceType
  | annotationType
  | attributeKey
  | packageName
  | importName
  | typeName
  | initialValue
  deriving DecidableEq

def Role.label : Role → String
  | field => "field"
  | method => "method"
  | parameter => "parameter"
  | constructor => "constructor"
  | classType => "class"
  | interfaceType => "interface"
  | annotationType => "annotation"
  | attributeKey => "annotation attribute"
  | packageName => "package"
  | importName => "import"
  | typeName => "type"
  | initialValue => "field initializer"

/-- The causes for which a part is refused. -/
inductive BuildError where
  | emptyName (role : Role)
  | invalidName (role : Role) (name : String)
  | noModifiers (role : Role)
  | emptyStatement (role : Role)
  | secondSuperClass (className : String)
  | secondPackage
  | secondDoc
  | noPackage
  | noType
  | twoTypes (className interfaceName : String)
  deriving DecidableEq

def BuildError.message : BuildError → String
  | emptyName role => role.label ++ " identifier cannot be empty"
  | invalidName role name =>
    "invalid " ++ role.label ++ " identifier: " ++ Text.mapChars Text.quoted name
  | noModifiers role => role.label ++ " modifiers must be a non-empty list"
  | emptyStatement role => role.label ++ " statement cannot be empty"
  | secondSuperClass name => "class " ++ name ++ " already has a super class"
  | secondPackage => "package declaration is already set"
  | secondDoc => "doc comment is already set"
  | noPackage => "compilation unit has no package declaration"
  | noType => "compilation unit has no class or interface declaration"
  | twoTypes className interfaceName =>
    "compilation unit declares both class " ++ className ++ " and interface " ++ interfaceName

end JpaScaffold.Java
