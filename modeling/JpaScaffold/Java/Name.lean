import JpaScaffold.Java.BuildError
import JpaScaffold.Text.Letters

/-!
Simple and dotted names. Reading a name either refuses it or returns it as it stands.
-/
namespace JpaScaffold.Java

def isNameStart (c : Char) : Bool := Text.isAlphabetic c || c == '_' || c == '$'

def isNameChar (c : Char) : Bool := Text.isAlphanumeric c || c == '_' || c == '$'

def isSimpleName : List Char → Bool
  | [] => false
  | c :: rest => isNameStart c && rest.all isNameChar

/-- Simple names, of which the last but not the only one may be a star. -/
def areSegments : List (List Char) → Bool
  | [] => true
  | [last] => isSimpleName last || last == ['*']
  | s :: rest => isSimpleName s && areSegments rest

/-- A dotted name: simple names with points between them, with a star as its last segment at will.
-/
def isQualifiedName (name : List Char) : Bool :=
  match name.splitOnP (· == '.') with
  | [only] => isSimpleName only
  | segments => areSegments segments

def simpleName (role : Role) (name : String) : Except BuildError String :=
  if name.isEmpty then .error (.emptyName role)
  else if isSimpleName name.toList then .ok name
  else .error (.invalidName role name)

def qualifiedName (role : Role) (name : String) : Except BuildError String :=
  if name.isEmpty then .error (.emptyName role)
  else if isQualifiedName name.toList then .ok name
  else .error (.invalidName role name)

end JpaScaffold.Java
