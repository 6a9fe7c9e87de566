/-!
The values of a configuration text.
-/
namespace JpaScaffold.Toml

/-- A value. Of numbers with a point and of dates nothing is kept. -/
inductive Value where
  | string (text : String)
  | integer (n : Int)
  | float
  | boolean (b : Bool)
  | date
  | array (items : List Value)
  | table (entries : List (String × Value))

abbrev Entries := List (String × Value)

namespace Value

def string? : Value → Option String
  | string text => some text
  | _ => none

def natural? : Value → Option Nat
  | integer n => if n < 0 then none else some n.toNat
  | _ => none

def table? : Value → Option Entries
  | table entries => some entries
  | _ => none

def strings? : Value → Option (List String)
  | array items => items.mapM string?
  | _ => none

def isTable : Value → Bool
  | table _ => true
  | _ => false

end Value

end JpaScaffold.Toml
