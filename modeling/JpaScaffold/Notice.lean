/-!
What the generator reports while it works.
-/
namespace JpaScaffold

inductive Level where
  | info
  | warn
  | error
  deriving DecidableEq

/-- A report with its level. -/
structure Notice where
  level : Level
  message : String
  deriving DecidableEq

end JpaScaffold
