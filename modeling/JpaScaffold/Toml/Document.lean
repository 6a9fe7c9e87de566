import JpaScaffold.Toml.Value

/-!
The tables that the lines of a document make. A table is opened once, by its header or by a dotted
name, and no value is given twice.
-/
namespace JpaScaffold.Toml

/-- A line of a document: a value under a dotted name, or the header of a table or of one more table
of a list. -/
inductive Line where
  | entry (key : List String) (value : Value)
  | table (path : List String)
  | tables (path : List String)

/-- How a table came about: by its own header, by the header of a table in it, or by a dotted
name. -/
inductive Origin where
  | header
  | implied
  | dotted
  deriving DecidableEq

/-- What stands under a name while a document is read. -/
inductive Node where
  | value (v : Value)
  | table (origin : Origin) (entries : List (String × Node))
  | tables (items : List (List (String × Node)))

abbrev Nodes := List (String × Node)

namespace Nodes

/-- The nodes with `n` under `key`, in place of what was there. -/
def set (key : String) (n : Node) : Nodes → Nodes
  | [] => [(key, n)]
  | e :: rest => if e.1 = key then (key, n) :: rest else e :: set key n rest

/-- Changes the table that a path leads to. Tables that are missing are implied; of a list of tables
the last one is meant. -/
def within (change : Nodes → Option Nodes) : List String → Nodes → Option Nodes
  | [], ns => change ns
  | key :: rest, ns =>
    match ns.lookup key with
    | none => (within change rest []).map fun inner => set key (.table .implied inner) ns
    | some (.value _) => none
    | some (.table origin inner) =>
      (within change rest inner).map fun inner => set key (.table origin inner) ns
    | some (.tables items) =>
      (items.getLast?.bind (within change rest)).map fun inner =>
        set key (.tables (items.dropLast ++ [inner])) ns

/-- Puts a value under a dotted name. The tables on the way are those that no header opened, and the
last of them is one that a dotted name opened. `origin` is that of the table at hand. -/
def insert (value : Value) : Origin → List String → Nodes → Option Nodes
  | _, [], _ => none
  | origin, [key], ns =>
    if origin = .implied ∨ (ns.lookup key).isSome then none else some (set key (.value value) ns)
  | _, key :: next :: rest, ns =>
    match ns.lookup key with
    | none =>
      (insert value .dotted (next :: rest) []).map fun inner => set key (.table .dotted inner) ns
    | some (.table origin inner) =>
      if origin = .header then none
      else
        (insert value origin (next :: rest) inner).map fun inner =>
          set key (.table origin inner) ns
    | _ => none

def openTable (key : String) (ns : Nodes) : Option Nodes :=
  match ns.lookup key with
  | none => some (set key (.table .header []) ns)
  | some (.table .implied inner) => some (set key (.table .header inner) ns)
  | _ => none

def openItem (key : String) (ns : Nodes) : Option Nodes :=
  match ns.lookup key with
  | none => some (set key (.tables [[]]) ns)
  | some (.tables items) => some (set key (.tables (items ++ [[]])) ns)
  | _ => none

/-- Changes the table that holds the last name of a path. -/
def atPath (change : String → Nodes → Option Nodes) (path : List String) (ns : Nodes) :
    Option Nodes :=
  path.getLast?.bind fun key => within (change key) path.dropLast ns

/-- The nodes behind the lines of a document, where `current` is the path of the table that the
last header opened. -/
def addLines (current : List String) (ns : Nodes) : List Line → Option Nodes
  | [] => some ns
  | .entry key value :: rest =>
    (within (insert value .header key) current ns).bind fun ns => addLines current ns rest
  | .table path :: rest => (atPath openTable path ns).bind fun ns => addLines path ns rest
  | .tables path :: rest => (atPath openItem path ns).bind fun ns => addLines path ns rest

end Nodes

mutual

def Node.toValue : Node → Value
  | .value v => v
  | .table _ entries => .table (tableOf entries)
  | .tables items => .array (tablesOf items)

def tableOf : List (String × Node) → Entries
  | [] => []
  | (key, n) :: rest => (key, n.toValue) :: tableOf rest

def tablesOf : List (List (String × Node)) → List Value
  | [] => []
  | entries :: rest => .table (tableOf entries) :: tablesOf rest

end

def ofLines (lines : List Line) : Option Entries := (Nodes.addLines [] [] lines).map tableOf

/-- The table that the entries between braces make. -/
def ofEntries (entries : List (List String × Value)) : Option Entries :=
  (entries.foldlM (fun ns e => Nodes.insert e.2 .header e.1 ns) []).map tableOf

end JpaScaffold.Toml
