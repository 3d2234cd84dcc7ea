import BuildRules.Document

/-!
# Tables under construction

Statements of a text fill one tree of tables. A header names a table, or one more table of a list,
and the assignments after it fill that table; a dotted key goes through further tables. A table is
filled by one header only, and which tables a header or a dotted key may go through depends on how
they came about.
-/

namespace BuildRules.Toml

/-- How a table came about. -/
inductive Origin
  /-- It has a header of its own. -/
  | header
  /-- It lies on the way to the table of a header. -/
  | implied
  /-- It lies on the way of a dotted key. -/
  | dotted
  deriving DecidableEq

inductive Node
  /-- A value, which nothing can be added to. -/
  | value (document : Document)
  | table (origin : Origin) (entries : List (String × Node))
  /-- A list of tables, each with a header; only the last can be added to. -/
  | tables (front : List (List (String × Node))) (last : List (String × Node))

abbrev Branches := List (String × Node)

/-- The branches with a node under a key, in place of any there. -/
def Branches.put (key : String) (node : Node) : Branches → Branches
  | [] => [(key, node)]
  | e :: rest => if e.1 = key then (key, node) :: rest else e :: put key node rest

/-- Changes the branches at the end of a path. Tables that are missing on the way are implied. -/
def changeAt (change : Branches → Option Branches) :
    (path : List String) → Branches → Option Branches
  | [], branches => change branches
  | key :: path, branches =>
    match branches.lookup key with
    | none => do
      return branches.put key (.table .implied (← changeAt change path []))
    | some (.value _) => none
    | some (.table origin inner) => do
      return branches.put key (.table origin (← changeAt change path inner))
    | some (.tables front last) => do
      return branches.put key (.tables front (← changeAt change path last))

/-- Gives a table its header. Only an implied table may be there already. -/
def openTable (key : String) (branches : Branches) : Option Branches :=
  match branches.lookup key with
  | none => some (branches.put key (.table .header []))
  | some (.table .implied inner) => some (branches.put key (.table .header inner))
  | _ => none

/-- Adds a table to a list of tables. -/
def openNext (key : String) (branches : Branches) : Option Branches :=
  match branches.lookup key with
  | none => some (branches.put key (.tables [] []))
  | some (.tables front last) => some (branches.put key (.tables (front ++ [last]) []))
  | _ => none

/-- Assigns a value to a key that is reached through the tables of a dotted key. The last of these
must be of the dotted kind, and none may have a header. -/
def assign (key : String) (value : Document) : (through : List String) → Branches → Option Branches
  | [], branches =>
    match branches.lookup key with
    | none => some (branches.put key (.value value))
    | some _ => none
  | step :: through, branches =>
    match branches.lookup step with
    | none => do
      return branches.put step (.table .dotted (← assign key value through []))
    | some (.value _) => none
    | some (.table .header _) => none
    | some (.table .dotted inner) => do
      return branches.put step (.table .dotted (← assign key value through inner))
    | some (.table .implied inner) =>
      if through = [] then none
      else do return branches.put step (.table .implied (← assign key value through inner))
    | some (.tables front last) =>
      if through = [] then none
      else do return branches.put step (.tables front (← assign key value through last))

mutual

def Node.toDocument : Node → Document
  | .value document => document
  | .table _ entries => .table (entriesToDocuments entries)
  | .tables front last => .list (tablesToDocuments front ++ [.table (entriesToDocuments last)])

def entriesToDocuments : List (String × Node) → List (String × Document)
  | [] => []
  | (key, node) :: rest => (key, node.toDocument) :: entriesToDocuments rest

def tablesToDocuments : List (List (String × Node)) → List Document
  | [] => []
  | entries :: rest => .table (entriesToDocuments entries) :: tablesToDocuments rest

end

/-- The table of some branches. -/
def Branches.toDocument (branches : Branches) : Document := .table (entriesToDocuments branches)

end BuildRules.Toml
