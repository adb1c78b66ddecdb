/-! TOML values and the tables of a document as they are being read. A table remembers how
it came to be: named by a header, made on the way to a deeper header, or made by a dotted
key. That decides what may still be added: a header names a table once, a dotted key only
extends tables made by dotted keys, and no key is given twice. -/
namespace ItemFlow.Toml

/-- A TOML value. Floats and date-times are kept as their text. -/
inductive Value where
  | string (s : String)
  | integer (n : Int)
  | float (text : String)
  | boolean (b : Bool)
  | datetime (text : String)
  | array (items : List Value)
  | table (entries : List (String × Value))
deriving Repr, Inhabited

/-- How a table came to be. -/
inductive Origin where
  | header
  | implicit
  | dotted
deriving DecidableEq, Repr

/-- An entry of a table under construction. -/
inductive Node where
  | leaf (v : Value)
  | table (origin : Origin) (entries : List (String × Node))
  | tables (items : List (List (String × Node)))
deriving Repr, Inhabited

/-- Entries of a table under construction. -/
abbrev Entries := List (String × Node)

namespace Entries

def find? (es : Entries) (k : String) : Option Node := (es.lookup k)

/-- Set the entry of a key: in its place when present, else last. -/
def set (es : Entries) (k : String) (n : Node) : Entries :=
  if es.any (·.1 == k) then es.map fun (k', n') => if k' == k then (k', n) else (k', n')
  else es ++ [(k, n)]

def modifyLast (items : List Entries) (f : Entries → Option Entries) : Option (List Entries) :=
  match items.getLast? with
  | some last => (f last).map fun l => items.dropLast ++ [l]
  | none => none

/-- Change the table that a header path names, stepping into the last table of each array
of tables on the way. The path must lead through tables only. -/
def under (f : Entries → Option Entries) : List String → Entries → Option Entries
  | [], es => f es
  | k :: ks, es =>
    match es.find? k with
    | some (.table o sub) => (under f ks sub).map fun sub => es.set k (.table o sub)
    | some (.tables items) => (modifyLast items (under f ks)).map fun items => es.set k (.tables items)
    | _ => none

/-- Walk to the parent of a header's table, making missing tables on the way, and apply
`f` to the entries there. -/
def toParent (f : Entries → Option Entries) : List String → Entries → Option Entries
  | [], es => f es
  | k :: ks, es =>
    match es.find? k with
    | none => (toParent f ks []).map fun sub => es.set k (.table .implicit sub)
    | some (.table o sub) => (toParent f ks sub).map fun sub => es.set k (.table o sub)
    | some (.tables items) => (modifyLast items (toParent f ks)).map fun items => es.set k (.tables items)
    | some (.leaf _) => none

/-- Name a table by a header: a new table, or one made only on the way to a deeper header. -/
def openTable (path : List String) (es : Entries) : Option Entries :=
  match path.getLast? with
  | none => none
  | some k =>
    toParent (fun es => match es.find? k with
      | none => some (es.set k (.table .header []))
      | some (.table .implicit sub) => some (es.set k (.table .header sub))
      | _ => none) path.dropLast es

def openArray (path : List String) (es : Entries) : Option Entries :=
  match path.getLast? with
  | none => none
  | some k =>
    toParent (fun es => match es.find? k with
      | none => some (es.set k (.tables [[]]))
      | some (.tables items) => some (es.set k (.tables (items ++ [[]])))
      | _ => none) path.dropLast es

/-- Give a dotted key a value, making tables for its leading parts; a part may only pass
through a table made by a dotted key, and the key must be new. -/
def assign (v : Value) : List String → Entries → Option Entries
  | [], _ => none
  | [k], es => if (es.find? k).isSome then none else some (es.set k (.leaf v))
  | k :: ks, es =>
    match es.find? k with
    | none => (assign v ks []).map fun sub => es.set k (.table .dotted sub)
    | some (.table .dotted sub) => (assign v ks sub).map fun sub => es.set k (.table .dotted sub)
    | _ => none

end Entries

mutual
def Node.value : Node → Value
  | .leaf v => v
  | .table _ es => .table (Node.entryValues es)
  | .tables items => .array (Node.tableValues items)

def Node.entryValues : List (String × Node) → List (String × Value)
  | [] => []
  | (k, n) :: rest => (k, n.value) :: Node.entryValues rest

def Node.tableValues : List (List (String × Node)) → List Value
  | [] => []
  | es :: rest => .table (Node.entryValues es) :: Node.tableValues rest
end

end ItemFlow.Toml
