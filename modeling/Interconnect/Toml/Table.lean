import Interconnect.Collection.OrderedMap
import Interconnect.Toml.Value

/-!
# Building tables

A document builds its tables piece by piece, and where a table comes from decides what may
still be added to it.  A table that a header names is complete with its section.  A table
that only stands on the way to a header can get a header of its own later.  A table that
dotted keys made takes further dotted keys, and no header.
-/

namespace Interconnect.Toml

/-- Where a table comes from. -/
inductive Origin where
  /-- A header names it. -/
  | header
  /-- It lies on the way to a header. -/
  | implied
  /-- It lies on the way to a dotted key. -/
  | dotted
  deriving DecidableEq

/-- What stands under a key while the document is read. -/
inductive Node where
  /-- A value, to which nothing is added. -/
  | leaf (v : Value)
  | table (origin : Origin) (entries : List (String × Node))
  /-- An array of tables; only the last one is open. -/
  | tables (earlier : List Value) (last : List (String × Node))

/-- The entries of a table that is being read. -/
abbrev Entries := List (String × Node)

mutual

/-- The value that a node has come to. -/
def Node.close : Node → Value
  | .leaf v => v
  | .table _ entries => .table (closeAll entries)
  | .tables earlier last => .array (earlier ++ [.table (closeAll last)])

/-- The values that entries have come to. -/
def closeAll : List (String × Node) → List (String × Value)
  | [] => []
  | (key, node) :: rest => (key, node.close) :: closeAll rest

end

/-- Follows a path of keys and changes the entries at its end.  Tables that are missing are
made with the given origin.  The change is told whether the table at the end was made by
dotted keys, starting with `isDotted`. -/
def descend (origin : Origin) (change : Bool → Entries → Option Entries) :
    List String → Bool → Entries → Option Entries
  | [], isDotted, entries => change isDotted entries
  | key :: path, _, entries =>
    match entries.lookup key with
    | none =>
      (descend origin change path (origin = .dotted) []).map fun inner =>
        OrderedMap.put entries key (.table origin inner)
    | some (.leaf _) => none
    | some (.tables earlier last) =>
      (descend origin change path false last).map fun last =>
        OrderedMap.put entries key (.tables earlier last)
    | some (.table made inner) =>
      if origin = .dotted && made = .header then none
      else
        (descend origin change path (made = .dotted) inner).map fun inner =>
          OrderedMap.put entries key (.table made inner)

/-- A value under a dotted key; the path holds all parts of the key but the last. -/
structure Pair where
  path : List String
  key : String
  value : Value

/-- Adds a pair to a table.  A key is written once, and a dotted key extends only tables
that dotted keys made. -/
def addPair (entries : Entries) (pair : Pair) : Option Entries :=
  descend .dotted
    (fun isDotted entries =>
      if isDotted = pair.path.isEmpty then none
      else if (entries.lookup pair.key).isSome then none
      else some (entries ++ [(pair.key, .leaf pair.value)]))
    pair.path false entries

/-- Adds several pairs, one after the other. -/
def addPairs (entries : Entries) (pairs : List Pair) : Option Entries :=
  pairs.foldlM addPair entries

/-- The table of some pairs. -/
def Value.ofPairs? (pairs : List Pair) : Option Value :=
  (addPairs [] pairs).map fun entries => .table (closeAll entries)

/-- What opens a section of a document. -/
inductive Header where
  /-- The table under a path; `key` is its last part. -/
  | table (path : List String) (key : String)
  /-- Another table of the array under a path. -/
  | array (path : List String) (key : String)

/-- Adds the section under a header. -/
def addSection (root : Entries) (header : Header) (pairs : List Pair) : Option Entries :=
  match header with
  | .table path key =>
    descend .implied
      (fun _ parent => do
        let before ← match parent.lookup key with
          | none => some []
          | some (.table .implied entries) => some entries
          | some _ => none
        let entries ← addPairs before pairs
        return OrderedMap.put parent key (.table .header entries))
      path false root
  | .array path key =>
    descend .implied
      (fun _ parent => do
        let earlier ← match parent.lookup key with
          | none => some []
          | some (.tables earlier last) => some (earlier ++ [.table (closeAll last)])
          | some _ => none
        let entries ← addPairs [] pairs
        return OrderedMap.put parent key (.tables earlier entries))
      path false root

end Interconnect.Toml
