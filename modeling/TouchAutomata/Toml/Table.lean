import TouchAutomata.Data.Basic

/-!
# Tables in the making

The tables of a TOML document are filled in several places, and the rules say which of them may
still be extended. A table named by a header is closed to dotted keys and to a second header; a
table that only lies on the way to a header may still get one; a table made by dotted keys may
get more of them. A list of tables is extended at its last table. Values are closed.
-/

set_option autoImplicit false

namespace TouchAutomata.Toml

/-- How a table came to be. -/
inductive Origin where
  /-- By a header of its own. -/
  | header
  /-- On the way to a header. -/
  | passing
  /-- By dotted keys. -/
  | dotted
  deriving DecidableEq, Repr

/-- What stands under a key of a table in the making. -/
inductive Node where
  | value (data : Data)
  | table (origin : Origin) (fields : List (String × Node))
  /-- A list of tables: those that are complete, and the fields of the last. -/
  | tables (complete : List Data) (last : List (String × Node))

/-- The fields of a table in the making. -/
abbrev Fields := List (String × Node)

mutual

/-- The data of a node. -/
def Node.toData : Node → Data
  | .value data => data
  | .table _ fields => .record (fieldsToData fields)
  | .tables complete last => .list (complete ++ [.record (fieldsToData last)])

/-- The data of the fields of a table. -/
def fieldsToData : List (String × Node) → List (Option String × Data)
  | [] => []
  | (name, node) :: fields => (some name, node.toData) :: fieldsToData fields

end

namespace Fields

/-- The data of a table. -/
def toData (fields : Fields) : Data := .record (fieldsToData fields)

/-- Replaces what stands under a key; `f none` is what to put where nothing stands. -/
def alter (key : String) (f : Option Node → Option Node) : Fields → Option Fields
  | [] => (f none).map fun node => [(key, node)]
  | (name, node) :: fields =>
    if name = key then (f (some node)).map fun node => (name, node) :: fields
    else (alter key f fields).map ((name, node) :: ·)

/-- Changes the table at the end of a path of headers. -/
def within : List String → (Fields → Option Fields) → Fields → Option Fields
  | [], f => f
  | key :: path, f =>
    alter key fun
      | none => (within path f []).map (.table .passing)
      | some (.table origin fields) => (within path f fields).map (.table origin)
      | some (.tables complete last) => (within path f last).map (.tables complete)
      | some (.value _) => none

/-- Begins the table of a header. -/
def openTable (key : String) : Fields → Option Fields :=
  alter key fun
    | none => some (.table .header [])
    | some (.table .passing fields) => some (.table .header fields)
    | _ => none

/-- Begins another table of a list of tables. -/
def openElement (key : String) : Fields → Option Fields :=
  alter key fun
    | none => some (.tables [] [])
    | some (.tables complete last) => some (.tables (complete ++ [toData last]) [])
    | _ => none

/-- Puts a value under a dotted key. -/
def assign (data : Data) : List String → Fields → Option Fields
  | [] => fun _ => none
  | [key] =>
    alter key fun
      | none => some (.value data)
      | some _ => none
  | key :: next :: path =>
    alter key fun
      | none => (assign data (next :: path) []).map (.table .dotted)
      | some (.table origin fields) =>
        if origin = .header ∨ (path = [] ∧ origin ≠ .dotted) then none
        else (assign data (next :: path) fields).map (.table origin)
      | some (.tables complete last) =>
        if path = [] then none
        else (assign data (next :: path) last).map (.tables complete)
      | some (.value _) => none

/-- The table with values under dotted keys and no headers. -/
def ofAssignments (pairs : List (List String × Data)) : Option Fields :=
  pairs.foldlM (fun fields (path, data) => assign data path fields) []

end Fields

end TouchAutomata.Toml
