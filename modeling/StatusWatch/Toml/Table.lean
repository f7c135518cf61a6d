import StatusWatch.Settings.Value
import StatusWatch.Toml.Text

/-!
# TOML: the tables of a document

Headers and assignments may mention a table several times, but each table is
defined once and each value is given once. Whether a table may be written to
depends on how it came to be, so that is kept until the document is complete.

- `Origin`, `Node`: tables, lists of tables and values, as far as they are defined.
- `define`: a key with its value, inside one table.
- `openTable`, `appendTable`: what a header `[key]` or `[[key]]` does.
- `Node.setting`: the setting that a node stands for.
-/

namespace StatusWatch.Toml

/-- How a table came to be. -/
inductive Origin where
  /-- It has a header of its own. -/
  | header
  /-- A header of a table inside it mentions it. -/
  | mention
  /-- It is on the way of a key with dots. -/
  | dotted
deriving DecidableEq

/-- What is defined under a name. Fields are in increasing key order. -/
inductive Node where
  | value (v : Setting)
  | table (origin : Origin) (fields : List (String × Node))
  /-- The tables of headers in double brackets, the last one first. -/
  | tables (last : List (String × Node)) (before : List (List (String × Node)))

abbrev Fields := List (String × Node)

/-- A field under a name that is not taken. -/
def addNew (name : String) (node : Node) (fields : Fields) : Option Fields :=
  if (OrderedMap.find? name fields).isSome then none
  else some (OrderedMap.place name node fields)

/-! ## Assignments -/

/-- Define a value inside a table. Tables on the way are made where they are missing.
They must not have a header of their own, and the innermost one must not be
known from a header at all. -/
def define (value : Setting) (name : String) : List String → Fields → Option Fields
  | [], fields => addNew name (.value value) fields
  | [inner], fields =>
    match OrderedMap.find? inner fields with
    | none => some (OrderedMap.place inner (.table .dotted [(name, .value value)]) fields)
    | some (.table .dotted below) =>
      (addNew name (.value value) below).map fun below =>
        OrderedMap.place inner (.table .dotted below) fields
    | _ => none
  | outer :: path, fields =>
    match OrderedMap.find? outer fields with
    | none =>
      (define value name path []).map fun below =>
        OrderedMap.place outer (.table .dotted below) fields
    | some (.table .header _) => none
    | some (.table origin below) =>
      (define value name path below).map fun below =>
        OrderedMap.place outer (.table origin below) fields
    | some (.tables last before) =>
      (define value name path last).map fun last =>
        OrderedMap.place outer (.tables last before) fields
    | some (.value _) => none

/-- A key with its value. -/
abbrev Assignment := Key × Setting

/-- Define several values inside a table, one after another. -/
def defineAll (assignments : List Assignment) (fields : Fields) : Option Fields :=
  assignments.foldlM (fun fields a => define a.2 a.1.name a.1.path fields) fields

/-! ## Headers -/

/-- Change the table at a path. Tables on the way are made where they are missing; of a
list of tables the last one is meant. -/
def within (change : Fields → Option Fields) : List String → Fields → Option Fields
  | [], fields => change fields
  | outer :: path, fields =>
    match OrderedMap.find? outer fields with
    | none =>
      (within change path []).map fun below =>
        OrderedMap.place outer (.table .mention below) fields
    | some (.table origin below) =>
      (within change path below).map fun below =>
        OrderedMap.place outer (.table origin below) fields
    | some (.tables last before) =>
      (within change path last).map fun last =>
        OrderedMap.place outer (.tables last before) fields
    | some (.value _) => none

/-- Define the table of a header. It may be mentioned before, but not defined. -/
def openTable (key : Key) (body : List Assignment) : Fields → Option Fields :=
  within (fun fields =>
    let below := match OrderedMap.find? key.name fields with
      | none => some []
      | some (.table .mention below) => some below
      | _ => none
    (below.bind (defineAll body)).map fun below =>
      OrderedMap.place key.name (.table .header below) fields) key.path

/-- Define one more table of a list of tables. -/
def appendTable (key : Key) (body : List Assignment) : Fields → Option Fields :=
  within (fun fields =>
    let before := match OrderedMap.find? key.name fields with
      | none => some []
      | some (.tables last before) => some (last :: before)
      | _ => none
    before.bind fun before =>
      (defineAll body []).map fun last =>
        OrderedMap.place key.name (.tables last before) fields) key.path

/-! ## Complete documents -/

mutual

/-- The setting that a node stands for. -/
def Node.setting : Node → Setting
  | .value v => v
  | .table _ fields => .table (settings fields)
  | .tables last before => .list (itemSettings before [.table (settings last)])

def settings : List (String × Node) → List (String × Setting)
  | [] => []
  | (name, node) :: rest => (name, node.setting) :: settings rest

/-- The settings of tables, the last one first, in front of those that follow. -/
def itemSettings : List (List (String × Node)) → List Setting → List Setting
  | [], following => following
  | fields :: before, following => itemSettings before (.table (settings fields) :: following)

end

end StatusWatch.Toml
