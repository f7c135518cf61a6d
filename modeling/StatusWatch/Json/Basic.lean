import StatusWatch.OrderedMap

/-!
# JSON documents

A document is a tree of the usual kinds. Whole numbers and floats are kept apart,
because decoding tells them apart, and the fields of an object stand in
increasing key order, so documents that differ in the order of fields only are
equal.

- `Json`: the tree.
- `Json.mkObject`: an object from pairs in any order; the last of equal keys wins.
- `Json.field?`, `Json.setField`: read and overwrite one field of a field list.
- `Json.Canonical`: every object in the tree has increasing keys.
-/

namespace StatusWatch

/-- A JSON document. The fields of an object are in increasing key order. -/
inductive Json where
  | null
  | bool (b : Bool)
  | int (n : Int)
  | float (x : Float)
  | string (s : String)
  | array (items : List Json)
  | object (fields : List (String × Json))
deriving Inhabited

namespace Json

/-- The fields of an object, in increasing key order. -/
abbrev Fields := List (String × Json)

/-- The value of a field. -/
def field? (key : String) (fields : Fields) : Option Json := OrderedMap.find? key fields

/-- Overwrite a field, or add it at its place. -/
def setField (key : String) (value : Json) (fields : Fields) : Fields :=
  OrderedMap.place key value fields

/-- An object from pairs in any order; the last of several equal keys wins. -/
def mkObject (pairs : List (String × Json)) : Json :=
  .object (pairs.foldl (fun fields p => setField p.1 p.2 fields) [])

/-- The field of an object; nothing for any other document. -/
def get? (key : String) : Json → Option Json
  | .object fields => field? key fields
  | _ => none

mutual

/-- Every object inside the document has increasing keys. -/
def Canonical : Json → Prop
  | .array items => CanonicalItems items
  | .object fields => (fields.map (·.1)).Pairwise (· < ·) ∧ CanonicalFields fields
  | _ => True

def CanonicalItems : List Json → Prop
  | [] => True
  | item :: rest => item.Canonical ∧ CanonicalItems rest

def CanonicalFields : List (String × Json) → Prop
  | [] => True
  | (_, value) :: rest => value.Canonical ∧ CanonicalFields rest

end

end Json

end StatusWatch
