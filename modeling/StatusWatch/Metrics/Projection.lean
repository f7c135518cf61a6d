import StatusWatch.ObjectMeta

/-!
# Projected labels

Chosen labels of a resource are copied onto its metrics. A label key becomes a metric
label name by replacing what names may not contain; keys that become the same name are
merged, and the first one configured gives the value.

- `projectedPrefix`, `projectedName`: the label name of a key.
- `LabelProjection`: the chosen keys with their names.
- `LabelProjection.project`: the labels copied from a resource.
-/

namespace StatusWatch

/-- What the names of all projected labels start with. -/
def projectedPrefix : String := "label_"

/-- A letter, a digit or an underscore. -/
def isNameChar (c : Char) : Bool := c.isAlphanum || c = '_'

/-- The metric label name of a resource label key. -/
def projectedName (key : String) : String :=
  String.ofList
    (projectedPrefix.toList ++ key.toList.map fun c => if isNameChar c then c else '_')

/-- Whether a label name is that of a projected label. -/
def isProjectedName (name : String) : Bool := projectedPrefix.toList.isPrefixOf name.toList

/-- Resource label keys with their metric label names, in configuration order. -/
structure LabelProjection where
  entries : List (String × String)
deriving DecidableEq, Inhabited

namespace LabelProjection

/-- Keep the first key of every name; `seen` holds the names that are taken. -/
def distinctNames : List String → List String → List (String × String)
  | _, [] => []
  | seen, key :: keys =>
    let name := projectedName key
    if name ∈ seen then distinctNames seen keys
    else (key, name) :: distinctNames (name :: seen) keys

/-- The projection of the given keys. -/
def of (keys : List String) : LabelProjection := ⟨distinctNames [] keys⟩

def isEmpty (p : LabelProjection) : Bool := p.entries.isEmpty

/-- The metric label names, in configuration order. -/
def labelNames (p : LabelProjection) : List String := p.entries.map (·.2)

/-- The labels copied from a resource; a key that it lacks gives an empty value. -/
def project (p : LabelProjection) (labels : Labels) : Labels :=
  OrderedMap.ofList (p.entries.map fun e => (e.2, (labels.get? e.1).getD ""))

end LabelProjection

end StatusWatch
