import StatusWatch.Decoding

/-!
# Condition schemas

The conditions that a kind of resource declares: one root and the dependents that
the root is derived from.

- `ConditionTypes`: the schema.
- `ConditionTypes.of`: a schema from any list of dependents. Repeated dependents are
  dropped after the first, and the root is never its own dependent.
- `ConditionTypes.all`: the declared types, the root last.
-/

namespace StatusWatch

/-- A condition schema. -/
structure ConditionTypes where
  root : String
  dependents : List String
deriving DecidableEq, Inhabited

namespace ConditionTypes

/-- The conventional root type. -/
def conventionalRoot : String := "Ready"

/-- Drop repetitions after the first occurrence. -/
def distinct : List String → List String → List String
  | _, [] => []
  | seen, d :: ds => if d ∈ seen then distinct seen ds else d :: distinct (d :: seen) ds

/-- The schema with the given root and dependents, repetitions and the root dropped. -/
def of (root : String) (dependents : List String) : ConditionTypes :=
  ⟨root, distinct [root] dependents⟩

/-- The schema with the conventional root. -/
def ready (dependents : List String) : ConditionTypes := of conventionalRoot dependents

def isRoot (t : ConditionTypes) (type : String) : Bool := t.root = type

def isDependent (t : ConditionTypes) (type : String) : Bool := t.dependents.contains type

/-- Whether the schema declares the type. -/
def contains (t : ConditionTypes) (type : String) : Bool := t.isRoot type || t.isDependent type

/-- The declared types, dependents first. -/
def all (t : ConditionTypes) : List String := t.dependents ++ [t.root]

def encode (t : ConditionTypes) : Json :=
  .object [("dependents", .array (t.dependents.map .string)), ("root", .string t.root)]

/-- Read a schema as it is written, repetitions included. -/
def decode : Decoder ConditionTypes :=
  let shape : Decoder.Shape := ⟨"ConditionTypes", 2⟩
  Decoder.record shape
    (fun fields => do
      let dependents ← Decoder.optional fields "dependents" (Decoder.list Decoder.string)
      let root ← Decoder.optional fields "root" Decoder.string
      let root ← Decoder.required "root" root
      let dependents ← Decoder.required "dependents" dependents
      return ⟨root, dependents⟩)
    (fun js => do
      let root ← Decoder.element shape 0 js Decoder.string
      let dependents ← Decoder.element shape 1 js (Decoder.list Decoder.string)
      return ⟨root, dependents⟩)

end ConditionTypes

end StatusWatch
