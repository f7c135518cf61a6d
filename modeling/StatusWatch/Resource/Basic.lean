import StatusWatch.Condition.Wire
import StatusWatch.ConditionTypes
import StatusWatch.ObjectMeta

/-!
# Resources that carry conditions

- `StatusObject`: metadata, kind, schema and condition list, with its wire format.
- `Resource`: such an object together with where it came from, either made as a typed
  object or adapted from a document, and with the condition types that its store
  loses on every write.
- `Resource.setConditions`: the only way to write the list.
-/

namespace StatusWatch

/-! ## Objects -/

/-- Metadata, kind, schema and conditions. -/
structure StatusObject where
  metadata : ObjectMeta
  groupKind : GroupKind
  conditionTypes : ConditionTypes
  conditions : List Condition
deriving DecidableEq, Inhabited

namespace StatusObject

def encode (o : StatusObject) : Json :=
  .object
    [("conditionTypes", o.conditionTypes.encode),
      ("conditions", Condition.encodeAll o.conditions),
      ("groupKind", o.groupKind.encode),
      ("metadata", o.metadata.encode)]

/-- How objects are called in messages. -/
def shape : Decoder.Shape := ⟨"StatusObject", 4⟩

def decodeFields (fields : Json.Fields) : Except DecodeError StatusObject := do
  let types ← Decoder.optional fields "conditionTypes" ConditionTypes.decode
  let conditions ← Decoder.optional fields "conditions" (Decoder.list Condition.decode)
  let groupKind ← Decoder.optional fields "groupKind" GroupKind.decode
  let metadata ← Decoder.optional fields "metadata" ObjectMeta.decode
  let metadata ← Decoder.required "metadata" metadata
  let groupKind ← Decoder.required "groupKind" groupKind
  let conditionTypes ← Decoder.required "conditionTypes" types
  return { metadata, groupKind, conditionTypes, conditions := conditions.getD [] }

def decodeItems (js : List Json) : Except DecodeError StatusObject := do
  let metadata ← Decoder.element shape 0 js ObjectMeta.decode
  let groupKind ← Decoder.element shape 1 js GroupKind.decode
  let conditionTypes ← Decoder.element shape 2 js ConditionTypes.decode
  let conditions ← Decoder.elementOr [] 3 js (Decoder.list Condition.decode)
  return { metadata, groupKind, conditionTypes, conditions }

def decode : Decoder StatusObject := Decoder.record shape decodeFields decodeItems

/-- Forget every occurrence of a finalizer; tells whether there was one. -/
def removeFinalizer (o : StatusObject) (finalizer : String) : StatusObject × Bool :=
  let kept := o.metadata.finalizers.filter (· ≠ finalizer)
  ({ o with metadata := { o.metadata with finalizers := kept } },
    kept.length ≠ o.metadata.finalizers.length)

def addFinalizer (o : StatusObject) (finalizer : String) : StatusObject :=
  { o with metadata := { o.metadata with finalizers := o.metadata.finalizers ++ [finalizer] } }

def setLabel (o : StatusObject) (key value : String) : StatusObject :=
  { o with metadata := { o.metadata with labels := o.metadata.labels.insert key value } }

def setGeneration (o : StatusObject) (generation : Int64) : StatusObject :=
  { o with metadata := { o.metadata with generation } }

def setDeleted (o : StatusObject) (deleted : Option Instant) : StatusObject :=
  { o with metadata := { o.metadata with deleted } }

/-- Mark the object as terminating; the first mark stays. -/
def markDeleted (o : StatusObject) (at_ : Instant) : StatusObject :=
  o.setDeleted (some (o.metadata.deleted.getD at_))

end StatusObject

/-! ## Resources -/

/-- Where a resource came from. -/
inductive Origin where
  /-- Made as a typed object. -/
  | typed
  /-- Adapted from a document, which is kept as it was. -/
  | document (payload : Json)
deriving Inhabited

/-- A resource that carries conditions. -/
structure Resource extends StatusObject where
  origin : Origin
  /-- Condition types that are lost whenever the list is written. -/
  lost : List String
deriving Inhabited

namespace Resource

/-- A typed object as a resource that loses nothing. -/
def ofObject (o : StatusObject) : Resource := { o with origin := .typed, lost := [] }

def key (r : Resource) : ResourceKey := r.metadata.key

/-- Replace the condition list, up to the types that are lost. -/
def setConditions (r : Resource) (conditions : List Condition) : Resource :=
  { r with conditions := conditions.filter fun c => !r.lost.contains c.type }

end Resource

end StatusWatch
