import StatusWatch.ResourceKey

/-!
# Object metadata

What the observer reads of a resource besides its conditions: identity, generation,
creation and deletion times, finalizers and labels.

- `Labels`: a map from names to values.
- `ObjectMeta`: the metadata; `ObjectMeta.of` makes those of a new object.
- `ObjectMeta.encode`, `ObjectMeta.decode`: the wire format. Only the name is required;
  a deletion time, finalizers and labels are written only when there are some.
-/

namespace StatusWatch

/-- Names with their values. -/
abbrev Labels := OrderedMap String String

/-- Metadata of an object. -/
structure ObjectMeta where
  ns : String
  name : String
  uid : String
  /-- Counts the changes of the specification. -/
  generation : Int64
  created : Instant
  /-- When deletion was requested. -/
  deleted : Option Instant
  /-- Holds that must be cleared before the resource is removed. -/
  finalizers : List String
  labels : Labels
deriving DecidableEq, Inhabited

namespace ObjectMeta

/-- Metadata of an object created now. -/
def of (now : Instant) (ns name : String) : ObjectMeta :=
  { ns, name, uid := "", generation := 0, created := now, deleted := none, finalizers := [],
    labels := ∅ }

def key (m : ObjectMeta) : ResourceKey := ⟨m.ns, m.name⟩

def isTerminating (m : ObjectMeta) : Bool := m.deleted.isSome

end ObjectMeta

def Labels.encode (labels : Labels) : Json :=
  .object (labels.entries.map fun e => (e.1, .string e.2))

namespace ObjectMeta

def encode (m : ObjectMeta) : Json :=
  .object <|
    [("creationTimestamp", .string m.created.render)] ++
    (match m.deleted with
      | some t => [("deletionTimestamp", .string t.render)]
      | none => []) ++
    (if m.finalizers = [] then [] else [("finalizers", .array (m.finalizers.map .string))]) ++
    [("generation", .int m.generation.toInt)] ++
    (if m.labels.isEmpty then [] else [("labels", m.labels.encode)]) ++
    [("name", .string m.name), ("namespace", .string m.ns), ("uid", .string m.uid)]

/-- How metadata are called in messages. -/
def shape : Decoder.Shape := ⟨"ObjectMeta", 8⟩

def decodeFields (fields : Json.Fields) : Except DecodeError ObjectMeta := do
  let created ← Decoder.optional fields "creationTimestamp" Decoder.instant
  let deleted ← Decoder.optional fields "deletionTimestamp" (Decoder.nullable Decoder.instant)
  let finalizers ← Decoder.optional fields "finalizers" (Decoder.list Decoder.string)
  let generation ← Decoder.optional fields "generation" Decoder.int64
  let labels ← Decoder.optional fields "labels" (Decoder.map Decoder.string)
  let name ← Decoder.optional fields "name" Decoder.string
  let ns ← Decoder.optional fields "namespace" Decoder.string
  let uid ← Decoder.optional fields "uid" Decoder.string
  let name ← Decoder.required "name" name
  return {
    ns := ns.getD ""
    name
    uid := uid.getD ""
    generation := generation.getD 0
    created := created.getD Instant.epoch
    deleted := deleted.getD none
    finalizers := finalizers.getD []
    labels := labels.getD ∅ }

def decodeItems (js : List Json) : Except DecodeError ObjectMeta := do
  let ns ← Decoder.elementOr "" 0 js Decoder.string
  let name ← Decoder.element shape 1 js Decoder.string
  let uid ← Decoder.elementOr "" 2 js Decoder.string
  let generation ← Decoder.elementOr 0 3 js Decoder.int64
  let created ← Decoder.elementOr Instant.epoch 4 js Decoder.instant
  let deleted ← Decoder.elementOr none 5 js (Decoder.nullable Decoder.instant)
  let finalizers ← Decoder.elementOr [] 6 js (Decoder.list Decoder.string)
  let labels ← Decoder.elementOr ∅ 7 js (Decoder.map Decoder.string)
  return { ns, name, uid, generation, created, deleted, finalizers, labels }

def decode : Decoder ObjectMeta := Decoder.record shape decodeFields decodeItems

end ObjectMeta

end StatusWatch
