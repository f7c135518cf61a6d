import StatusWatch.Condition.Wire
import StatusWatch.ResourceKey

/-!
# Status events

Notifications about resources: a status that changed, a finalizer that is gone.

- `ObjectReference`: the resource an event is about.
- `StatusEvent`: an event; `StatusEvent.of` makes one without dedupe values.
- `StatusEvent.transition`, `StatusEvent.finalized`: the two events of the observer.
- `EventRecord`: an event with its identifier, as it is written.
-/

namespace StatusWatch

/-! ## Events -/

inductive EventType where
  | normal
  | warning
deriving DecidableEq, Inhabited

/-- The resource an event is about. -/
structure ObjectReference where
  key : ResourceKey
  groupKind : GroupKind
  uid : String
deriving DecidableEq, Inhabited

/-- A notification. -/
structure StatusEvent where
  timestamp : Instant
  involved : ObjectReference
  eventType : EventType
  reason : String
  message : String
  /-- With the reason, the values by which repeated events can be recognised. -/
  dedupeValues : List String
deriving DecidableEq, Inhabited

/-- An event with its identifier. -/
structure EventRecord where
  id : Uuid
  event : StatusEvent
deriving DecidableEq

namespace StatusEvent

/-- An event of now without dedupe values. -/
def of (now : Instant) (involved : ObjectReference) (eventType : EventType)
    (reason message : String) : StatusEvent :=
  { timestamp := now, involved, eventType, reason, message, dedupeValues := [] }

/-- A condition of the resource moved from the old status to its present one. Turning
false is a warning unless the condition is only informative. -/
def transition (now : Instant) (involved : ObjectReference) (old : ConditionStatus)
    (current : Condition) : StatusEvent :=
  let eventType :=
    if current.isFalse && current.severity.isError then EventType.warning else .normal
  let message := "Status condition transitioned, Type: " ++ current.type ++ ", Status: " ++
    old.text ++ " -> " ++ current.status.text ++ ", Reason: " ++ current.reason ++
    (if current.message = "" then "" else ", Message: " ++ current.message)
  { of now involved eventType current.type message with
    dedupeValues := [involved.uid, current.type, current.status.text, current.reason] }

/-- The reason of events about finalizers. -/
def finalizedReason : String := "Finalized"

/-- A finalizer is no longer present. -/
def finalized (now : Instant) (involved : ObjectReference) (finalizer : String) : StatusEvent :=
  { of now involved .normal finalizedReason ("Finalized " ++ finalizer) with
    dedupeValues := [involved.uid, finalizer] }

end StatusEvent

/-! ## Wire formats -/

namespace EventType

def text : EventType → String
  | .normal => "Normal"
  | .warning => "Warning"

def variants : List (String × EventType) := [("Normal", .normal), ("Warning", .warning)]

def encode (t : EventType) : Json := .string t.text

def decode : Decoder EventType := Decoder.enumeration variants

end EventType

namespace ObjectReference

def encode (r : ObjectReference) : Json :=
  .object [("group_kind", r.groupKind.encode), ("key", r.key.encode), ("uid", .string r.uid)]

def decode : Decoder ObjectReference :=
  let shape : Decoder.Shape := ⟨"ObjectReference", 3⟩
  Decoder.record shape
    (fun fields => do
      let groupKind ← Decoder.optional fields "group_kind" GroupKind.decode
      let key ← Decoder.optional fields "key" ResourceKey.decode
      let uid ← Decoder.optional fields "uid" Decoder.string
      let key ← Decoder.required "key" key
      let groupKind ← Decoder.required "group_kind" groupKind
      let uid ← Decoder.required "uid" uid
      return ⟨key, groupKind, uid⟩)
    (fun js => do
      let key ← Decoder.element shape 0 js ResourceKey.decode
      let groupKind ← Decoder.element shape 1 js GroupKind.decode
      let uid ← Decoder.element shape 2 js Decoder.string
      return ⟨key, groupKind, uid⟩)

end ObjectReference

/-- An event without its identifier. -/
def StatusEvent.encode (e : StatusEvent) : Json :=
  .object
    [("dedupe_values", .array (e.dedupeValues.map .string)),
      ("event_type", e.eventType.encode),
      ("involved", e.involved.encode),
      ("message", .string e.message),
      ("reason", .string e.reason),
      ("timestamp", .string e.timestamp.render)]

namespace EventRecord

def encode (r : EventRecord) : Json :=
  .object
    [("dedupe_values", .array (r.event.dedupeValues.map .string)),
      ("event_type", r.event.eventType.encode),
      ("id", .string r.id.render),
      ("involved", r.event.involved.encode),
      ("message", .string r.event.message),
      ("reason", .string r.event.reason),
      ("timestamp", .string r.event.timestamp.render)]

/-- How events are called in messages. -/
def shape : Decoder.Shape := ⟨"StatusEvent", 7⟩

def decodeFields (fields : Json.Fields) : Except DecodeError EventRecord := do
  let dedupe ← Decoder.optional fields "dedupe_values" (Decoder.list Decoder.string)
  let eventType ← Decoder.optional fields "event_type" EventType.decode
  let id ← Decoder.optional fields "id" Decoder.uuid
  let involved ← Decoder.optional fields "involved" ObjectReference.decode
  let message ← Decoder.optional fields "message" Decoder.string
  let reason ← Decoder.optional fields "reason" Decoder.string
  let timestamp ← Decoder.optional fields "timestamp" Decoder.instant
  let id ← Decoder.required "id" id
  let timestamp ← Decoder.required "timestamp" timestamp
  let involved ← Decoder.required "involved" involved
  let eventType ← Decoder.required "event_type" eventType
  let reason ← Decoder.required "reason" reason
  let message ← Decoder.required "message" message
  let dedupeValues ← Decoder.required "dedupe_values" dedupe
  return ⟨id, { timestamp, involved, eventType, reason, message, dedupeValues }⟩

def decodeItems (js : List Json) : Except DecodeError EventRecord := do
  let id ← Decoder.element shape 0 js Decoder.uuid
  let timestamp ← Decoder.element shape 1 js Decoder.instant
  let involved ← Decoder.element shape 2 js ObjectReference.decode
  let eventType ← Decoder.element shape 3 js EventType.decode
  let reason ← Decoder.element shape 4 js Decoder.string
  let message ← Decoder.element shape 5 js Decoder.string
  let dedupeValues ← Decoder.element shape 6 js (Decoder.list Decoder.string)
  return ⟨id, { timestamp, involved, eventType, reason, message, dedupeValues }⟩

def decode : Decoder EventRecord := Decoder.record shape decodeFields decodeItems

end EventRecord

end StatusWatch
