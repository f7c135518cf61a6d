import StatusWatch.Condition.Basic
import StatusWatch.Decoding

/-!
# The wire format of conditions

- `ConditionStatus`, `ConditionSeverity`: written as their names.
- `Condition`: an object; a severity is only written when it is not the default, and
  severity, reason, message and generation may be missing when reading.

Each type has its `encode` and its `decode`.
-/

namespace StatusWatch

namespace ConditionStatus

def variants : List (String × ConditionStatus) :=
  [("True", .true), ("False", .false), ("Unknown", .unknown)]

def encode (s : ConditionStatus) : Json := .string s.text

def decode : Decoder ConditionStatus := Decoder.enumeration variants

end ConditionStatus

namespace ConditionSeverity

def variants : List (String × ConditionSeverity) := [("Error", .error), ("Info", .info)]

def encode (s : ConditionSeverity) : Json := .string s.text

def decode : Decoder ConditionSeverity := Decoder.enumeration variants

end ConditionSeverity

namespace Condition

def encode (c : Condition) : Json :=
  .object <|
    [("lastTransitionTime", .string c.lastTransition.render),
      ("message", .string c.message),
      ("observedGeneration", .int c.observedGeneration.toInt),
      ("reason", .string c.reason)] ++
    (if c.severity.isError then [] else [("severity", c.severity.encode)]) ++
    [("status", c.status.encode), ("type", .string c.type)]

/-- How conditions are called in messages. -/
def shape : Decoder.Shape := ⟨"Condition", 7⟩

def decodeFields (fields : Json.Fields) : Except DecodeError Condition := do
  let time ← Decoder.optional fields "lastTransitionTime" Decoder.instant
  let message ← Decoder.optional fields "message" Decoder.string
  let generation ← Decoder.optional fields "observedGeneration" Decoder.int64
  let reason ← Decoder.optional fields "reason" Decoder.string
  let severity ← Decoder.optional fields "severity" ConditionSeverity.decode
  let status ← Decoder.optional fields "status" ConditionStatus.decode
  let type ← Decoder.optional fields "type" Decoder.string
  let type ← Decoder.required "type" type
  let status ← Decoder.required "status" status
  let time ← Decoder.required "lastTransitionTime" time
  return {
    type, status
    severity := severity.getD .error
    reason := reason.getD ""
    message := message.getD ""
    lastTransition := time
    observedGeneration := generation.getD 0 }

def decodeItems (js : List Json) : Except DecodeError Condition := do
  let type ← Decoder.element shape 0 js Decoder.string
  let status ← Decoder.element shape 1 js ConditionStatus.decode
  let severity ← Decoder.elementOr .error 2 js ConditionSeverity.decode
  let reason ← Decoder.elementOr "" 3 js Decoder.string
  let message ← Decoder.elementOr "" 4 js Decoder.string
  let lastTransition ← Decoder.element shape 5 js Decoder.instant
  let observedGeneration ← Decoder.elementOr 0 6 js Decoder.int64
  return { type, status, severity, reason, message, lastTransition, observedGeneration }

def decode : Decoder Condition := Decoder.record shape decodeFields decodeItems

/-- A list of conditions as a document. -/
def encodeAll (conditions : List Condition) : Json := .array (conditions.map encode)

end Condition

end StatusWatch
