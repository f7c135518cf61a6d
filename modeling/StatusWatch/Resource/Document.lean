import StatusWatch.Resource.Basic

/-!
# Resources adapted from documents

A JSON object with `kind`, `apiVersion`, `metadata` and `status.conditions` can be
viewed as a resource. The conditions are written back to the same place; everything
else in the document is carried through untouched.

- `AdaptError`: why a document is no resource.
- `ConditionError`: the errors of conditions: a document that cannot be adapted, or an
  attempt to clear a condition that the schema declares.
- `Resource.ofDocument`: the adaption.
- `Resource.toDocument`: the document with the present conditions.
-/

namespace StatusWatch

/-! ## Errors -/

/-- Why a document is no resource. -/
inductive AdaptError where
  | notAnObject
  | noKind
  | noMetadata
  | badMetadata (cause : DecodeError)
  | statusNotObject (found : Json)
  | conditionsNotArray (found : Json)
  | badCondition (cause : DecodeError)

/-- What kind of value a document is. -/
def Json.kindName : Json → String
  | .null => "null"
  | .bool _ => "boolean"
  | .int _ => "number"
  | .float _ => "number"
  | .string _ => "string"
  | .array _ => "array"
  | .object _ => "object"

def AdaptError.message : AdaptError → String
  | notAnObject => "invalid object: expected a JSON object"
  | noKind => "invalid kind: missing or not a string"
  | noMetadata => "invalid metadata: missing"
  | badMetadata cause => "payload conversion failed for metadata: " ++ cause.message
  | statusNotObject found => "invalid status: expected an object, found " ++ found.kindName
  | conditionsNotArray found =>
    "invalid status.conditions: expected an array, found " ++ found.kindName
  | badCondition cause => "payload conversion failed for status.conditions: " ++ cause.message

/-- The errors of conditions. -/
inductive ConditionError where
  /-- A condition that the schema declares cannot be cleared. -/
  | schemaDeclared (type : String)
  | adapt (cause : AdaptError)

namespace ConditionError

def message : ConditionError → String
  | schemaDeclared type =>
    "cannot clear condition " ++ Text.quoted type ++ ": it is declared by the resource schema"
  | adapt cause => cause.message

/-- Whether trying again may help: a later write can mend a document, but not a misuse. -/
def isRetryable : ConditionError → Bool
  | schemaDeclared _ => false
  | adapt _ => true

end ConditionError

/-! ## Adapting -/

/-- The conditions in a `status.conditions` field; absent and null mean none. -/
def readConditions : Option Json → Except AdaptError (List Condition)
  | none | some .null => .ok []
  | some (.array js) => (Decoder.items Condition.decode js).mapError AdaptError.badCondition
  | some found => .error (.conditionsNotArray found)

namespace Resource

/-- View a document as a resource with the given schema. -/
def ofDocument (payload : Json) (conditionTypes : ConditionTypes) : Except AdaptError Resource :=
  match payload with
  | .object fields => do
    let kind ← match Json.field? "kind" fields with
      | some (.string kind) => pure kind
      | _ => throw AdaptError.noKind
    let apiVersion := match Json.field? "apiVersion" fields with
      | some (.string version) => version
      | _ => ""
    let metadata ← match Json.field? "metadata" fields with
      | some metadata => (ObjectMeta.decode metadata).mapError AdaptError.badMetadata
      | none => throw AdaptError.noMetadata
    let conditions ← match Json.field? "status" fields with
      | none | some .null => pure []
      | some (.object status) => readConditions (Json.field? "conditions" status)
      | some found => throw (AdaptError.statusNotObject found)
    return {
      metadata, conditionTypes, conditions
      groupKind := GroupKind.ofApiVersion apiVersion kind
      origin := .document payload
      lost := [] }
  | _ => throw AdaptError.notAnObject

/-- A document with the given conditions in `status.conditions`; a missing or null status
is created. -/
def withConditions (payload : Json) (conditions : List Condition) : Except AdaptError Json :=
  match payload with
  | .object fields =>
    let status := match Json.field? "status" fields with
      | none | some .null => Except.ok []
      | some (.object status) => .ok status
      | some found => .error (AdaptError.statusNotObject found)
    status.map fun status => .object <|
      Json.setField "status"
        (.object (Json.setField "conditions" (Condition.encodeAll conditions) status)) fields
  | _ => throw AdaptError.notAnObject

/-- The resource as a document: the wire format of a typed object, or the adapted
document with the present conditions. -/
def toDocument (r : Resource) : Except AdaptError Json :=
  match r.origin with
  | .typed => .ok r.toStatusObject.encode
  | .document payload => withConditions payload r.conditions

end Resource

end StatusWatch
