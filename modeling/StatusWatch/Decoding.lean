import StatusWatch.Decimal.Shortest
import StatusWatch.Instant.Rfc3339
import StatusWatch.Json.Basic
import StatusWatch.Text.Quoted
import StatusWatch.Uuid

/-!
# Decoding documents

How typed values are read from JSON documents and what is reported when a document
does not have the expected shape.

A record is read from an object or from an array of its fields in declaration
order. In an object the present fields are read in the order of their keys, and only
then missing ones are reported; unknown fields are ignored. In an array the fields
with a default may be missing at the end.

- `DecodeError`: the causes, with their wording in `DecodeError.message`.
- `Decoder α`: how a value of type `α` is read.
- `optional`, `required`: the two ways to use a field of an object.
- `element`, `endOfArray`: the same for the array form.
-/

namespace StatusWatch

/-- Why a document does not decode. -/
inductive DecodeError where
  | missingField (name : String)
  | invalidType (found : Json) (expected : String)
  | invalidValue (found : Json) (expected : String)
  | unknownVariant (name : String) (variants : List String)
  | invalidLength (length : Nat) (expected : String)
  | time (cause : Instant.TimeError)
  | uuid (cause : Uuid.ParseError)

/-- How a document is named in a message. -/
def Json.describe : Json → String
  | .null => "null"
  | .bool b => "boolean `" ++ (if b then "true" else "false") ++ "`"
  | .int n => "integer `" ++ toString n ++ "`"
  | .float x => "floating point `" ++ Decimal.renderInDocument x ++ "`"
  | .string s => "string " ++ Text.quoted s
  | .array _ => "sequence"
  | .object _ => "map"

/-- The choice between the variants of an enumeration. -/
def oneOf (variants : List String) : String :=
  let names := variants.map fun v => "`" ++ v ++ "`"
  match names with
  | [a, b] => "expected " ++ a ++ " or " ++ b
  | _ => "expected one of " ++ ", ".intercalate names

def DecodeError.message : DecodeError → String
  | missingField name => "missing field `" ++ name ++ "`"
  | invalidType found expected => "invalid type: " ++ found.describe ++ ", expected " ++ expected
  | invalidValue found expected => "invalid value: " ++ found.describe ++ ", expected " ++ expected
  | unknownVariant name variants => "unknown variant `" ++ name ++ "`, " ++ oneOf variants
  | invalidLength length expected =>
    "invalid length " ++ toString length ++ ", expected " ++ expected
  | time cause => cause.message
  | uuid cause => "UUID parsing failed: " ++ cause.message

/-- How a value is read from a document. -/
abbrev Decoder (α : Type) := Json → Except DecodeError α

namespace Decoder

/-! ## Plain values -/

def string : Decoder String
  | .string s => .ok s
  | found => .error (.invalidType found "a string")

def bool : Decoder Bool
  | .bool b => .ok b
  | found => .error (.invalidType found "a boolean")

/-- A signed number of 64 bits. -/
def int64 : Decoder Int64
  | .int n =>
    if -0x8000000000000000 ≤ n ∧ n < 0x8000000000000000 then .ok (Int64.ofInt n)
    else .error (.invalidValue (.int n) "i64")
  | found => .error (.invalidType found "i64")

/-- An unsigned number of 64 bits; `expected` is how the message calls it. -/
def uint64 (expected : String) : Decoder UInt64
  | .int n =>
    if 0 ≤ n ∧ n.toNat < UInt64.size then .ok (UInt64.ofNat n.toNat)
    else .error (.invalidValue (.int n) expected)
  | found => .error (.invalidType found expected)

def instant : Decoder Instant
  | .string s =>
    match Instant.parse s with
    | .ok t => .ok t
    | .error cause => .error (.time cause)
  | found => .error (.invalidType found "an RFC 3339 formatted date and time string")

def uuid : Decoder Uuid
  | .string s =>
    match Uuid.parse s with
    | .ok u => .ok u
    | .error cause => .error (.uuid cause)
  | found => .error (.invalidType found "a formatted UUID string")

/-- A value that may be null. -/
def nullable {α : Type} (d : Decoder α) : Decoder (Option α)
  | .null => .ok none
  | found => (d found).map some

/-- Read every item in order. -/
def items {α : Type} (d : Decoder α) : List Json → Except DecodeError (List α)
  | [] => .ok []
  | item :: rest => do
    let a ← d item
    let as ← items d rest
    return a :: as

def list {α : Type} (d : Decoder α) : Decoder (List α)
  | .array js => items d js
  | found => .error (.invalidType found "a sequence")

/-- Read every field in key order. -/
def entries {α : Type} (d : Decoder α) : Json.Fields → Except DecodeError (List (String × α))
  | [] => .ok []
  | (key, value) :: rest => do
    let a ← d value
    let as ← entries d rest
    return (key, a) :: as

def map {α : Type} (d : Decoder α) : Decoder (OrderedMap String α)
  | .object fields => (entries d fields).map OrderedMap.ofList
  | found => .error (.invalidType found "a map")

/-! ## Enumerations -/

/-- The value that a variant name stands for. -/
def variant {α : Type} (table : List (String × α)) (name : String) : Except DecodeError α :=
  match OrderedMap.find? name table with
  | some a => .ok a
  | none => .error (.unknownVariant name (table.map (·.1)))

/-- A variant is written as its name, or as an object with the name as its only key and
null as the value. -/
def enumeration {α : Type} (table : List (String × α)) : Decoder α
  | .string name => variant table name
  | .object [(name, value)] => do
    let a ← variant table name
    match value with
    | .null => return a
    | found => .error (.invalidType found "unit")
  | .object fields => .error (.invalidValue (.object fields) "map with a single key")
  | found => .error (.invalidType found "string or map")

/-! ## Records -/

/-- A field of an object, if it is present. -/
def optional {α : Type} (fields : Json.Fields) (key : String) (d : Decoder α) :
    Except DecodeError (Option α) :=
  match Json.field? key fields with
  | none => .ok none
  | some value => (d value).map some

/-- What was read for a field that has no default. -/
def required {α : Type} (key : String) : Option α → Except DecodeError α
  | none => .error (.missingField key)
  | some a => .ok a

/-- How a record is called in messages. -/
structure Shape where
  name : String
  width : Nat

/-- The phrase for a record that is expected. -/
def Shape.expected (s : Shape) : String := "struct " ++ s.name

/-- A field of the array form that has no default. -/
def element {α : Type} (shape : Shape) (index : Nat) (js : List Json) (d : Decoder α) :
    Except DecodeError α :=
  match js[index]? with
  | none => .error (.invalidLength index
      (shape.expected ++ " with " ++ toString shape.width ++ " elements"))
  | some value => d value

/-- A field of the array form that may be missing. -/
def elementOr {α : Type} (default : α) (index : Nat) (js : List Json) (d : Decoder α) :
    Except DecodeError α :=
  match js[index]? with
  | none => .ok default
  | some value => d value

/-- Nothing may follow the last field of the array form. -/
def endOfArray (shape : Shape) (js : List Json) : Except DecodeError Unit :=
  if js.length ≤ shape.width then .ok ()
  else .error (.invalidLength js.length "fewer elements in array")

/-- A record from either form. -/
def record {α : Type} (shape : Shape) (ofFields : Json.Fields → Except DecodeError α)
    (ofItems : List Json → Except DecodeError α) : Decoder α
  | .object fields => ofFields fields
  | .array js => do
    let a ← ofItems js
    endOfArray shape js
    return a
  | found => .error (.invalidType found shape.expected)

end Decoder

end StatusWatch
