import StatusWatch.Decimal.Reader
import StatusWatch.Json.Basic

/-!
# Reading JSON text

A reader for the JSON grammar over lists of characters. Besides the grammar it
refuses nesting deeper than 127 containers and numbers beyond the range of
floats. A number without point and exponent is a whole number when 64 bits hold
it, signed or unsigned, and a float otherwise; minus zero is a float.

- `Json.readValue`: a value at the front of a text and what follows it.
- `Json.read?`: a text that is one value with blanks around it.
-/

namespace StatusWatch.Json

/-- Text still to be read. -/
abbrev Input := List Char

def isBlank (c : Char) : Bool := c = ' ' || c = '\n' || c = '\t' || c = '\r'

def skipBlanks (cs : Input) : Input := cs.dropWhile isBlank

/-! ## Numbers -/

/-- The largest whole number of 64 bits. -/
def maxUnsigned : Nat := 0xffffffffffffffff

/-- Append digits to a number as long as 64 bits hold it; the digits that no longer fit
are returned. -/
def accumulate (n : Nat) : List Char → Nat × List Char
  | [] => (n, [])
  | d :: ds =>
    let n' := 10 * n + Decimal.digitValue d
    if n' ≤ maxUnsigned then accumulate n' ds else (n, d :: ds)

/-- The float written with the given digits before and after the point and the given
exponent. Digits beyond 64 bits only count as places. -/
def floatOfParts (negative : Bool) (whole part : List Char) (exponent : Int) : Option Json :=
  let (m, restWhole) := accumulate 0 whole
  let (m, restPart) := accumulate m part
  let places : Int := restWhole.length - (part.length - restPart.length : Nat)
  (Decimal.scaleByTen m (places + exponent)).map fun x => .float (if negative then -x else x)

/-- The whole number with the given digits, or the float when 64 bits do not hold it. -/
def intOfDigits (negative : Bool) (whole : List Char) : Option Json :=
  let n := Decimal.natOfDigits whole
  if !negative && n ≤ maxUnsigned then some (.int n)
  else if negative && 0 < n && n ≤ 0x8000000000000000 then some (.int (-n))
  else floatOfParts negative whole [] 0

/-- The exponent part at the front of a text, if there is one. -/
def readExponent (cs : Input) : Option (Option Int × Input) :=
  match cs with
  | c :: rest =>
    if c = 'e' ∨ c = 'E' then
      let (negative, rest) := Decimal.readSign rest
      let ds := rest.takeWhile Char.isDigit
      if ds = [] then none
      else
        let n : Int := Decimal.natOfDigits ds
        some (some (if negative then -n else n), rest.dropWhile Char.isDigit)
    else some (none, cs)
  | [] => some (none, cs)

/-- The fraction at the front of a text, if there is one. -/
def readFraction (cs : Input) : Option (Option (List Char) × Input) :=
  match cs with
  | '.' :: rest =>
    let ds := rest.takeWhile Char.isDigit
    if ds = [] then none else some (some ds, rest.dropWhile Char.isDigit)
  | _ => some (none, cs)

/-- A number at the front of a text. A leading zero stands alone. -/
def readNumber (cs : Input) : Option (Json × Input) := do
  let (negative, cs) := match cs with
    | '-' :: rest => (true, rest)
    | _ => (false, cs)
  let whole := cs.takeWhile Char.isDigit
  if whole = [] ∨ (whole.head? = some '0' ∧ whole.length ≠ 1) then none
  let (part, rest) ← readFraction (cs.dropWhile Char.isDigit)
  let (exponent, rest) ← readExponent rest
  let value ← if part.isNone && exponent.isNone then intOfDigits negative whole
    else floatOfParts negative whole (part.getD []) (exponent.getD 0)
  return (value, rest)

/-! ## Strings -/

def hexValue? (c : Char) : Option Nat :=
  if c.isDigit then some (c.toNat - '0'.toNat)
  else if 'a' ≤ c ∧ c ≤ 'f' then some (c.toNat - 'a'.toNat + 10)
  else if 'A' ≤ c ∧ c ≤ 'F' then some (c.toNat - 'A'.toNat + 10)
  else none

/-- Four hexadecimal digits at the front of a text. -/
def readUnit : Input → Option (Nat × Input)
  | a :: b :: c :: d :: rest => do
    let a ← hexValue? a
    let b ← hexValue? b
    let c ← hexValue? c
    let d ← hexValue? d
    return (((a * 16 + b) * 16 + c) * 16 + d, rest)
  | _ => none

/-- The character of a numeric escape, after its `\u`. A leading surrogate needs a
trailing one right after it. -/
def readCodePoint (cs : Input) : Option (Char × Input) := do
  let (u, rest) ← readUnit cs
  if 0xdc00 ≤ u ∧ u ≤ 0xdfff then none
  else if 0xd800 ≤ u ∧ u ≤ 0xdbff then
    match rest with
    | '\\' :: 'u' :: rest =>
      let (v, rest) ← readUnit rest
      if 0xdc00 ≤ v ∧ v ≤ 0xdfff then
        some (Char.ofNat (0x10000 + (u - 0xd800) * 0x400 + (v - 0xdc00)), rest)
      else none
    | _ => none
  else some (Char.ofNat u, rest)

/-- The character after a backslash, numeric escapes apart. -/
def simpleEscape? (c : Char) : Option Char :=
  match c with
  | '"' => some '"'
  | '\\' => some '\\'
  | '/' => some '/'
  | 'b' => some '\x08'
  | 'f' => some '\x0c'
  | 'n' => some '\n'
  | 'r' => some '\r'
  | 't' => some '\t'
  | _ => none

/-- The characters of a string up to its closing quote; `done` holds those read, the
last one first. -/
def readChars : Nat → List Char → Input → Option (List Char × Input)
  | 0, _, _ => none
  | _ + 1, _, [] => none
  | _ + 1, done, '"' :: rest => some (done.reverse, rest)
  | fuel + 1, done, '\\' :: 'u' :: rest => do
    let (c, rest) ← readCodePoint rest
    readChars fuel (c :: done) rest
  | fuel + 1, done, '\\' :: e :: rest => do
    let c ← simpleEscape? e
    readChars fuel (c :: done) rest
  | fuel + 1, done, c :: rest =>
    if c.toNat < 0x20 then none else readChars fuel (c :: done) rest

/-- A string at the front of a text, after its opening quote. -/
def readString (cs : Input) : Option (String × Input) :=
  (readChars (cs.length + 1) [] cs).map fun r => (String.ofList r.1, r.2)

/-! ## Values -/

mutual

/-- A value at the front of a text; `depth` bounds the nesting that is left. -/
def readValue : Nat → Nat → Input → Option (Json × Input)
  | 0, _, _ => none
  | fuel + 1, depth, cs =>
    match skipBlanks cs with
    | 'n' :: 'u' :: 'l' :: 'l' :: rest => some (.null, rest)
    | 't' :: 'r' :: 'u' :: 'e' :: rest => some (.bool true, rest)
    | 'f' :: 'a' :: 'l' :: 's' :: 'e' :: rest => some (.bool false, rest)
    | '"' :: rest => (readString rest).map fun r => (.string r.1, r.2)
    | '[' :: rest =>
      if depth ≤ 1 then none
      else match skipBlanks rest with
        | ']' :: rest => some (.array [], rest)
        | rest => readItems fuel (depth - 1) [] rest
    | '\x7b' :: rest =>
      if depth ≤ 1 then none
      else match skipBlanks rest with
        | '\x7d' :: rest => some (.object [], rest)
        | rest => readFields fuel (depth - 1) [] rest
    | rest => readNumber rest

/-- The items of a list up to its closing bracket. -/
def readItems : Nat → Nat → List Json → Input → Option (Json × Input)
  | 0, _, _, _ => none
  | fuel + 1, depth, done, cs => do
    let (item, rest) ← readValue fuel depth cs
    match skipBlanks rest with
    | ',' :: rest => readItems fuel depth (item :: done) rest
    | ']' :: rest => some (.array (item :: done).reverse, rest)
    | _ => none

/-- The fields of an object up to its closing brace. -/
def readFields : Nat → Nat → List (String × Json) → Input → Option (Json × Input)
  | 0, _, _, _ => none
  | fuel + 1, depth, done, cs =>
    match skipBlanks cs with
    | '"' :: rest => do
      let (key, rest) ← readString rest
      match skipBlanks rest with
      | ':' :: rest =>
        let (value, rest) ← readValue fuel depth rest
        match skipBlanks rest with
        | ',' :: rest => readFields fuel depth ((key, value) :: done) rest
        | '\x7d' :: rest => some (mkObject ((key, value) :: done).reverse, rest)
        | _ => none
      | _ => none
    | _ => none

end

/-- The document that a text holds, blanks around it allowed. -/
def read? (text : String) : Option Json := do
  let cs := text.toList
  let (value, rest) ← readValue (cs.length + 1) 128 cs
  if skipBlanks rest = [] then some value else none

end StatusWatch.Json
