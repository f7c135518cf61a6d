import StatusWatch.Decimal.Reader
import StatusWatch.Decimal.Shortest
import StatusWatch.OrderedMap

/-!
# Settings before their types are known

Settings come from several sources that know nothing of the types they end up in.
What a source says is a tree, later sources are written over earlier ones, and only
the result is converted to what each setting wants.

- `Setting`: the tree. Table keys do not depend on the case of ASCII letters.
- `SettingPath`: where in a tree a source writes; `SettingPath.read` is its
  text form, such as `metrics.label_projection[0]`.
- `Setting.assign`: write below a key. Tables are merged key by key, anything else
  replaces what was there.
- `Setting.put`: write at a path, which makes the tables and lists on its way.
- `asBool?`, `asUInt64?`, `asText?`, `asTexts?`: conversion.
-/

namespace StatusWatch

/-- A setting before its type is known. The fields of a table are in increasing
key order. -/
inductive Setting where
  | null
  | bool (b : Bool)
  | int (n : Int)
  | float (x : Float)
  | text (s : String)
  | list (items : List Setting)
  | table (fields : List (String × Setting))
deriving Inhabited

/-! ## Paths -/

inductive PathStep where
  | key (name : String)
  /-- An item of a list; negative numbers count from its end. -/
  | item (index : Int)
deriving DecidableEq

/-- The way from the root of a tree to one of its settings. -/
abbrev SettingPath := List PathStep

namespace SettingPath

/-- The characters that names in a path are made of. -/
def isNameChar (c : Char) : Bool := c.isAlphanum || c = ' ' || c = '_' || c = '-'

/-- A name at the front of a text. -/
def readName (cs : List Char) : Option (PathStep × List Char) :=
  let name := cs.takeWhile isNameChar
  if name = [] then none
  else some (.key (String.ofList name), cs.dropWhile isNameChar)

def isBlank (c : Char) : Bool := c = ' ' || c = '\t'

/-- The number of an item, which 64 bits hold, and the closing bracket. -/
def readIndex (cs : List Char) : Option (PathStep × List Char) := do
  let cs := cs.dropWhile isBlank
  let (negative, cs) := match cs with
    | '-' :: rest => (true, rest)
    | _ => (false, cs)
  let n : Int ← Decimal.readNat? (cs.takeWhile Char.isDigit)
  let n := if negative then -n else n
  if n < -0x8000000000000000 ∨ 0x8000000000000000 ≤ n then none
  match (cs.dropWhile Char.isDigit).dropWhile isBlank with
  | ']' :: rest => some (.item n, rest)
  | _ => none

/-- The steps after the first name. -/
def readSteps : Nat → List Char → Option SettingPath
  | 0, _ => none
  | _ + 1, [] => some []
  | fuel + 1, '.' :: rest => do
    let (step, rest) ← readName rest
    let steps ← readSteps fuel rest
    return step :: steps
  | fuel + 1, '[' :: rest => do
    let (step, rest) ← readIndex rest
    let steps ← readSteps fuel rest
    return step :: steps
  | _ + 1, _ :: _ => none

/-- The path that a text is written as, if it has that form. -/
def read? (text : String) : Option SettingPath := do
  let (step, rest) ← readName text.toList
  let steps ← readSteps (rest.length + 1) rest
  return step :: steps

/-- The path that a text stands for: a text of another form is a single key. -/
def read (text : String) : SettingPath := (read? text).getD [.key text]

end SettingPath

namespace Setting

/-! ## Writing -/

/-- A text with its ASCII capitals made small. -/
def foldCase (s : String) : String := String.ofList (s.toList.map Char.toLower)

/-- The fields of a table; anything else has none. -/
def fields : Setting → List (String × Setting)
  | table fields => fields
  | _ => []

/-- The items of a list; anything else has none. -/
def items : Setting → List Setting
  | list items => items
  | _ => []

/-- The field of a table. -/
def get? (key : String) (root : Setting) : Option Setting := OrderedMap.find? key root.fields

mutual

/-- Write below a key of a table; what is no table gives way to one. -/
def assign (root : Setting) (key : String) : Setting → Setting
  | table incoming =>
    let inner := (root.get? (foldCase key)).getD (table [])
    table (OrderedMap.place (foldCase key) (assignAll inner incoming) root.fields)
  | value => table (OrderedMap.place (foldCase key) value root.fields)

/-- Write several fields, one after another. -/
def assignAll (root : Setting) : List (String × Setting) → Setting
  | [] => root
  | (key, value) :: rest => assignAll (assign root key value) rest

end

/-- The place of an item that may be counted from the end. -/
def itemPlace? (index : Int) (length : Nat) : Option Nat :=
  if 0 ≤ index then some index.toNat
  else if index.natAbs ≤ length then some (length - index.natAbs)
  else none

/-- Change an item; a list that is too short is filled up first. -/
def modifyItem (index : Int) (change : Setting → Setting) (items : List Setting) :
    List Setting :=
  match itemPlace? index items.length with
  | some i => (items ++ List.replicate (i + 1 - items.length) null).modify i change
  | none => items

/-- Write at a path. -/
def put (value : Setting) : SettingPath → Setting → Setting
  | [], _ => value
  | [.key name], root => root.assign name value
  | .key name :: path, root =>
    let inner := (root.get? (foldCase name)).getD null
    table (OrderedMap.place (foldCase name) (put value path inner) root.fields)
  | .item index :: path, root => list (modifyItem index (put value path) root.items)

/-- Write what a source says, each entry at the path that its name stands for. -/
def overlay (root : Setting) (source : List (String × Setting)) : Setting :=
  source.foldl (fun root entry => put entry.2 (SettingPath.read entry.1) root) root

/-! ## Conversion -/

/-- The words that stand for a truth value, in any case. -/
def truthOfWord? (s : String) : Option Bool :=
  match foldCase s with
  | "true" | "on" | "yes" => some true
  | "false" | "off" | "no" => some false
  | _ => none

/-- Numbers are true unless they are zero; `1` and `0` may also be texts. -/
def asBool? : Setting → Option Bool
  | bool b => some b
  | int n => some (n ≠ 0)
  | float x => some (x != 0.0)
  | text "1" => some true
  | text "0" => some false
  | text s => truthOfWord? s
  | _ => none

/-- A number of 64 bits that a text stands for: digits, a plus in front allowed. -/
def readUInt64? (cs : List Char) : Option UInt64 := do
  let cs := match cs with
    | '+' :: rest => rest
    | _ => cs
  let n ← Decimal.readNat? cs
  if n < UInt64.size then return UInt64.ofNat n else none

/-- The nearest whole number of 64 bits, a half rounded up. Floats from `2 ^ 53` on have
no fraction. -/
def roundUInt64 (x : Float) : UInt64 :=
  let whole := x.toUInt64
  if x < 9007199254740992.0 && 0.5 ≤ x - whole.toFloat then whole + 1 else whole

/-- Truth values count as 1 and 0, and floats are rounded. -/
def asUInt64? : Setting → Option UInt64
  | bool b => some (if b then 1 else 0)
  | int n => if 0 ≤ n ∧ n.toNat < UInt64.size then some (UInt64.ofNat n.toNat) else none
  | float x => some (roundUInt64 x)
  | text s =>
    match truthOfWord? s with
    | some b => some (if b then 1 else 0)
    | none => readUInt64? s.toList
  | _ => none

def asText? : Setting → Option String
  | bool b => some (if b then "true" else "false")
  | int n => some (toString n)
  | float x => some (Decimal.render x)
  | text s => some s
  | _ => none

def asTexts? : Setting → Option (List String)
  | list items => items.mapM asText?
  | _ => none

end Setting

end StatusWatch
