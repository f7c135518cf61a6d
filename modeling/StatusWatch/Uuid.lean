import StatusWatch.Json.Reader

/-!
# Identifiers of 128 bits

An identifier is 32 hexadecimal digits. It is written in lower case in groups of
8, 4, 4, 4 and 12 digits joined by hyphens. It is read in that form, in either
case, also in braces or after `urn:uuid:`, itself in either case, and as 32 digits
without hyphens.

- `Uuid`: the digits.
- `Uuid.render`, `Uuid.parse`: the text forms.
- `Uuid.ParseError`: why a text is no identifier.
-/

namespace StatusWatch

/-- An identifier of 32 hexadecimal digits. -/
structure Uuid where
  digits : List (Fin 16)
  length_digits : digits.length = 32
deriving DecidableEq

namespace Uuid

/-- Why a text is no identifier. -/
inductive ParseError where
  /-- A character is neither a digit nor a hyphen; positions count bytes of the unwrapped
  text from zero. -/
  | badChar (c : Char) (position : Nat)
  /-- The text is longer than every form, or without hyphens and not of 32 digits. -/
  | badLength (length : Nat)
  /-- The number of groups is wrong. -/
  | badGroupCount (count : Nat)
  /-- A group has the wrong number of digits. -/
  | badGroupLength (group expected length : Nat)
deriving DecidableEq

def ParseError.message : ParseError → String
  | badChar c position =>
    "invalid character: found `" ++ c.toString ++ "` at " ++ toString position
  | badLength length => "invalid length: found " ++ toString length
  | badGroupCount count => "invalid group count: expected 5, found " ++ toString count
  | badGroupLength group expected length =>
    "invalid group length in group " ++ toString group ++ ": expected " ++ toString expected ++
      ", found " ++ toString length

/-- The identifier of zeros. -/
def zero : Uuid := ⟨List.replicate 32 0, by simp⟩

/-- The numbers of digits in the groups. -/
def groupLengths : List Nat := [8, 4, 4, 4, 12]

def hexChar (d : Fin 16) : Char := Nat.digitChar d.val

/-- Split digits into groups of the given lengths, joined by hyphens. -/
def hyphenated : List Nat → List Char → List Char
  | [], _ => []
  | [n], cs => cs.take n
  | n :: ns, cs => cs.take n ++ '-' :: hyphenated ns (cs.drop n)

def render (u : Uuid) : String :=
  String.ofList (hyphenated groupLengths (u.digits.map hexChar))

def digit? (c : Char) : Option (Fin 16) :=
  (Json.hexValue? c).map fun n => Fin.ofNat 16 n

/-- The identifier of a list of digits, if there are 32 of them and nothing else. -/
def ofChars? (cs : List Char) : Option Uuid :=
  let ds := cs.filterMap digit?
  if h : ds.length = 32 then if cs.length = 32 then some ⟨ds, h⟩ else none else none

/-- The identifier written in groups. -/
def ofGroups? (groups : List (List Char)) : Option Uuid :=
  if groups.map List.length = groupLengths then ofChars? groups.flatten else none

/-- What may stand before the groups. -/
def label : List Char := "urn:uuid:".toList

/-- The length of the longest form: the groups after the label. -/
def maxLength : Nat := 45

/-- The text without what encloses it, if something does. -/
def unwrap? (cs : List Char) : Option (List Char) :=
  if cs.head? = some '\x7b' ∧ cs.getLast? = some '\x7d' ∧ 2 ≤ cs.length then
    some cs.tail.dropLast
  else if (cs.take label.length).map Char.toLower = label then some (cs.drop label.length)
  else none

/-- The first character that is neither a digit nor a hyphen, with its byte position. -/
def firstBadChar : Nat → List Char → Option (Char × Nat)
  | _, [] => none
  | position, c :: rest =>
    if c = '-' ∨ (digit? c).isSome then firstBadChar (position + c.utf8Size) rest
    else some (c, position)

/-- The first group whose length is wrong; the last group is counted from the fifth
block to the end of the whole text. -/
def badGroup (whole : Nat) : Nat → List Nat → List (List Char) → ParseError
  | group, expected :: ns, g :: gs =>
    if gs = [] then .badGroupLength group expected (whole - 24)
    else if g.length = expected then badGroup whole (group + 1) ns gs
    else .badGroupLength group expected g.length
  | group, _, _ => .badGroupCount group

/-- Why the text is refused. -/
def diagnose (cs : List Char) : ParseError :=
  let length := cs.foldl (fun n c => n + c.utf8Size) 0
  let enclosed := unwrap? cs
  let body := enclosed.getD cs
  let groups := body.splitOn '-'
  if maxLength < length then .badLength length
  else match firstBadChar 0 body with
    | some (c, position) => .badChar c position
    | none =>
      if groups.length = 1 ∧ enclosed.isNone then .badLength length
      else if groups.length = 5 then badGroup length 0 groupLengths groups
      else .badGroupCount groups.length

/-- Read an identifier. Digits without hyphens are not enclosed. -/
def parse (text : String) : Except ParseError Uuid :=
  let cs := text.toList
  let grouped := ofGroups? (((unwrap? cs).getD cs).splitOn '-')
  match grouped.orElse fun _ => ofChars? cs with
  | some u => .ok u
  | none => .error (diagnose cs)

end Uuid

end StatusWatch
