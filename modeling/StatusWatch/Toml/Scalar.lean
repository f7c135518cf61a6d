import StatusWatch.Instant.Date
import StatusWatch.Settings.Value
import StatusWatch.Toml.Text

/-!
# TOML: numbers, truth values and times

What is written without quotes and brackets. Such a value is a run of
`isWordChar` characters; only a date may be followed by a blank and a time.
Dates and times become text in their usual form.

- `readDigits?`: digits, single underscores allowed between them.
- `ofInteger?`, `ofFloat?`, `ofTime?`: the value of a word of each kind.
- `readScalar`: the value at the front of a text.
-/

namespace StatusWatch.Toml

/-! ## Numbers -/

/-- Digits after the first one. -/
def moreDigits (isDigit : Char → Bool) : List Char → Option (List Char)
  | [] => some []
  | '_' :: d :: rest => if isDigit d then (moreDigits isDigit rest).map (d :: ·) else none
  | d :: rest => if isDigit d then (moreDigits isDigit rest).map (d :: ·) else none

/-- At least one digit, single underscores allowed between them. -/
def readDigits? (isDigit : Char → Bool) : List Char → Option (List Char)
  | [] => none
  | d :: rest => if isDigit d then (moreDigits isDigit rest).map (d :: ·) else none

/-- Decimal digits; a leading zero stands alone. -/
def readWhole? (cs : List Char) : Option (List Char) :=
  match cs with
  | '0' :: _ :: _ => none
  | _ => readDigits? Char.isDigit cs

/-- A whole number that 64 bits hold. -/
def boundedInt? (n : Int) : Option Setting :=
  if -0x8000000000000000 ≤ n ∧ n < 0x8000000000000000 then some (.int n) else none

/-- A number in another base than ten. -/
def ofRadix? (base : Nat) (cs : List Char) : Option Setting := do
  let isDigit (c : Char) : Bool := (Json.hexValue? c).any (· < base)
  let ds ← readDigits? isDigit cs
  boundedInt? (ds.foldl (fun n c => base * n + (Json.hexValue? c).getD 0) 0 : Nat)

/-- A whole number: decimal with an optional sign, or in base 16, 8 or 2 without one. -/
def ofInteger? : List Char → Option Setting
  | '0' :: 'x' :: cs => ofRadix? 16 cs
  | '0' :: 'o' :: cs => ofRadix? 8 cs
  | '0' :: 'b' :: cs => ofRadix? 2 cs
  | cs => do
    let (negative, cs) := Decimal.readSign cs
    let n : Nat := Decimal.natOfDigits (← readWhole? cs)
    boundedInt? (if negative then -n else n)

/-- The exponent of a float. -/
def readPower? (cs : List Char) : Option (List Char) := do
  let (negative, cs) := Decimal.readSign cs
  let ds ← readDigits? Char.isDigit cs
  return if negative then '-' :: ds else ds

/-- A decimal with a fraction, an exponent or both, digits on both sides of the point. -/
def readDecimal? (cs : List Char) : Option Float := do
  let isPart (c : Char) : Bool := c.isDigit || c = '_'
  let whole ← readWhole? (cs.takeWhile isPart)
  let rest := cs.dropWhile isPart
  let (part, rest) ← match rest with
    | '.' :: more => do
      let part ← readDigits? Char.isDigit (more.takeWhile isPart)
      some ('.' :: part, more.dropWhile isPart)
    | _ => some ([], rest)
  let power ← match rest with
    | 'e' :: more => (readPower? more).map ('e' :: ·)
    | 'E' :: more => (readPower? more).map ('e' :: ·)
    | [] => if part = [] then none else some []
    | _ => none
  Decimal.read? (whole ++ part ++ power)

/-- A float. Only a negative one may be too large, and is infinite then. -/
def ofFloat? (cs : List Char) : Option Setting := do
  let (negative, cs) := Decimal.readSign cs
  let signed (x : Float) : Setting := .float (if negative then -x else x)
  match cs with
  | ['i', 'n', 'f'] => return signed (1.0 / 0.0)
  | ['n', 'a', 'n'] => return signed (0.0 / 0.0)
  | _ =>
    let x ← readDecimal? cs
    if x.isInf && !negative then none else return signed x

/-! ## Dates and times -/

/-- A number of exactly `width` digits. -/
def readFixed (width : Nat) (cs : List Char) : Option (Nat × List Char) := do
  let ds := cs.take width
  let n ← Decimal.readNat? ds
  if ds.length = width then some (n, cs.drop width) else none

/-- The text after a given character. -/
def readMark (mark : Char) : List Char → Option (List Char)
  | c :: rest => if c = mark then some rest else none
  | [] => none

/-- The text after a date of the calendar. -/
def readDate (cs : List Char) : Option (List Char) := do
  let (year, cs) ← readFixed 4 cs
  let cs ← readMark '-' cs
  let (month, cs) ← readFixed 2 cs
  let cs ← readMark '-' cs
  let (day, cs) ← readFixed 2 cs
  if 1 ≤ month ∧ month ≤ 12 ∧ 1 ≤ day ∧ day ≤ daysInMonth year month then some cs
  else none

/-- The text after the hours and minutes of a day. -/
def readClock (cs : List Char) : Option (List Char) := do
  let (hour, cs) ← readFixed 2 cs
  let cs ← readMark ':' cs
  let (minute, cs) ← readFixed 2 cs
  if hour ≤ 23 ∧ minute ≤ 59 then some cs else none

/-- A fraction of a second in its usual form: nine places at most, no zeros at the end. -/
def fractionText (ds : List Char) : List Char :=
  match ((ds.take 9).reverse.dropWhile (· = '0')).reverse with
  | [] => []
  | places => '.' :: places

/-- The text of a time of day and what follows it. The seconds may be 60. -/
def readTimeOfDay (cs : List Char) : Option (List Char × List Char) := do
  let seconds ← readMark ':' (← readClock cs)
  let (second, rest) ← readFixed 2 seconds
  if 60 < second then none
  let clock := cs.take 8
  match rest with
  | '.' :: more =>
    let ds := more.takeWhile Char.isDigit
    if ds = [] then none
    else some (clock ++ fractionText ds, more.dropWhile Char.isDigit)
  | _ => some (clock, rest)

/-- The text of an offset, if there is one and nothing follows it. -/
def ofOffset? : List Char → Option (List Char)
  | [] => some []
  | ['Z'] => some ['Z']
  | ['z'] => some ['Z']
  | sign :: cs => do
    if sign ≠ '+' ∧ sign ≠ '-' then none
    if (← readClock cs) ≠ [] then none
    return if cs = ['0', '0', ':', '0', '0'] then '+' :: cs else sign :: cs

/-- A time of day with an optional offset. -/
def ofTimeWithOffset? (cs : List Char) : Option (List Char) := do
  let (time, rest) ← readTimeOfDay cs
  let offset ← ofOffset? rest
  return time ++ offset

/-- A date, a time of day, or a date with a time after `T`. -/
def ofTime? (cs : List Char) : Option Setting :=
  let time := match readDate cs with
    | some [] => some cs
    | some (mark :: rest) =>
      if mark = 'T' || mark = 't' then
        (ofTimeWithOffset? rest).map fun time => cs.take 10 ++ 'T' :: time
      else none
    | none =>
      match readTimeOfDay cs with
      | some (time, []) => some time
      | _ => none
  time.map fun t => .text (String.ofList t)

/-! ## Words -/

/-- The characters of values that are written without quotes. -/
def isWordChar (c : Char) : Bool :=
  c.isAlphanum || c = '_' || c = '+' || c = '-' || c = '.' || c = ':'

/-- The value that a word stands for. -/
def ofWord? (word : List Char) : Option Setting :=
  if word = ['t', 'r', 'u', 'e'] then some (.bool true)
  else if word = ['f', 'a', 'l', 's', 'e'] then some (.bool false)
  else (ofTime? word).or ((ofFloat? word).or (ofInteger? word))

/-- The word at the front of a text. A date may go on after a blank. -/
def readWord (cs : Input) : List Char × Input :=
  let word := cs.takeWhile isWordChar
  let rest := cs.drop word.length
  match rest with
  | ' ' :: more =>
    let time := more.takeWhile isWordChar
    if readDate word = some [] && time ≠ [] then
      (word ++ 'T' :: time, more.drop time.length)
    else (word, rest)
  | _ => (word, rest)

/-- The value at the front of a text that starts neither with a quote nor a bracket. -/
def readScalar (cs : Input) : Option (Setting × Input) :=
  let (word, rest) := readWord cs
  (ofWord? word).map fun value => (value, rest)

end StatusWatch.Toml
