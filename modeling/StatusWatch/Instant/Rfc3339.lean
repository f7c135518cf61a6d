import StatusWatch.Decimal.Reader
import StatusWatch.Instant.Basic

/-!
# RFC 3339 times

Reading is more lenient than the standard: blanks are allowed between the parts,
month and day may have one digit, a blank may stand for the `T`, the year may be
signed and longer, a minus sign or `UTC` may be used for the offset, and second 60
is a leap second. Writing always gives UTC with a `Z` and the fewest of none,
three, six or nine fraction digits that are exact.

- `Instant.TimeError`: why a text is no time.
- `Instant.parse`: read a time with any offset.
- `Instant.render`: write a time.
-/

namespace StatusWatch.Instant

/-- Why a text is no time. -/
inductive TimeError where
  /-- The text ends too early. -/
  | tooShort
  /-- A character does not belong where it stands. -/
  | invalid
  /-- A number is outside the range of its part. -/
  | outOfRange
  /-- Text follows the time. -/
  | trailing
  /-- The offset leads out of the calendar. -/
  | impossible
deriving DecidableEq, Repr

def TimeError.message : TimeError → String
  | tooShort => "premature end of input"
  | invalid => "input contains invalid characters"
  | outOfRange => "input is out of range"
  | trailing => "trailing input"
  | impossible => "no possible date and time matching input"

/-- The blanks of Unicode. -/
def isBlank (c : Char) : Bool :=
  let n := c.toNat
  (0x09 ≤ n && n ≤ 0x0d) || n = 0x20 || n = 0x85 || n = 0xa0 || n = 0x1680 ||
    (0x2000 ≤ n && n ≤ 0x200a) || n = 0x2028 || n = 0x2029 || n = 0x202f || n = 0x205f ||
    n = 0x3000

/-! ## Reading -/

/-- The outcome of reading. -/
abbrev Read := Except TimeError

def skipBlanks (cs : List Char) : List Char := cs.dropWhile isBlank

/-- The largest number that the reader keeps while it reads digits. -/
def maxNumber : Nat := 0x7fffffffffffffff

/-- A number of one to `width` digits. -/
def readNumber (width : Nat) (cs : List Char) : Read (Nat × List Char) :=
  match cs with
  | [] => .error .tooShort
  | c :: _ =>
    if c.isDigit then
      let ds := (cs.take width).takeWhile Char.isDigit
      let n := Decimal.natOfDigits ds
      if n ≤ maxNumber then .ok (n, cs.drop ds.length) else .error .outOfRange
    else .error .invalid

/-- Blanks, then a number of one or two digits between the bounds. -/
def readPart (low high : Nat) (cs : List Char) : Read (Nat × List Char) := do
  let (n, rest) ← readNumber 2 (skipBlanks cs)
  if low ≤ n ∧ n ≤ high then .ok (n, rest) else .error .outOfRange

/-- Blanks, then the given mark. -/
def readMark (mark : Char) (cs : List Char) : Read (Unit × List Char) :=
  match skipBlanks cs with
  | [] => .error .tooShort
  | c :: rest => if c = mark then .ok ((), rest) else .error .invalid

/-- A year: four digits at most, or a sign and any number of digits. -/
def readYear (cs : List Char) : Read (Int × List Char) := do
  let (year, rest) ← match skipBlanks cs with
    | '-' :: rest => do
      let (n, rest') ← readNumber rest.length rest
      pure (-(n : Int), rest')
    | '+' :: rest => do
      let (n, rest') ← readNumber rest.length rest
      pure ((n : Int), rest')
    | cs => do
      let (n, rest') ← readNumber 4 cs
      pure ((n : Int), rest')
  if -0x80000000 ≤ year ∧ year < 0x80000000 then .ok (year, rest) else .error .outOfRange

/-- The mark between date and time. -/
def readTimeMark : List Char → Read (Unit × List Char)
  | [] => .error .tooShort
  | c :: rest => if c = 'T' ∨ c = 't' ∨ c = ' ' then .ok ((), rest) else .error .invalid

/-- An optional fraction of a second in nanoseconds; digits after the ninth are skipped. -/
def readFraction : List Char → Read (Nat × List Char)
  | '.' :: rest => do
    let (n, rest') ← readNumber 9 rest
    let places := rest.length - rest'.length
    .ok (n * Nat.pow 10 (9 - places), rest'.dropWhile Char.isDigit)
  | cs => .ok (0, cs)

/-- Two digits of an offset. A lone ASCII character is too short, and so is nothing. -/
def readPair : List Char → Read ((Char × Char) × List Char)
  | [] => .error .tooShort
  | [c] => if c.toNat < 128 then .error .tooShort else .error .invalid
  | a :: b :: rest => .ok ((a, b), rest)

/-- The offset from UTC in minutes. -/
def readOffset (cs : List Char) : Read (Int × List Char) :=
  match skipBlanks cs with
  | 'Z' :: rest | 'z' :: rest => .ok (0, rest)
  | [] => .error .tooShort
  | sign :: rest =>
    if (sign :: rest.take 2).map Char.toLower = ['u', 't', 'c'] then .ok (0, rest.drop 2)
    else if sign = '+' ∨ sign = '-' ∨ sign = '\u2212' then do
      let ((a, b), rest) ← readPair rest
      if !(a.isDigit && b.isDigit) then .error .invalid
      else
        let hours := Decimal.natOfDigits [a, b]
        let ((a, b), rest) ← readPair (rest.dropWhile fun c => c = ':' || isBlank c)
        if !(a.isDigit && b.isDigit) then .error .invalid
        else
          let minutes := Decimal.natOfDigits [a, b]
          if 60 ≤ minutes then .error .outOfRange
          else
            let offset : Int := hours * 60 + minutes
            .ok (if sign = '+' then offset else -offset, rest)
    else .error .invalid

/-- The UTC instant of a local date and time at the given offset in minutes. -/
def atOffset (date : Date) (minute second nanos : Nat) (offset : Int) : Except TimeError Instant :=
  if 1440 ≤ offset.natAbs then .error .outOfRange
  else
    let utc := (minute : Int) - offset
    let day := if utc < 0 then date.previous? else if 1440 ≤ utc then date.next? else some date
    match day.bind fun d => of? d (utc % 1440).toNat second nanos with
    | some t => .ok t
    | none => .error .impossible

/-- Read a time. -/
def parse (text : String) : Except TimeError Instant := do
  let (year, cs) ← readYear text.toList
  let (_, cs) ← readMark '-' cs
  let (month, cs) ← readPart 1 12 cs
  let (_, cs) ← readMark '-' cs
  let (day, cs) ← readPart 1 31 cs
  let (_, cs) ← readTimeMark cs
  let (hour, cs) ← readPart 0 23 cs
  let (_, cs) ← readMark ':' cs
  let (minute, cs) ← readPart 0 59 cs
  let (_, cs) ← readMark ':' cs
  let (second, cs) ← readPart 0 60 cs
  let (nanos, cs) ← readFraction cs
  let (offset, cs) ← readOffset cs
  if skipBlanks cs ≠ [] then .error .trailing
  else match Date.of? year month day with
    | none => .error .outOfRange
    | some date =>
      if second = 60 then atOffset date (hour * 60 + minute) 59 (nanos + 1000000000) offset
      else atOffset date (hour * 60 + minute) second nanos offset

/-! ## Writing -/

/-- A number with leading zeros up to a width. -/
def padded (width n : Nat) : List Char :=
  let ds := Nat.toDigits 10 n
  List.replicate (width - ds.length) '0' ++ ds

/-- Years of four digits are written bare, all others with a sign and four digits at least. -/
def renderYear (year : Int) : List Char :=
  if 0 ≤ year ∧ year ≤ 9999 then padded 4 year.toNat
  else (if year < 0 then '-' else '+') :: padded 4 year.natAbs

/-- The fraction of a second, with as many groups of three digits as it needs. -/
def renderFraction (nanos : Nat) : List Char :=
  if nanos = 0 then []
  else if nanos % 1000000 = 0 then '.' :: padded 3 (nanos / 1000000)
  else if nanos % 1000 = 0 then '.' :: padded 6 (nanos / 1000)
  else '.' :: padded 9 nanos

/-- Write a time in UTC. -/
def render (t : Instant) : String :=
  let leap := t.nanos / 1000000000
  String.ofList <|
    renderYear t.date.year ++ '-' :: padded 2 t.date.month ++ '-' :: padded 2 t.date.day ++
      'T' :: padded 2 (t.minute / 60) ++ ':' :: padded 2 (t.minute % 60) ++
      ':' :: padded 2 (t.second + leap) ++ renderFraction (t.nanos % 1000000000) ++ ['Z']

end StatusWatch.Instant
