/-!
# Reading decimals

- `natOfDigits`: the number that a run of digits stands for.
- `readInt?`: an optional sign and at least one digit.
- `read?`: the float a text stands for: an optional sign, then `inf`,
  `infinity` or `nan` in any case, or digits with an optional point (a digit on
  at least one side of it) and an optional exponent. Nothing may surround it. The
  float is the one nearest to the decimal.
- `scaleByTen`: a whole number times a power of ten, rounded once for the number
  and once for the scaling.
-/

namespace StatusWatch.Decimal

def digitValue (c : Char) : Nat := c.toNat - '0'.toNat

/-- The number a run of decimal digits stands for. -/
def natOfDigits (ds : List Char) : Nat :=
  ds.foldl (fun n c => 10 * n + digitValue c) 0

/-- A number of at least one digit, and nothing else. -/
def readNat? (cs : List Char) : Option Nat :=
  if cs ≠ [] ∧ cs.all Char.isDigit then some (natOfDigits cs) else none

/-- The sign in front of a number and what follows it; `true` stands for a minus. -/
def readSign : List Char → Bool × List Char
  | '-' :: rest => (true, rest)
  | '+' :: rest => (false, rest)
  | cs => (false, cs)

/-- An optional sign and at least one digit. -/
def readInt? (cs : List Char) : Option Int :=
  let (negative, rest) := readSign cs
  (readNat? rest).map fun (n : Nat) => if negative then -(n : Int) else (n : Int)

/-- The float nearest to `m · 10 ^ e`. Exponents so large that the result is zero or
infinite whatever the digits are cut short. -/
def nearest (m : Nat) (e : Int) : Float :=
  let size : Int := (Nat.toDigits 10 m).length
  if m = 0 then 0.0
  else if 400 < e + size then 1.0 / 0.0
  else if e + size < -400 then 0.0
  else Float.ofScientific m (e < 0) e.natAbs

/-- The exponent part of a decimal: nothing, or `e` and a whole number. -/
def readExponent? : List Char → Option Int
  | [] => some 0
  | c :: rest => if c = 'e' ∨ c = 'E' then readInt? rest else none

/-- A decimal without a sign. -/
def readUnsigned? (cs : List Char) : Option Float :=
  let whole := cs.takeWhile Char.isDigit
  let rest := cs.dropWhile Char.isDigit
  let (part, rest) := match rest with
    | '.' :: more => (more.takeWhile Char.isDigit, more.dropWhile Char.isDigit)
    | _ => ([], rest)
  if whole = [] ∧ part = [] then none
  else
    (readExponent? rest).map fun e => nearest (natOfDigits (whole ++ part)) (e - part.length)

/-- The float a text stands for, if it is written as one. -/
def read? (cs : List Char) : Option Float :=
  let (negative, rest) := readSign cs
  let magnitude :=
    match String.ofList (rest.map Char.toLower) with
    | "inf" | "infinity" => some (1.0 / 0.0)
    | "nan" => some (0.0 / 0.0)
    | _ => readUnsigned? rest
  magnitude.map fun x => if negative then -x else x

/-- `m · 10 ^ e` as the float nearest to `m`, multiplied or divided by the power of
ten. Powers beyond the range of floats are applied in steps; a result that is too
large for a float is refused. -/
def scaleByTen (m : Nat) (e : Int) : Option Float :=
  let x := Float.ofNat m
  if 0 ≤ e then
    if x == 0.0 then some x
    else if 308 < e then none
    else
      let y := x * Float.ofScientific 1 false e.toNat
      if y.isInf then none else some y
  else
    let places := (-e).toNat
    if x == 0.0 then some x
    else
      let steps := min (places / 308) 3
      let y := (List.range steps).foldl (fun y _ => y / Float.ofScientific 1 false 308) x
      some (y / Float.ofScientific 1 false (min (places - 308 * steps) 308))

end StatusWatch.Decimal
