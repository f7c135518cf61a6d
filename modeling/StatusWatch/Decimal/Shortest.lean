/-!
# The shortest decimal of a float

A float stands for an interval of reals: those that round to it. Its text is the
decimal with the fewest digits inside that interval, and the nearest one where two
of that length are inside. There are two texts. The plain one is always positional
and has no final `.0`. The one in documents always has a point or an exponent, which
tells it from a whole number.

- `Fraction`: a positive finite float and the ends of its interval, as
  numerators over one denominator, so that all comparisons are exact.
- `Fraction.digits`: the selected digits and their power of ten.
- `positional`, `scientific`: how digits and a power of ten are laid out.
- `render`: the plain text of any float.
- `renderInDocument`: the text of a float in a document.
-/

namespace StatusWatch.Decimal

/-- A positive number between the ends of the interval it stands for, all over one
denominator. The ends belong to the interval when `closed` holds. -/
structure Fraction where
  value : Nat
  low : Nat
  high : Nat
  denominator : Nat
  closed : Bool

/-- The positive finite float with the given bits. The ends lie halfway to the
neighbours; below a power of two the lower neighbour is half as far away. -/
def Fraction.ofBits (bits : UInt64) : Fraction :=
  let field := ((bits >>> 52) &&& 0x7ff).toNat
  let fraction := (bits &&& 0xfffffffffffff).toNat
  let significand := if field = 0 then fraction else 0x10000000000000 + fraction
  let power : Int := if field = 0 then -1074 else (field : Int) - 1075
  let below := if fraction = 0 && 1 < field then 1 else 2
  let unit := Nat.pow 2 power.toNat
  { value := 4 * significand * unit
    low := (4 * significand - below) * unit
    high := (4 * significand + 2) * unit
    denominator := 4 * Nat.pow 2 (-power).toNat
    closed := significand % 2 = 0 }

/-- Which of two equally near decimals is taken. -/
inductive Tie where
  | larger
  | even
deriving DecidableEq

/-- The choice between `d` and `d + 1`. -/
def Tie.choose (d : Nat) : Tie → Nat
  | larger => d + 1
  | even => if d % 2 = 0 then d else d + 1

namespace Fraction

/-- `d · 10 ^ e` over the denominator, scaled so that it can be compared with a
numerator times `lift e`. -/
def scaled (x : Fraction) (d : Nat) (e : Int) : Nat := d * Nat.pow 10 e.toNat * x.denominator

/-- The factor that brings numerators to the scale of `scaled`. -/
def lift (e : Int) : Nat := Nat.pow 10 (-e).toNat

/-- Whether `d · 10 ^ e` lies in the interval. -/
def holds (x : Fraction) (d : Nat) (e : Int) : Bool :=
  let s := x.scaled d e
  let low := x.low * lift e
  let high := x.high * lift e
  (low < s && s < high) || (x.closed && (s = low || s = high))

/-- The least `k` with the value below `10 ^ k`, searched around the estimate that
the binary logarithms give. -/
def magnitude (x : Fraction) : Int :=
  let estimate : Int := ((x.value.log2 : Int) - (x.denominator.log2 : Int)) * 30103 / 100000
  let below (k : Int) : Bool := x.value * lift k < x.scaled 1 k
  (([-1, 0, 1, 2] : List Int).map (estimate + ·)).find? below |>.getD (estimate + 3)

/-- The candidates on the grid `10 ^ e` are the two grid points around the value; of
two inside the interval the nearer one is taken, and `tie` decides between equally
near ones. -/
def onGrid? (tie : Tie) (x : Fraction) (e : Int) : Option Nat :=
  let d := x.value * lift e / x.scaled 1 e
  match x.holds d e, x.holds (d + 1) e with
  | true, true =>
    let twice := 2 * (x.value * lift e)
    let middle := x.scaled (2 * d + 1) e
    some (if twice < middle then d else if middle < twice then d + 1 else tie.choose d)
  | true, false => some d
  | false, true => some (d + 1)
  | false, false => none

/-- The shortest digits of the value and their power of ten: the first grid, from
one digit on, with a point in the interval. The upper candidate may be the next
power of ten, which has the single digit 1. Seventeen digits always suffice. -/
def digits (tie : Tie) (x : Fraction) : Nat × Int :=
  let k := x.magnitude
  ((List.range 17).findSome? fun (n : Nat) =>
    let e := k - (n + 1 : Nat)
    (x.onGrid? tie e).map fun d => if d = Nat.pow 10 (n + 1) then (1, k) else (d, e)).getD (0, 0)

end Fraction

/-- `d · 10 ^ e` without an exponent: zeros fill the places that the digits do not reach. -/
def positional (d : Nat) (e : Int) : List Char :=
  let ds := Nat.toDigits 10 d
  if 0 ≤ e then ds ++ List.replicate e.toNat '0'
  else
    let places := (-e).toNat
    if places < ds.length then
      ds.take (ds.length - places) ++ '.' :: ds.drop (ds.length - places)
    else '0' :: '.' :: (List.replicate (places - ds.length) '0' ++ ds)

/-- `d · 10 ^ e` as one digit, a point before the others and an exponent with its sign. -/
def scientific (d : Nat) (e : Int) : List Char :=
  let ds := Nat.toDigits 10 d
  let exponent := e + ds.length - 1
  ds.take 1 ++ (if ds.length = 1 then [] else '.' :: ds.drop 1) ++
    'e' :: (if exponent < 0 then '-' else '+') :: Nat.toDigits 10 exponent.natAbs

/-- The plain text of a finite float of the given magnitude bits. Whole numbers below
`2 ^ 53` are exact, so their digits are written as they are. -/
def plain (bits : UInt64) : List Char :=
  let x := Float.ofBits bits
  if bits = 0 then ['0']
  else if x < 9007199254740992.0 && x.floor == x then Nat.toDigits 10 x.toUInt64.toNat
  else
    let (d, e) := (Fraction.ofBits bits).digits .larger
    positional d e

/-- The text in a document of a finite float of the given magnitude bits: positional from
`0.00001` up to below `10 ^ 16`, with at least one digit after the point, and scientific
outside. -/
def inDocument (bits : UInt64) : List Char :=
  if bits = 0 then ['0', '.', '0']
  else
    let (d, e) := (Fraction.ofBits bits).digits .even
    let point := e + (Nat.toDigits 10 d).length
    if -5 < point ∧ point ≤ 16 then
      if 0 ≤ e then positional d e ++ ['.', '0'] else positional d e
    else scientific d e

/-- The text of a float, given how positive finite ones are written; else it is `NaN`,
`inf` or `-inf`. -/
def renderWith (magnitudeText : UInt64 → List Char) (x : Float) : String :=
  if x.isNaN then "NaN"
  else
    let bits := x.toBits
    let magnitude := bits &&& 0x7fffffffffffffff
    let text := if x.isInf then ['i', 'n', 'f'] else magnitudeText magnitude
    String.ofList (if magnitude = bits then text else '-' :: text)

/-- The text of a float: the shortest decimal that reads back, without an exponent. -/
def render : Float → String := renderWith plain

/-- The text of a float in a document, which has a point or an exponent when finite. -/
def renderInDocument : Float → String := renderWith inDocument

end StatusWatch.Decimal
