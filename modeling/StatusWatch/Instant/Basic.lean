import StatusWatch.Instant.Date

/-!
# Instants

A point of UTC time: a date, a minute of the day, a second and nanoseconds. A
leap second is written as second 59 with a full second of nanoseconds on top,
so it lies after the second it follows and before the next minute.

- `Instant.ofUnix?`: the instant a number of seconds and nanoseconds from 1970.
- `Instant.rank`: a number that orders instants in time.
- `Instant.millisSince`: whole milliseconds between two instants, toward zero.
- `secondsBetween`: the same in seconds, never negative.
-/

namespace StatusWatch

/-- A point of UTC time. -/
structure Instant where
  date : Date
  /-- Minutes since midnight. -/
  minute : Nat
  second : Nat
  nanos : Nat
  minute_lt : minute < 1440
  second_lt : second < 60
  /-- Only a last second of a minute carries a leap second. -/
  nanos_lt : nanos < 1000000000 ∨ (second = 59 ∧ nanos < 2000000000)
deriving DecidableEq

namespace Instant

/-- The instant with the given numbers, if it exists. -/
def of? (date : Date) (minute second nanos : Nat) : Option Instant :=
  if h : minute < 1440 ∧ second < 60 ∧
      (nanos < 1000000000 ∨ (second = 59 ∧ nanos < 2000000000)) then
    some ⟨date, minute, second, nanos, h.1, h.2.1, h.2.2⟩
  else none

theorem of?_self (t : Instant) : of? t.date t.minute t.second t.nanos = some t := by
  simp [of?, t.minute_lt, t.second_lt, t.nanos_lt]

/-- Midnight of 1970-01-01. -/
def epoch : Instant := ⟨Date.epoch, 0, 0, 0, by decide, by decide, by decide⟩

instance : Inhabited Instant := ⟨epoch⟩

/-- The instant the given seconds and nanoseconds after 1970-01-01, if it is in range. -/
def ofUnix? (seconds nanos : Int) : Option Instant := do
  let total := seconds * 1000000000 + nanos
  let seconds := total / 1000000000
  let date ← Date.ofNumber? (seconds / 86400)
  let ofDay := (seconds % 86400).toNat
  of? date (ofDay / 60) (ofDay % 60) (total % 1000000000).toNat

/-- Seconds since midnight, a leap second not counted. -/
def secondOfDay (t : Instant) : Nat := t.minute * 60 + t.second

/-- A number that orders instants in time. -/
def rank (t : Instant) : Int :=
  (t.date.number * 86400 + t.secondOfDay) * 2000000000 + t.nanos

/-- Whether the first instant is not after the second. -/
def notAfter (a b : Instant) : Bool := a.rank ≤ b.rank

/-- Nanoseconds from `earlier` to `later`. A leap second counts only for the instant
that lies later in its day. -/
def nanosSince (later earlier : Instant) : Int :=
  let days := later.date.number - earlier.date.number
  let seconds : Int := (later.secondOfDay : Int) - earlier.secondOfDay
  let leap : Int :=
    if earlier.secondOfDay < later.secondOfDay ∧ 1000000000 ≤ earlier.nanos then 1
    else if later.secondOfDay < earlier.secondOfDay ∧ 1000000000 ≤ later.nanos then -1
    else 0
  (days * 86400 + seconds + leap) * 1000000000 + ((later.nanos : Int) - earlier.nanos)

/-- Whole milliseconds from `earlier` to `later`, cut toward zero. -/
def millisSince (later earlier : Instant) : Int := (nanosSince later earlier).tdiv 1000000

end Instant

/-- Seconds from `earlier` to `later` with millisecond resolution, never negative. -/
def secondsBetween (later earlier : Instant) : Float :=
  Float.ofNat (later.millisSince earlier).toNat / 1000.0

end StatusWatch
