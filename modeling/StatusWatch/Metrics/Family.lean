import StatusWatch.Metrics.Descriptor
import StatusWatch.ObjectMeta

/-!
# Metric families

A family holds series under tuples of label values. The vector of series can only be
reached with full tuples, so the family keeps an index of the tuples that are live
beside it and answers deletions by partial labels from the index.

- `SeriesVec α`: the series of a family with their values, reached by tuples of the
  right length only. Tuples whose values run together to the same text share one
  series, which shows the labels of the tuple that came first.
- `SeriesIndex`: label names and live tuples; `tuple` reads a tuple off a label map and
  `agrees` compares a tuple with partial labels.
- `Family α`: a descriptor, an index and a vector, changed together by `record`,
  `delete` and `deleteMatching`.
-/

namespace StatusWatch.Metrics

/-! ## Vectors -/

/-- The values of a series' labels, in the order in which the names are declared. -/
abbrev LabelTuple := List String

/-- What tells the series of a vector apart: the label values, run together. -/
def LabelTuple.joined (tuple : LabelTuple) : String := String.join tuple

/-- The series of a family, each with the tuple that it was made with. -/
structure SeriesVec (α : Type) where
  width : Nat
  series : List (LabelTuple × α)
deriving DecidableEq, Inhabited

namespace SeriesVec

variable {α : Type}

def empty (width : Nat) : SeriesVec α := ⟨width, []⟩

/-- The value of a series. -/
def get? (v : SeriesVec α) (tuple : LabelTuple) : Option α :=
  (v.series.find? fun s => s.1.joined = tuple.joined).map (·.2)

/-- The list with the value under a tuple replaced, or a new entry at its end. -/
def put (tuple : LabelTuple) (f : Option α → α) : List (LabelTuple × α) → List (LabelTuple × α)
  | [] => [(tuple, f none)]
  | (t, a) :: rest =>
    if t.joined = tuple.joined then (t, f (some a)) :: rest else (t, a) :: put tuple f rest

/-- Write a series, given its present value. Tuples of another length are refused. -/
def write? (v : SeriesVec α) (tuple : LabelTuple) (f : Option α → α) : Option (SeriesVec α) :=
  if tuple.length = v.width then some { v with series := put tuple f v.series } else none

/-- Drop a series. Tuples of another length are refused. -/
def remove? (v : SeriesVec α) (tuple : LabelTuple) : Option (SeriesVec α) :=
  if tuple.length = v.width then
    some { v with series := v.series.filter fun s => s.1.joined ≠ tuple.joined }
  else none

end SeriesVec

/-! ## Indices -/

/-- The label names of a family and the tuples that have a series. -/
structure SeriesIndex where
  labelNames : List String
  live : List LabelTuple
deriving DecidableEq, Inhabited

namespace SeriesIndex

/-- The values of the declared names; missing names are empty, undeclared ones ignored. -/
def tuple (i : SeriesIndex) (labels : Labels) : LabelTuple :=
  i.labelNames.map fun name => (labels.get? name).getD ""

/-- The value that a tuple has under a label name. -/
def valueOf? (i : SeriesIndex) (tuple : LabelTuple) (name : String) : Option String :=
  OrderedMap.find? name (i.labelNames.zip tuple)

/-- Whether a tuple has all the given values; no tuple has values of undeclared names. -/
def agrees (i : SeriesIndex) (labels : Labels) (tuple : LabelTuple) : Bool :=
  labels.entries.all fun l => i.valueOf? tuple l.1 = some l.2

def contains (i : SeriesIndex) (tuple : LabelTuple) : Bool := i.live.contains tuple

def add (i : SeriesIndex) (tuple : LabelTuple) : SeriesIndex :=
  if i.contains tuple then i else { i with live := i.live ++ [tuple] }

def remove (i : SeriesIndex) (tuple : LabelTuple) : SeriesIndex :=
  { i with live := i.live.filter fun t => t ≠ tuple }

end SeriesIndex

/-! ## Families -/

/-- A metric family. -/
structure Family (α : Type) where
  descriptor : Descriptor
  index : SeriesIndex
  vec : SeriesVec α
deriving DecidableEq, Inhabited

namespace Family

variable {α : Type}

/-- A family without series. -/
def new (d : Descriptor) : Family α :=
  { descriptor := d, index := ⟨d.labelNames, []⟩, vec := SeriesVec.empty d.labelNames.length }

/-- Write the series with the given labels. -/
def record (f : Family α) (labels : Labels) (step : Option α → α) : Family α :=
  let tuple := f.index.tuple labels
  { f with index := f.index.add tuple, vec := (f.vec.write? tuple step).getD f.vec }

/-- Drop a live tuple from index and vector. -/
def drop (f : Family α) (tuple : LabelTuple) : Family α :=
  { f with index := f.index.remove tuple, vec := (f.vec.remove? tuple).getD f.vec }

/-- Delete the series with exactly these labels; tells whether there was one. -/
def delete (f : Family α) (labels : Labels) : Family α × Bool :=
  let tuple := f.index.tuple labels
  if f.index.contains tuple then (f.drop tuple, true) else (f, false)

/-- The live tuples that have all the given values. -/
def matching (f : Family α) (labels : Labels) : List LabelTuple :=
  f.index.live.filter (f.index.agrees labels)

/-- Delete every series that has all the given values; tells how many there were. -/
def deleteMatching (f : Family α) (labels : Labels) : Family α × Nat :=
  let doomed := f.matching labels
  (doomed.foldl drop f, doomed.length)

end Family

end StatusWatch.Metrics
