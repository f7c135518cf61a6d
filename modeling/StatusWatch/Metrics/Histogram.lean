/-!
# Histograms

A histogram counts observed values by upper bounds. Bucket counts are cumulative: each
bucket counts the values that are at most its bound.

- `Histogram`: buckets, number and sum of the values.
- `Histogram.observe`: count one more value.
- `bucketBounds`: the bounds in use for a list of requested ones.
-/

namespace StatusWatch.Metrics

/-- Counts of observed values. -/
structure Histogram where
  /-- Upper bounds with the number of values that are at most the bound. -/
  buckets : List (Float × Nat)
  count : Nat
  sum : Float
deriving Inhabited

namespace Histogram

/-- No values yet. -/
def empty (bounds : List Float) : Histogram :=
  { buckets := bounds.map fun b => (b, 0), count := 0, sum := 0.0 }

/-- Count a value. -/
def observe (h : Histogram) (value : Float) : Histogram :=
  { buckets := h.buckets.map fun b => (b.1, if value ≤ b.1 then b.2 + 1 else b.2)
    count := h.count + 1
    sum := h.sum + value }

end Histogram

/-- The bounds of a histogram for which none are requested, in seconds. -/
def defaultBounds : List Float :=
  [0.005, 0.01, 0.025, 0.05, 0.1, 0.25, 0.5, 1.0, 2.5, 5.0, 10.0]

/-- The bounds in use: the default ones if none are requested, and no infinite one at the
end, since the number of all values is kept anyway. -/
def bucketBounds (requested : List Float) : List Float :=
  if requested.isEmpty then defaultBounds
  else match requested.getLast? with
    | some last => if last.isInf && 0.0 < last then requested.dropLast else requested
    | none => requested

end StatusWatch.Metrics
