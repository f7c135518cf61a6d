import StatusWatch.Metrics.Family
import StatusWatch.Metrics.Histogram

/-!
# Metric registries

A registry keeps all families that were ever made and knows which of them are
registered. Families are made unregistered and are then used by reference, so that
several holders can share one; what a registry shows are the registered families only.

- `GaugeRef`, `CounterRef`, `HistogramRef`: references to families.
- `Collector`: a family as it is registered, by name.
- `Registry`: the families, the registered collectors, and the dimensions that were seen
  under each name.
- `register`, `unregister`: registration. A name can be registered once at a time, and
  always with the dimensions it had first, even after it was unregistered.
- `LegacySlot`: the families shared by all kinds, with the number of their holders.
-/

namespace StatusWatch.Metrics

/-! ## References -/

structure GaugeRef where
  descriptor : Descriptor
  index : Nat
deriving DecidableEq, Inhabited

structure CounterRef where
  descriptor : Descriptor
  index : Nat
deriving DecidableEq, Inhabited

structure HistogramRef where
  descriptor : Descriptor
  index : Nat
deriving DecidableEq, Inhabited

/-- A reference to a family of any type. -/
inductive Collector where
  | gauge (ref : GaugeRef)
  | counter (ref : CounterRef)
  | histogram (ref : HistogramRef)
deriving DecidableEq

def Collector.descriptor : Collector → Descriptor
  | gauge ref => ref.descriptor
  | counter ref => ref.descriptor
  | histogram ref => ref.descriptor

/-- The labels whose names a family declares. -/
def Collector.declared (c : Collector) (labels : Labels) : Labels :=
  labels.filter fun name _ => c.descriptor.labelNames.contains name

/-- The six families that describe the conditions of a kind. -/
structure ConditionFamilies where
  /-- One for every present condition state. -/
  count : GaugeRef
  /-- How long every present condition state lasts. -/
  currentStatusSeconds : GaugeRef
  /-- How often a state was entered. -/
  transitionsTotal : CounterRef
  /-- How long states lasted that were left. -/
  transitionSeconds : HistogramRef
  /-- How long every terminating resource has been terminating. -/
  terminationCurrentSeconds : GaugeRef
  /-- How long terminations took. -/
  terminationDurationSeconds : HistogramRef
deriving DecidableEq, Inhabited

/-- The collectors in the order in which they are registered. -/
def ConditionFamilies.collectors (f : ConditionFamilies) : List Collector :=
  [.gauge f.count, .gauge f.currentStatusSeconds, .counter f.transitionsTotal,
    .histogram f.transitionSeconds, .gauge f.terminationCurrentSeconds,
    .histogram f.terminationDurationSeconds]

/-- The families shared by all kinds and the number of those who use them. -/
structure LegacySlot where
  families : ConditionFamilies
  holders : Nat
deriving DecidableEq, Inhabited

/-! ## Registries -/

/-- A histogram family and the bounds of its histograms. -/
structure HistogramFamily where
  bounds : List Float
  family : Family Histogram
deriving Inhabited

/-- Families and their registration. -/
structure Registry where
  /-- What the names of all shown families start with; nothing if empty. -/
  scope : String
  gauges : List (Family Float)
  counters : List (Family Nat)
  histograms : List HistogramFamily
  registered : OrderedMap String Collector
  dimensions : OrderedMap String (String × List String)
  legacy : Option LegacySlot
deriving Inhabited

namespace Registry

/-- The name scope of a registry for which none is given. -/
def defaultScope : String := "operator"

/-- A registry without families. -/
def new (scope : String) : Registry :=
  { scope, gauges := [], counters := [], histograms := [], registered := ∅, dimensions := ∅,
    legacy := none }

/-! ## Making families -/

def newGauge (r : Registry) (d : Descriptor) : Registry × GaugeRef :=
  ({ r with gauges := r.gauges ++ [.new d] }, ⟨d, r.gauges.length⟩)

def newCounter (r : Registry) (d : Descriptor) : Registry × CounterRef :=
  ({ r with counters := r.counters ++ [.new d] }, ⟨d, r.counters.length⟩)

def newHistogram (r : Registry) (d : Descriptor) (bounds : List Float) :
    Registry × HistogramRef :=
  ({ r with histograms := r.histograms ++ [⟨bucketBounds bounds, .new d⟩] },
    ⟨d, r.histograms.length⟩)

/-! ## Writing series -/

def setGauge (r : Registry) (ref : GaugeRef) (labels : Labels) (value : Float) : Registry :=
  { r with gauges := r.gauges.modify ref.index fun f => f.record labels fun _ => value }

def incCounter (r : Registry) (ref : CounterRef) (labels : Labels) : Registry :=
  { r with counters := r.counters.modify ref.index fun f =>
      f.record labels fun n => n.getD 0 + 1 }

def observe (r : Registry) (ref : HistogramRef) (labels : Labels) (value : Float) : Registry :=
  { r with histograms := r.histograms.modify ref.index fun h =>
      { h with family := h.family.record labels fun old =>
          (old.getD (Histogram.empty h.bounds)).observe value } }

/-- Delete the gauge series with exactly these labels. -/
def deleteGauge (r : Registry) (ref : GaugeRef) (labels : Labels) : Registry × Bool :=
  match r.gauges[ref.index]? with
  | none => (r, false)
  | some f =>
    let (f, existed) := f.delete labels
    ({ r with gauges := r.gauges.set ref.index f }, existed)

/-- Delete the gauge series that have all the given values. -/
def deleteGauges (r : Registry) (ref : GaugeRef) (labels : Labels) : Registry × Nat :=
  match r.gauges[ref.index]? with
  | none => (r, 0)
  | some f =>
    let (f, n) := f.deleteMatching labels
    ({ r with gauges := r.gauges.set ref.index f }, n)

/-- Delete the counter series that have all the given values. -/
def deleteCounters (r : Registry) (ref : CounterRef) (labels : Labels) : Registry × Nat :=
  match r.counters[ref.index]? with
  | none => (r, 0)
  | some f =>
    let (f, n) := f.deleteMatching labels
    ({ r with counters := r.counters.set ref.index f }, n)

/-- Delete the histogram series that have all the given values. -/
def deleteHistograms (r : Registry) (ref : HistogramRef) (labels : Labels) : Registry × Nat :=
  match r.histograms[ref.index]? with
  | none => (r, 0)
  | some h =>
    let (f, n) := h.family.deleteMatching labels
    ({ r with histograms := r.histograms.set ref.index { h with family := f } }, n)

/-! ## Families of any type -/

/-- Write a series: set a gauge, count up a counter, add a value to a histogram. -/
def write (r : Registry) (c : Collector) (labels : Labels) (value : Float) : Registry :=
  match c with
  | .gauge ref => r.setGauge ref labels value
  | .counter ref => r.incCounter ref labels
  | .histogram ref => r.observe ref labels value

/-- Delete the series that have all the given values. -/
def deleteMatching (r : Registry) (c : Collector) (labels : Labels) : Registry × Nat :=
  match c with
  | .gauge ref => r.deleteGauges ref labels
  | .counter ref => r.deleteCounters ref labels
  | .histogram ref => r.deleteHistograms ref labels

/-! ## Registration -/

/-- Register a family under its name. -/
def register (r : Registry) (c : Collector) : Except MetricError Registry :=
  let name := c.descriptor.name
  if r.registered.contains name then .error (.alreadyRegistered name)
  else
    let registered := { r with
      registered := r.registered.insert name c
      dimensions := r.dimensions.insert name c.descriptor.dimensions }
    match r.dimensions.get? name with
    | none => .ok registered
    | some seen =>
      if seen = c.descriptor.dimensions then .ok registered else .error (.inconsistent name)

/-- Unregister whatever is registered under the name of a family. -/
def unregister (r : Registry) (c : Collector) : Except MetricError Registry :=
  let name := c.descriptor.name
  if r.registered.contains name then .ok { r with registered := r.registered.erase name }
  else .error (.notRegistered name)

/-- Unregister families as far as they are registered. -/
def unregisterAll (r : Registry) (cs : List Collector) : Registry :=
  cs.foldl (fun r c => (r.unregister c).toOption.getD r) r

/-- Register families in order. If one cannot be registered, those before it are
unregistered again; `done` holds them. -/
def registerAll (r : Registry) (done : List Collector) :
    List Collector → Registry × Except MetricError Unit
  | [] => (r, .ok ())
  | c :: cs =>
    match r.register c with
    | .ok r => registerAll r (done ++ [c]) cs
    | .error e => (r.unregisterAll done, .error e)

end Registry

end StatusWatch.Metrics
