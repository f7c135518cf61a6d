import StatusWatch.Condition.Basic
import StatusWatch.Metrics.ConditionFamilies
import StatusWatch.Metrics.Projection
import StatusWatch.Metrics.SnakeCase
import StatusWatch.ResourceKey

/-!
# Condition metrics of a kind

The handle through which an observer writes the metrics of one kind. Every write goes to
the families of the kind and, if the kind has them, to the families shared by all kinds.
Both take what they declare from one label map.

- `ConditionMetrics`: the handle.
- `ConditionMetrics.create`, `ConditionMetrics.unregister`: its lifetime in a registry.
- `labelSet`: the labels of a write.
- `setCondition`, `deleteCondition`: the presence and age of a condition state.
- `recordTransition`, `observeTransition`: entering and leaving a state.
- `setTermination`, `observeTermination`: terminating and being gone.
- `forget`: remove every series of a resource.
-/

namespace StatusWatch.Metrics

/-! ## Writing to one set of families -/

namespace ConditionFamilies

/-- Mark a condition state as present, for the given number of seconds. -/
def setCondition (f : ConditionFamilies) (r : Registry) (labels : Labels) (age : Float) :
    Registry :=
  (r.setGauge f.count labels 1.0).setGauge f.currentStatusSeconds labels age

/-- Delete the series of a gauge that have the given values of the labels it declares. -/
def deleteDeclared (ref : GaugeRef) (r : Registry) (labels : Labels) : Registry × Nat :=
  r.deleteGauges ref ((Collector.gauge ref).declared labels)

/-- Delete the presence and age series that have the given values. -/
def deleteCondition (f : ConditionFamilies) (r : Registry) (labels : Labels) : Registry × Nat :=
  let (r, n) := deleteDeclared f.count r labels
  let (r, m) := deleteDeclared f.currentStatusSeconds r labels
  (r, n + m)

/-- Delete all series of a resource. -/
def forget (f : ConditionFamilies) (r : Registry) (labels : Labels) : Registry × Nat :=
  let (r, n) := f.deleteCondition r labels
  let (r, m) := deleteDeclared f.terminationCurrentSeconds r labels
  (r, n + m)

end ConditionFamilies

/-! ## Handles -/

/-- The metrics of one kind. -/
structure ConditionMetrics where
  groupKind : GroupKind
  projection : LabelProjection
  families : ConditionFamilies
  /-- The shared families, if writes go to them too. -/
  legacy : Option ConditionFamilies
deriving DecidableEq, Inhabited

namespace ConditionMetrics

/-- What the names of a kind's families start with. -/
def namePrefix (g : GroupKind) : String := snakeCase g.kind ++ "_"

/-- Make and register the families of a kind. Nothing stays registered on failure. -/
def create (r : Registry) (groupKind : GroupKind) (legacy : Bool) (projection : LabelProjection) :
    Registry × Except MetricError ConditionMetrics :=
  match ConditionFamilies.new r (namePrefix groupKind) [] projection.labelNames with
  | .error e => (r, .error e)
  | .ok (made, families) =>
    match made.registerFamilies families with
    | (r, .error e) => (r, .error e)
    | (r, .ok ()) =>
      if legacy then
        match r.legacyFamilies with
        | (r, .ok shared) => (r, .ok { groupKind, projection, families, legacy := some shared })
        | (r, .error e) => (r.unregisterFamilies families, .error e)
      else (r, .ok { groupKind, projection, families, legacy := none })

/-- Unregister the families of the kind and give back the shared ones. -/
def unregister (m : ConditionMetrics) (r : Registry) : Registry :=
  let r := r.unregisterFamilies m.families
  match m.legacy with
  | some shared => r.releaseLegacy shared
  | none => r

/-- Stop using a handle without unregistering anything. -/
def abandon (m : ConditionMetrics) (r : Registry) : Registry :=
  match m.legacy with
  | some shared => r.dropLegacy shared
  | none => r

def legacyEnabled (m : ConditionMetrics) : Bool := m.legacy.isSome

/-- The sets of families that every write goes to. -/
def surfaces (m : ConditionMetrics) : List ConditionFamilies := m.families :: m.legacy.toList

/-! ## Labels -/

/-- The labels of a write: projected resource labels, the resource, group and kind, and
further ones, where later ones win. -/
def labelSet (m : ConditionMetrics) (key : Option ResourceKey) (resourceLabels : Labels)
    (extra : List (String × String)) : Labels :=
  let identity := match key with
    | some k => [(namespaceLabel, k.ns), (nameLabel, k.name)]
    | none => []
  (identity ++ [(groupLabel, m.groupKind.group), (kindLabel, m.groupKind.kind)] ++ extra).foldl
    (fun labels e => labels.insert e.1 e.2) (m.projection.project resourceLabels)

/-- The labels of a condition state. -/
def stateOf (c : Condition) : List (String × String) :=
  [(typeLabel, c.type), (statusLabel, c.status.text), (reasonLabel, c.reason)]

/-- The labels without the projected ones. -/
def withoutProjection (labels : Labels) : Labels :=
  labels.filter fun name _ => !isProjectedName name

/-- The labels that all series of a resource of this kind have in common. -/
def resourceSet (m : ConditionMetrics) (key : ResourceKey) (extra : List (String × String)) :
    Labels :=
  withoutProjection (m.labelSet (some key) ∅ extra)

/-! ## Writes -/

/-- Write to every set of families. -/
def onEach (m : ConditionMetrics) (r : Registry) (write : ConditionFamilies → Registry → Registry) :
    Registry :=
  m.surfaces.foldl (fun r f => write f r) r

/-- Delete from every set of families and add up the numbers of series. -/
def deleteOnEach (m : ConditionMetrics) (r : Registry)
    (delete : ConditionFamilies → Registry → Registry × Nat) : Registry × Nat :=
  m.surfaces.foldl
    (fun acc f =>
      let (r, n) := delete f acc.1
      (r, acc.2 + n))
    (r, 0)

/-- Mark a condition as present on a resource and refresh its age. -/
def setCondition (m : ConditionMetrics) (r : Registry) (key : ResourceKey) (labels : Labels)
    (c : Condition) (now : Instant) : Registry :=
  let labels := m.labelSet (some key) labels (stateOf c)
  let age := secondsBetween now c.lastTransition
  m.onEach r fun f r => f.setCondition r labels age

/-- Drop the presence and age of a condition state; tells how many series there were. -/
def deleteCondition (m : ConditionMetrics) (r : Registry) (key : ResourceKey) (c : Condition) :
    Registry × Nat :=
  let labels := m.resourceSet key (stateOf c)
  m.deleteOnEach r fun f r => f.deleteCondition r labels

/-- Count that a condition state was entered. -/
def recordTransition (m : ConditionMetrics) (r : Registry) (labels : Labels) (c : Condition) :
    Registry :=
  let labels := m.labelSet none labels (stateOf c)
  m.onEach r fun f r => r.incCounter f.transitionsTotal labels

/-- Record how long a condition had the status that it has left. -/
def observeTransition (m : ConditionMetrics) (r : Registry) (labels : Labels) (old : Condition)
    (seconds : Float) : Registry :=
  let labels := m.labelSet none labels [(typeLabel, old.type), (statusLabel, old.status.text)]
  m.onEach r fun f r => r.observe f.transitionSeconds labels seconds

/-- Show how long a resource has been terminating. -/
def setTermination (m : ConditionMetrics) (r : Registry) (key : ResourceKey) (labels : Labels)
    (seconds : Float) : Registry :=
  let labels := m.labelSet (some key) labels []
  m.onEach r fun f r => r.setGauge f.terminationCurrentSeconds labels seconds

/-- Record how long a termination took. -/
def observeTermination (m : ConditionMetrics) (r : Registry) (labels : Labels) (seconds : Float) :
    Registry :=
  let labels := m.labelSet none labels []
  m.onEach r fun f r => r.observe f.terminationDurationSeconds labels seconds

/-- Whether two label maps of a resource give different projected labels. -/
def projectionChanged (m : ConditionMetrics) (before after : Labels) : Bool :=
  !m.projection.isEmpty && m.projection.project before ≠ m.projection.project after

/-- Remove every series of a resource; tells how many there were. -/
def forget (m : ConditionMetrics) (r : Registry) (key : ResourceKey) : Registry × Nat :=
  let labels := m.resourceSet key []
  m.deleteOnEach r fun f r => f.forget r labels

end ConditionMetrics

end StatusWatch.Metrics
