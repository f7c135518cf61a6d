import StatusWatch.Metrics.Registry

/-!
# Families of condition metrics

The six families that describe conditions exist once per kind, with the kind in their
names, and once for all kinds together, with group and kind as labels. The second set,
the legacy families, is made when it is first asked for and shared by all holders.

- `ConditionFamilies.new`: the six families with a name prefix, scope labels after the
  identity labels and extra labels at the end.
- `Registry.legacyFamilies`, `Registry.releaseLegacy`: take and give back the shared
  families; they are unregistered when the last holder gives them back.
- `Registry.dropLegacy`: a holder goes away without giving them back.
-/

namespace StatusWatch.Metrics

/-! ## Label names -/

def namespaceLabel : String := "namespace"
def nameLabel : String := "name"
def groupLabel : String := "group"
def kindLabel : String := "kind"
def typeLabel : String := "type"
def statusLabel : String := "status"
def reasonLabel : String := "reason"

/-- The labels that identify a resource. -/
def identityLabels : List String := [namespaceLabel, nameLabel]

/-- The labels that identify the state of a condition. -/
def stateLabels : List String := [typeLabel, statusLabel, reasonLabel]

/-! ## The six families -/

/-- Bounds of durations, in seconds. -/
def durationBounds : List Float :=
  [0.5, 1.0, 2.5, 5.0, 10.0, 30.0, 60.0, 120.0, 300.0, 600.0, 1800.0, 3600.0, 7200.0, 21600.0,
    43200.0, 86400.0]

/-- The name of a family without its prefix, its help text, and the labels before and
after the scope labels. -/
structure FamilyPlan where
  suffix : String
  help : String
  head : List String
  tail : List String
deriving DecidableEq

namespace FamilyPlan

def count : FamilyPlan where
  suffix := "status_condition_count"
  help := "The number of a condition for a given object, type and status. e.g. Alarm := Available=False > 0"
  head := identityLabels
  tail := stateLabels

def currentStatusSeconds : FamilyPlan where
  suffix := "status_condition_current_status_seconds"
  help := "The current amount of time in seconds that a status condition has been in a specific state."
  head := identityLabels
  tail := stateLabels

def transitionsTotal : FamilyPlan where
  suffix := "status_condition_transitions_total"
  help := "The count of transitions of a given object, type and status."
  head := []
  tail := stateLabels

def transitionSeconds : FamilyPlan where
  suffix := "status_condition_transition_seconds"
  help := "The amount of time a condition was in a given state before transitioning."
  head := []
  tail := [typeLabel, statusLabel]

def terminationCurrentSeconds : FamilyPlan where
  suffix := "termination_current_time_seconds"
  help := "The current amount of time in seconds that an object has been in terminating state."
  head := identityLabels
  tail := []

def terminationDurationSeconds : FamilyPlan where
  suffix := "termination_duration_seconds"
  help := "The amount of time taken by an object to terminate completely."
  head := []
  tail := []

/-- The descriptor of a planned family. -/
def descriptor (p : FamilyPlan) (pre : String) (scope extra : List String) :
    Except MetricError Descriptor :=
  Descriptor.of (pre ++ p.suffix) p.help (p.head ++ scope ++ p.tail ++ extra)

end FamilyPlan

/-- Make the six families, unregistered. -/
def ConditionFamilies.new (r : Registry) (pre : String) (scope extra : List String) :
    Except MetricError (Registry × ConditionFamilies) := do
  let count ← FamilyPlan.count.descriptor pre scope extra
  let currentStatusSeconds ← FamilyPlan.currentStatusSeconds.descriptor pre scope extra
  let transitionsTotal ← FamilyPlan.transitionsTotal.descriptor pre scope extra
  let transitionSeconds ← FamilyPlan.transitionSeconds.descriptor pre scope extra
  let terminationCurrentSeconds ← FamilyPlan.terminationCurrentSeconds.descriptor pre scope extra
  let terminationDurationSeconds ← FamilyPlan.terminationDurationSeconds.descriptor pre scope extra
  let (r, count) := r.newGauge count
  let (r, currentStatusSeconds) := r.newGauge currentStatusSeconds
  let (r, transitionsTotal) := r.newCounter transitionsTotal
  let (r, transitionSeconds) := r.newHistogram transitionSeconds durationBounds
  let (r, terminationCurrentSeconds) := r.newGauge terminationCurrentSeconds
  let (r, terminationDurationSeconds) := r.newHistogram terminationDurationSeconds durationBounds
  return (r, ⟨count, currentStatusSeconds, transitionsTotal, transitionSeconds,
    terminationCurrentSeconds, terminationDurationSeconds⟩)

namespace Registry

/-- Register the six families; if one cannot be registered, none is. -/
def registerFamilies (r : Registry) (f : ConditionFamilies) : Registry × Except MetricError Unit :=
  r.registerAll [] f.collectors

def unregisterFamilies (r : Registry) (f : ConditionFamilies) : Registry :=
  r.unregisterAll f.collectors

/-! ## The shared families -/

/-- Take the shared families, which are made and registered if nobody did before. -/
def legacyFamilies (r : Registry) : Registry × Except MetricError ConditionFamilies :=
  match r.legacy with
  | some slot =>
    ({ r with legacy := some { slot with holders := slot.holders + 1 } }, .ok slot.families)
  | none =>
    match ConditionFamilies.new r "" [groupLabel, kindLabel] [] with
    | .error e => (r, .error e)
    | .ok (made, families) =>
      match made.registerFamilies families with
      | (r, .error e) => (r, .error e)
      | (r, .ok ()) => ({ r with legacy := some ⟨families, 1⟩ }, .ok families)

/-- One holder fewer of the shared families. -/
def dropLegacy (r : Registry) (families : ConditionFamilies) : Registry :=
  match r.legacy with
  | some slot =>
    if slot.families = families then
      { r with legacy := some { slot with holders := slot.holders - 1 } }
    else r
  | none => r

/-- Give the shared families back; the last holder unregisters them. -/
def releaseLegacy (r : Registry) (families : ConditionFamilies) : Registry :=
  match r.legacy with
  | some slot =>
    if slot.families = families ∧ slot.holders = 1 then
      { r.unregisterFamilies families with legacy := none }
    else r.dropLegacy families
  | none => r

end Registry

end StatusWatch.Metrics
