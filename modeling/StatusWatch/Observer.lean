import StatusWatch.Event.Basic
import StatusWatch.Metrics.ConditionMetrics
import StatusWatch.Resource.Store
import StatusWatch.Settings.Basic
import StatusWatch.Snapshot

/-!
# Observing transitions

Each reconcile compares the conditions of a resource with the snapshot taken by the
previous reconcile of the same key and turns the difference into metrics and events.
Only the two snapshots are compared, so several changes in between are one net
transition.

- `Observer`: kind, settings, metrics handle and snapshots.
- `Observer.create`, `Observer.shutdown`: its lifetime in a registry.
- `Watch`: an observer with the registry it writes to.
- `Watch.reconcile`: one step: what was fetched is compared, reported and remembered.
- `Watch.run`: a sequence of steps on any keys.
-/

namespace StatusWatch

open Metrics (ConditionMetrics MetricError Registry)

/-- Watches the conditions of one kind of resource. -/
structure Observer where
  groupKind : GroupKind
  settings : ObserverSettings
  metrics : ConditionMetrics
  snapshots : SnapshotStore
deriving Inhabited

/-- When a resource is to be observed again, in seconds; not at all once it is gone. -/
structure ReconcileOutcome where
  requeueAfterSecs : Option UInt64
deriving DecidableEq, Inhabited

namespace Observer

/-- Create an observer and register its metric families. -/
def create (r : Registry) (groupKind : GroupKind) (settings : ObserverSettings) :
    Registry × Except MetricError Observer :=
  let projection := LabelProjection.of settings.metrics.labelProjection
  let (r, metrics) := ConditionMetrics.create r groupKind settings.metrics.legacyMetrics projection
  (r, metrics.map fun metrics => { groupKind, settings, metrics, snapshots := ∅ })

/-- Unregister the observer's metric families. -/
def shutdown (o : Observer) (r : Registry) : Registry := o.metrics.unregister r

/-- How events refer to a resource. -/
def reference (o : Observer) (key : ResourceKey) (uid : String) : ObjectReference :=
  ⟨key, o.groupKind, uid⟩

/-- Whether a condition state that was seen no longer holds: the type is gone, or its
status or reason is another. -/
def isStale (current : Snapshot) (old : Condition) : Bool :=
  match current.get? old.type with
  | none => true
  | some now => now.status ≠ old.status || now.reason ≠ old.reason

/-- The condition as it was before, if the condition is new or its status moved; nothing
if the status is the same. -/
def movedFrom (previous : Option Snapshot) (c : Condition) : Option (Option Condition) :=
  let old := previous.bind fun p => p.get? c.type
  if old.any fun o => o.status = c.status then none else some old

end Observer

/-- An observer and the registry it writes to. -/
structure Watch where
  observer : Observer
  registry : Registry

/-- What a reconcile answers. -/
structure Reconciled where
  outcome : Except FetchError ReconcileOutcome
  /-- The events that were published, in order. -/
  events : List StatusEvent

namespace Watch

/-- Write to the registry. -/
def write (w : Watch) (f : ConditionMetrics → Registry → Registry) : Watch :=
  { w with registry := f w.observer.metrics w.registry }

/-! ## A resource that is gone -/

/-- Remove every series of a key. -/
def forget (w : Watch) (key : ResourceKey) : Watch :=
  w.write fun m r => (m.forget r key).1

/-- The resource is gone: drop its series and snapshot, record how long its termination
took, and announce the finalizers that it still had. -/
def finalize (now : Instant) (w : Watch) (key : ResourceKey) : Watch × List StatusEvent :=
  let w := w.forget key
  match w.observer.snapshots.get? key with
  | none => (w, [])
  | some previous =>
    let w := { w with observer :=
      { w.observer with snapshots := w.observer.snapshots.erase key } }
    let w := match previous.terminatingSince with
      | some since => w.write fun m r =>
          m.observeTermination r previous.labels (secondsBetween now since)
      | none => w
    let involved := w.observer.reference key previous.uid
    (w, previous.finalizers.map (StatusEvent.finalized now involved))

/-! ## A resource that is there -/

/-- What is seen of a resource: the conditions of a bound copy. -/
def observe (now : Instant) (resource : Resource) : Snapshot :=
  let bound := resource.bind now
  { uid := bound.metadata.uid
    conditions := bound.conditions
    finalizers := bound.metadata.finalizers
    terminatingSince := bound.metadata.deleted
    labels := bound.metadata.labels
    observedAt := now }

/-- What is remembered of a resource: the deletion time that was seen first stays. -/
def remembered (current : Snapshot) (previous : Option Snapshot) : Snapshot :=
  { current with
    terminatingSince := (previous.bind (·.terminatingSince)).or current.terminatingSince }

/-- Events for the finalizers that were removed since the previous snapshot. -/
def finalizerEvents (now : Instant) (involved : ObjectReference) (previous : Option Snapshot)
    (current : Snapshot) : List StatusEvent :=
  match previous with
  | none => []
  | some p =>
    (p.finalizers.filter fun f => !current.finalizers.contains f).map
      (StatusEvent.finalized now involved)

/-- Series of a resource carry its projected labels: start anew when these changed. -/
def forgetIfRelabelled (w : Watch) (key : ResourceKey) (previous : Option Snapshot)
    (current : Snapshot) : Watch :=
  if previous.any fun p => w.observer.metrics.projectionChanged p.labels current.labels then
    w.forget key
  else w

/-- Show how long the resource has been terminating, if it is. -/
def writeTermination (now : Instant) (w : Watch) (key : ResourceKey) (current : Snapshot) : Watch :=
  match current.terminatingSince with
  | some deleted => w.write fun m r =>
      m.setTermination r key current.labels (secondsBetween now deleted)
  | none => w

/-- Show the presence and age of every condition. -/
def writeConditions (now : Instant) (w : Watch) (key : ResourceKey) (current : Snapshot) : Watch :=
  current.conditions.foldl
    (fun w c => w.write fun m r => m.setCondition r key current.labels c now) w

/-- Remove the series of condition states that no longer hold. -/
def collectStale (w : Watch) (key : ResourceKey) (previous : Option Snapshot)
    (current : Snapshot) : Watch :=
  match previous with
  | none => w
  | some p =>
    (p.conditions.filter (Observer.isStale current)).foldl
      (fun w old => w.write fun m r => (m.deleteCondition r key old).1) w

/-- Count one condition that is new or whose status moved; a move is announced too. -/
def reportTransition (now : Instant) (involved : ObjectReference) (labels : Labels) (w : Watch)
    (c : Condition) (old : Option Condition) : Watch × List StatusEvent :=
  let w := w.write fun m r => m.recordTransition r labels c
  match old with
  | none => (w, [])
  | some old =>
    let seconds := secondsBetween c.lastTransition old.lastTransition
    (w.write fun m r => m.observeTransition r labels old seconds,
      [StatusEvent.transition now involved old.status c])

/-- Count and announce every condition whose status moved. -/
def reportTransitions (now : Instant) (involved : ObjectReference) (w : Watch)
    (previous : Option Snapshot) (current : Snapshot) : Watch × List StatusEvent :=
  current.conditions.foldl
    (fun acc c =>
      match Observer.movedFrom previous c with
      | none => acc
      | some old =>
        let (w, events) := reportTransition now involved current.labels acc.1 c old
        (w, acc.2 ++ events))
    (w, [])

/-- The resource is there: compare it with its snapshot and report the difference. -/
def compare (now : Instant) (w : Watch) (key : ResourceKey) (resource : Resource) :
    Watch × List StatusEvent :=
  let current := observe now resource
  let (snapshots, previous) := SnapshotStore.swap w.observer.snapshots key (remembered current)
  let w := { w with observer := { w.observer with snapshots } }
  let involved := w.observer.reference key current.uid
  let gone := finalizerEvents now involved previous current
  let w := w.forgetIfRelabelled key previous current
  let w := w.writeTermination now key current
  let w := w.writeConditions now key current
  let w := w.collectStale key previous current
  let (w, moved) := w.reportTransitions now involved previous current
  (w, gone ++ moved)

/-! ## Reconciling -/

/-- Observe one resource, given what was fetched. A failed fetch changes nothing. -/
def reconcile (now : Instant) (w : Watch) (key : ResourceKey) (fetched : Fetched) :
    Watch × Reconciled :=
  match fetched with
  | .error e => (w, ⟨.error e, []⟩)
  | .ok none =>
    let (w, events) := w.finalize now key
    (w, ⟨.ok ⟨none⟩, events⟩)
  | .ok (some resource) =>
    let (w, events) := w.compare now key resource
    (w, ⟨.ok ⟨some w.observer.settings.requeueIntervalSecs⟩, events⟩)

/-- A step of a run: the clock reading, the key, and what was fetched for it. -/
structure Step where
  now : Instant
  key : ResourceKey
  fetched : Fetched

/-- Reconcile in order and collect the answers. -/
def run (w : Watch) : List Step → Watch × List Reconciled
  | [] => (w, [])
  | s :: steps =>
    let (w, answer) := w.reconcile s.now s.key s.fetched
    let (w, answers) := run w steps
    (w, answer :: answers)

end Watch

end StatusWatch
