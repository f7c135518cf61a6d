import StatusWatch.Observer
import StatusWatch.Proofs.ConditionSets
import StatusWatch.Proofs.Writes

/-!
# What a reconcile does

A reconcile reads the snapshots and the handle of the observer but never the registry. So
what it writes, what it remembers and what it publishes are functions of the observer and
the step alone.

- `Step.calls`, `Step.remember`, `Step.published`: the three of them.
- `reconcile_eq`: a reconcile in these terms.
- `run_append`, `observer_run`, `registry_run_concat`: the same for runs.
-/

namespace StatusWatch

open Metrics (ConditionMetrics Registry RoleOps)

namespace Watch

/-! ## One entry per type -/

/-- The lists that a step brings have one entry per type. -/
def Step.Distinct (s : Step) : Prop :=
  ∀ resource, s.fetched = .ok (some resource) → Condition.Distinct resource.conditions

theorem distinct_observe {now : Instant} {resource : Resource}
    (h : Condition.Distinct resource.conditions) :
    Condition.Distinct (observe now resource).conditions :=
  Resource.distinct_bind now resource h

/-! ## Moves -/

/-- A condition that is new or whose status moved, with what it was before. -/
structure Move where
  current : Condition
  old : Option Condition

/-- The conditions that are new or whose status moved, in the order of the list. -/
def moves (previous : Option Snapshot) (current : Snapshot) : List Move :=
  current.conditions.filterMap fun c => (Observer.movedFrom previous c).map fun old => ⟨c, old⟩

/-- What is written about a move: the state that is entered, and the stay that is over. -/
def Move.calls (m : ConditionMetrics) (labels : Labels) (mv : Move) : List RoleOps :=
  m.transitionOps labels mv.current ::
    (mv.old.map fun old => m.stayOps labels old
      (secondsBetween mv.current.lastTransition old.lastTransition)).toList

/-- What is published about a move: nothing if the condition is new. -/
def Move.events (now : Instant) (involved : ObjectReference) (mv : Move) : List StatusEvent :=
  (mv.old.map fun old => StatusEvent.transition now involved old.status mv.current).toList

/-! ## Steps -/

/-- The condition states that were seen and no longer hold. -/
def staleConditions (previous : Option Snapshot) (current : Snapshot) : List Condition :=
  ((previous.map (·.conditions)).getD []).filter (Observer.isStale current)

/-- Whether the projected labels of a resource changed. -/
def relabelled (m : ConditionMetrics) (previous : Option Snapshot) (current : Snapshot) : Bool :=
  previous.any fun p => m.projectionChanged p.labels current.labels

/-- What is written when a resource is there. -/
def comparisonCalls (m : ConditionMetrics) (now : Instant) (key : ResourceKey)
    (previous : Option Snapshot) (current : Snapshot) : List RoleOps :=
  (if relabelled m previous current then [m.forgetOps key] else []) ++
  (current.terminatingSince.map fun deleted =>
    m.terminatingOps key current.labels (secondsBetween now deleted)).toList ++
  current.conditions.map (fun c => m.conditionOps key current.labels c now) ++
  (staleConditions previous current).map (m.staleOps key) ++
  (moves previous current).flatMap (Move.calls m current.labels)

/-- Everything that is written when a resource is there. -/
theorem mem_comparisonCalls {m : ConditionMetrics} {now : Instant} {key : ResourceKey}
    {previous : Option Snapshot} {current : Snapshot} {ops : RoleOps}
    (h : ops ∈ comparisonCalls m now key previous current) :
    (relabelled m previous current = true ∧ ops = m.forgetOps key) ∨
      (∃ deleted, current.terminatingSince = some deleted ∧
        ops = m.terminatingOps key current.labels (secondsBetween now deleted)) ∨
      (∃ c ∈ current.conditions, ops = m.conditionOps key current.labels c now) ∨
      (∃ old ∈ staleConditions previous current, ops = m.staleOps key old) ∨
      ∃ mv ∈ moves previous current, ops = m.transitionOps current.labels mv.current ∨
        ∃ old, mv.old = some old ∧ ops = m.stayOps current.labels old
          (secondsBetween mv.current.lastTransition old.lastTransition) := by
  simp only [comparisonCalls, List.mem_append] at h
  -- in the order of a comparison: relabelling, termination, conditions, stale states, moves
  rcases h with (((h | h) | h) | h) | h
  · split at h
    · rename_i hrelabelled
      exact .inl ⟨hrelabelled, List.mem_singleton.mp h⟩
    · cases h
  · obtain ⟨deleted, hdeleted, rfl⟩ := Option.map_eq_some_iff.mp (Option.mem_toList.mp h)
    exact .inr (.inl ⟨deleted, hdeleted, rfl⟩)
  · obtain ⟨c, hc, rfl⟩ := List.mem_map.mp h
    exact .inr (.inr (.inl ⟨c, hc, rfl⟩))
  · obtain ⟨old, hold, rfl⟩ := List.mem_map.mp h
    exact .inr (.inr (.inr (.inl ⟨old, hold, rfl⟩)))
  · obtain ⟨mv, hmv, hcalls⟩ := List.mem_flatMap.mp h
    refine .inr (.inr (.inr (.inr ⟨mv, hmv, ?_⟩)))
    rcases List.mem_cons.mp hcalls with hentered | hleft
    · exact .inl hentered
    · obtain ⟨old, hold, rfl⟩ := Option.map_eq_some_iff.mp (Option.mem_toList.mp hleft)
      exact .inr ⟨old, hold, rfl⟩

/-- What is written when a resource is gone. -/
def removalCalls (m : ConditionMetrics) (now : Instant) (key : ResourceKey)
    (previous : Option Snapshot) : List RoleOps :=
  m.forgetOps key ::
    (previous.bind fun p => p.terminatingSince.map fun since =>
      m.terminationOps p.labels (secondsBetween now since)).toList

namespace Step

/-- What a step writes. -/
def calls (o : Observer) (s : Step) : List RoleOps :=
  match s.fetched with
  | .error _ => []
  | .ok none => removalCalls o.metrics s.now s.key (o.snapshots.get? s.key)
  | .ok (some resource) =>
    comparisonCalls o.metrics s.now s.key (o.snapshots.get? s.key) (observe s.now resource)

/-- What is remembered after a step. -/
def remember (store : SnapshotStore) (s : Step) : SnapshotStore :=
  match s.fetched with
  | .error _ => store
  | .ok none => store.erase s.key
  | .ok (some resource) =>
    store.insert s.key (remembered (observe s.now resource) (store.get? s.key))

/-- The events of a step. -/
def published (o : Observer) (s : Step) : List StatusEvent :=
  match s.fetched with
  | .error _ => []
  | .ok none =>
    match o.snapshots.get? s.key with
    | none => []
    | some p => p.finalizers.map (StatusEvent.finalized s.now (o.reference s.key p.uid))
  | .ok (some resource) =>
    let current := observe s.now resource
    let previous := o.snapshots.get? s.key
    let involved := o.reference s.key current.uid
    finalizerEvents s.now involved previous current ++
      (moves previous current).flatMap (Move.events s.now involved)

/-- What a step answers, events aside. -/
def outcome (o : Observer) (s : Step) : Except FetchError ReconcileOutcome :=
  match s.fetched with
  | .error e => .error e
  | .ok none => .ok ⟨none⟩
  | .ok (some _) => .ok ⟨some o.settings.requeueIntervalSecs⟩

end Step

/-! ## Reconciling -/

/-- Writing conditions and deleting stale ones, in terms of calls. -/
theorem foldl_write {β : Type} (op : ConditionMetrics → Registry → β → Registry)
    (calls : ConditionMetrics → β → RoleOps)
    (h : ∀ m r x, op m r x = m.performAll r (calls m x)) (xs : List β) : ∀ w : Watch,
    xs.foldl (fun w x => w.write fun m r => op m r x) w =
      ⟨w.observer,
        w.observer.metrics.performCalls w.registry (xs.map (calls w.observer.metrics))⟩ := by
  induction xs with
  | nil => exact fun _ => rfl
  | cons x xs ih =>
    intro w
    rw [List.foldl_cons, ih]
    simp only [write, h, List.map_cons, ConditionMetrics.performCalls_cons]

theorem reportTransition_eq (now : Instant) (involved : ObjectReference) (labels : Labels)
    (w : Watch) (c : Condition) (old : Option Condition) :
    reportTransition now involved labels w c old =
      (⟨w.observer, w.observer.metrics.performCalls w.registry
          (Move.calls w.observer.metrics labels ⟨c, old⟩)⟩,
        Move.events now involved ⟨c, old⟩) := by
  unfold reportTransition
  simp only [write, ConditionMetrics.recordTransition_eq, ConditionMetrics.observeTransition_eq]
  cases old <;> rfl

/-- One condition of a fold over all of them. -/
def reportMove (now : Instant) (involved : ObjectReference) (previous : Option Snapshot)
    (labels : Labels) (acc : Watch × List StatusEvent) (c : Condition) :
    Watch × List StatusEvent :=
  match Observer.movedFrom previous c with
  | none => acc
  | some old =>
    let (w, events) := reportTransition now involved labels acc.1 c old
    (w, acc.2 ++ events)

/-- The fold carries the events that were collected so far. -/
theorem foldl_reportMove (now : Instant) (involved : ObjectReference)
    (previous : Option Snapshot) (labels : Labels) (cs : List Condition) :
    ∀ acc : Watch × List StatusEvent,
      cs.foldl (reportMove now involved previous labels) acc =
        (⟨acc.1.observer, acc.1.observer.metrics.performCalls acc.1.registry
            ((cs.filterMap fun c => (Observer.movedFrom previous c).map (Move.mk c)).flatMap
              (Move.calls acc.1.observer.metrics labels))⟩,
          acc.2 ++ (cs.filterMap fun c => (Observer.movedFrom previous c).map (Move.mk c)).flatMap
            (Move.events now involved)) := by
  -- over the watch and the events so far, to which each move adds at the end
  induction cs with
  | nil => intro acc; simp
  | cons c cs ih =>
    intro acc
    rw [List.foldl_cons, ih]
    unfold reportMove
    cases hc : Observer.movedFrom previous c with
    | none => simp [hc]
    | some old => simp [hc, reportTransition_eq, ConditionMetrics.performCalls_append]

theorem reportTransitions_eq (now : Instant) (involved : ObjectReference) (w : Watch)
    (previous : Option Snapshot) (current : Snapshot) :
    w.reportTransitions now involved previous current =
      (⟨w.observer, w.observer.metrics.performCalls w.registry
          ((moves previous current).flatMap (Move.calls w.observer.metrics current.labels))⟩,
        (moves previous current).flatMap (Move.events now involved)) :=
  foldl_reportMove now involved previous current.labels current.conditions (w, [])

theorem finalize_eq (now : Instant) (w : Watch) (key : ResourceKey) :
    w.finalize now key =
      (⟨{ w.observer with snapshots := w.observer.snapshots.erase key },
          w.observer.metrics.performCalls w.registry
            (removalCalls w.observer.metrics now key (w.observer.snapshots.get? key))⟩,
        match w.observer.snapshots.get? key with
        | none => []
        | some p =>
          p.finalizers.map (StatusEvent.finalized now (w.observer.reference key p.uid))) := by
  unfold finalize removalCalls
  simp only [forget, write, ConditionMetrics.forget_eq]
  cases hp : w.observer.snapshots.get? key with
  | none =>
    -- without a snapshot there is nothing to erase
    have hsame : w.observer.snapshots.erase key = w.observer.snapshots :=
      OrderedMap.ext_get? fun k => by
        rw [OrderedMap.get?_erase]
        split
        · rename_i h
          rw [← h, hp]
        · rfl
    simp [hsame]
  | some p =>
    cases hs : p.terminatingSince with
    | none => simp [hs, Observer.reference]
    | some since => simp [hs, Observer.reference, ConditionMetrics.observeTermination_eq]

section Parts

variable (now : Instant) (w : Watch) (key : ResourceKey) (previous : Option Snapshot)
  (current : Snapshot)

theorem forgetIfRelabelled_eq : w.forgetIfRelabelled key previous current =
    ⟨w.observer, w.observer.metrics.performCalls w.registry
      (if relabelled w.observer.metrics previous current then [w.observer.metrics.forgetOps key]
        else [])⟩ := by
  unfold forgetIfRelabelled relabelled
  split
  · simp only [forget, write, ConditionMetrics.forget_eq, ConditionMetrics.performCalls_cons,
      ConditionMetrics.performCalls_nil]
  · rfl

theorem writeTermination_eq : w.writeTermination now key current =
    ⟨w.observer, w.observer.metrics.performCalls w.registry
      (current.terminatingSince.map fun deleted => w.observer.metrics.terminatingOps key
        current.labels (secondsBetween now deleted)).toList⟩ := by
  unfold writeTermination
  simp only [write, ConditionMetrics.setTermination_eq]
  cases current.terminatingSince <;> rfl

theorem writeConditions_eq : w.writeConditions now key current =
    ⟨w.observer, w.observer.metrics.performCalls w.registry
      (current.conditions.map fun c =>
        w.observer.metrics.conditionOps key current.labels c now)⟩ :=
  foldl_write _ (fun m c => m.conditionOps key current.labels c now)
    (fun m r c => m.setCondition_eq r key current.labels c now) current.conditions w

theorem collectStale_eq : w.collectStale key previous current =
    ⟨w.observer, w.observer.metrics.performCalls w.registry
      ((staleConditions previous current).map (w.observer.metrics.staleOps key))⟩ := by
  cases previous with
  | none => rfl
  | some p =>
    exact foldl_write _ (fun m c => m.staleOps key c) (fun m r c => m.deleteCondition_eq r key c)
      (p.conditions.filter (Observer.isStale current)) w

end Parts

theorem compare_eq (now : Instant) (w : Watch) (key : ResourceKey) (resource : Resource) :
    w.compare now key resource =
      let current := observe now resource
      let previous := w.observer.snapshots.get? key
      let involved := w.observer.reference key current.uid
      (⟨{ w.observer with
            snapshots := w.observer.snapshots.insert key (remembered current previous) },
          w.observer.metrics.performCalls w.registry
            (comparisonCalls w.observer.metrics now key previous current)⟩,
        finalizerEvents now involved previous current ++
          (moves previous current).flatMap (Move.events now involved)) := by
  unfold compare comparisonCalls
  simp only [SnapshotStore.swap, forgetIfRelabelled_eq, writeTermination_eq, writeConditions_eq,
    collectStale_eq, reportTransitions_eq, ConditionMetrics.performCalls_append]
  rfl

/-- A reconcile writes, remembers and publishes what its step says. -/
theorem reconcile_eq (w : Watch) (s : Step) :
    w.reconcile s.now s.key s.fetched =
      (⟨{ w.observer with snapshots := s.remember w.observer.snapshots },
          w.observer.metrics.performCalls w.registry (s.calls w.observer)⟩,
        ⟨s.outcome w.observer, s.published w.observer⟩) := by
  unfold reconcile Step.remember Step.calls Step.outcome Step.published
  match s.fetched with
  | .error e => rfl
  | .ok none => simp only [finalize_eq]
  | .ok (some resource) => simp only [compare_eq]

/-! ## Runs -/

theorem run_cons (w : Watch) (s : Step) (steps : List Step) :
    w.run (s :: steps) =
      let next := w.reconcile s.now s.key s.fetched
      let rest := next.1.run steps
      (rest.1, next.2 :: rest.2) := rfl

theorem run_append (first second : List Step) : ∀ w : Watch,
    w.run (first ++ second) =
      let front := w.run first
      let back := front.1.run second
      (back.1, front.2 ++ back.2) := by
  induction first with
  | nil => exact fun _ => rfl
  | cons s steps ih =>
    intro w
    simp only [List.cons_append, run_cons, ih]

/-- One more step at the end of a run. -/
theorem run_concat (w : Watch) (steps : List Step) (s : Step) :
    (w.run (steps ++ [s])).1 = ((w.run steps).1.reconcile s.now s.key s.fetched).1 := by
  rw [run_append]
  rfl

/-- A run changes nothing of the observer but its snapshots. -/
theorem observer_run (steps : List Step) : ∀ w : Watch,
    (w.run steps).1.observer =
      { w.observer with snapshots := steps.foldl Step.remember w.observer.snapshots } := by
  induction steps with
  | nil => exact fun _ => rfl
  | cons s steps ih =>
    intro w
    rw [run_cons]
    simp only [reconcile_eq, ih, List.foldl_cons]

/-- A run writes what its steps write, given the snapshots by then. -/
theorem registry_run_concat (w : Watch) (steps : List Step) (s : Step) :
    (w.run (steps ++ [s])).1.registry =
      w.observer.metrics.performCalls (w.run steps).1.registry
        (s.calls (w.run steps).1.observer) := by
  rw [run_concat, reconcile_eq]
  show (w.run steps).1.observer.metrics.performCalls _ _ = _
  rw [observer_run]

end Watch

end StatusWatch
