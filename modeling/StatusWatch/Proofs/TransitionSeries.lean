import StatusWatch.Proofs.Accumulation
import StatusWatch.Proofs.Creation
import StatusWatch.Proofs.PresenceLabels
import StatusWatch.Proofs.Transitions

/-!
# Transition counters and stay histograms

Every report is counted once under the state that is entered, and a report with an event
is sampled once under the status that is left. The families only grow, so they show what
the reports of a run add up to exactly if no two tuples of label values run together.

- `TransitionLabels`: the labels of counters and samples on either surface.
- `counterSeries`, `histogramSeries`: what is exposed of the two families.
- `Report.increment`, `Report.sample`: what a report adds to them.
- `at?_run_of_reported`: the two families after a run.
- `ReportsShown`, `ReportsApart`: the families show the reports; their tuples are apart.
- `Faithful`, `reports_faithful`: events, samples and counts of a run are those of its
  reports.
-/

namespace StatusWatch

open Metrics (AnyFamily Apart Collector ConditionFamilies ConditionMetrics CounterRef Family Fresh
  HistogramFamily Histogram HistogramRef Registry Role RoleOps SeriesOp bucketBounds
  durationBounds)
open Metrics.ConditionMetrics (stateOf tupleOf)

namespace Metrics

/-! ## What is exposed -/

/-- The series of a counter family, each with its labels. -/
def Registry.counterSeries (r : Registry) (ref : CounterRef) :
    List (List (String × String) × Nat) :=
  match r.counters[ref.index]? with
  | none => []
  | some f => f.labelled

/-- The series of a histogram family, each with its labels. -/
def Registry.histogramSeries (r : Registry) (ref : HistogramRef) :
    List (List (String × String) × Histogram) :=
  match r.histograms[ref.index]? with
  | none => []
  | some h => h.family.labelled

/-- What a counter family counts for one condition type. -/
def Registry.countedOf (r : Registry) (ref : CounterRef) (t : String) : Nat :=
  (((r.counterSeries ref).filter fun s => (typeLabel, t) ∈ s.1).map (·.2)).sum

/-- The labels of entered states and of statuses that are left. -/
structure TransitionLabels where
  entered : Labels → Condition → List (String × String)
  left : Labels → Condition → List (String × String)

namespace ConditionMetrics

/-- Their labels in the families of the kind. -/
def kindTransitions (m : ConditionMetrics) : TransitionLabels where
  entered labels c :=
    [(typeLabel, c.type), (statusLabel, c.status.text), (reasonLabel, c.reason)] ++
      m.projection.values labels
  left labels old := [(typeLabel, old.type), (statusLabel, old.status.text)] ++
    m.projection.values labels

/-- Their labels in the shared families. -/
def sharedTransitions (m : ConditionMetrics) : TransitionLabels where
  entered _ c := [(groupLabel, m.groupKind.group), (kindLabel, m.groupKind.kind),
    (typeLabel, c.type), (statusLabel, c.status.text), (reasonLabel, c.reason)]
  left _ old := [(groupLabel, m.groupKind.group), (kindLabel, m.groupKind.kind),
    (typeLabel, old.type), (statusLabel, old.status.text)]

/-- The surfaces of a handle with these labels. -/
def transitionSurfaces (m : ConditionMetrics) : List (ConditionFamilies × TransitionLabels) :=
  (m.families, m.kindTransitions) :: (m.legacy.map fun f => (f, m.sharedTransitions)).toList

theorem mem_surfaces_of_transitionSurfaces {m : ConditionMetrics}
    {surface : ConditionFamilies × TransitionLabels} (h : surface ∈ m.transitionSurfaces) :
    surface.1 ∈ m.surfaces := by
  unfold transitionSurfaces at h
  unfold surfaces
  rcases List.mem_cons.mp h with rfl | h
  · exact List.mem_cons_self
  · obtain ⟨f, hf, rfl⟩ := Option.map_eq_some_iff.mp (Option.mem_toList.mp h)
    exact ConditionMetrics.mem_surfaces_of_legacy hf

/-- A surface declares these labels, and a write puts every one of them under its name. -/
structure TransitionLayout (m : ConditionMetrics) (f : ConditionFamilies) (p : TransitionLabels) :
    Prop where
  enteredNames : ∀ l c, (p.entered l c).map (·.1) = f.transitionsTotal.descriptor.labelNames
  leftNames : ∀ l c, (p.left l c).map (·.1) = f.transitionSeconds.descriptor.labelNames
  entered : ∀ l c, ∀ e ∈ p.entered l c, (m.labelSet none l (stateOf c)).get? e.1 = some e.2
  left : ∀ l c, ∀ e ∈ p.left l c, (m.stayLabels l c).get? e.1 = some e.2
  /-- The type of a series is the type of the condition. -/
  typed : ∀ l c t, (typeLabel, t) ∈ p.entered l c ↔ c.type = t

section Layouts

variable {m : ConditionMetrics} (h : m.projection.WellFormed)

include h

theorem get?_entered (labels : Labels) (c : Condition) {e : String × String}
    (he : e ∈ m.fixedLabels none (stateOf c) ++ m.projection.values labels) :
    (m.labelSet none labels (stateOf c)).get? e.1 = some e.2 := by
  have hnames : [groupLabel, kindLabel, typeLabel, statusLabel, reasonLabel].Nodup ∧
      ∀ n ∈ [groupLabel, kindLabel, typeLabel, statusLabel, reasonLabel],
        isProjectedName n = false := by decide
  refine get?_labelSet_of_mem h ?_ ?_ labels he
  · exact hnames.1
  · exact fun e he => hnames.2 e.1 (List.mem_map_of_mem (f := (·.1)) he)

theorem get?_left (labels : Labels) (c : Condition) {e : String × String}
    (he : e ∈ m.fixedLabels none [(typeLabel, c.type), (statusLabel, c.status.text)] ++
      m.projection.values labels) :
    (m.stayLabels labels c).get? e.1 = some e.2 := by
  have hnames : [groupLabel, kindLabel, typeLabel, statusLabel].Nodup ∧
      ∀ n ∈ [groupLabel, kindLabel, typeLabel, statusLabel], isProjectedName n = false := by decide
  refine get?_labelSet_of_mem h ?_ ?_ labels he
  · exact hnames.1
  · exact fun e he => hnames.2 e.1 (List.mem_map_of_mem (f := (·.1)) he)

/-- No projected label is called type. -/
theorem not_type_of_projected (labels : Labels) (t : String) :
    (typeLabel, t) ∉ m.projection.values labels := by
  intro hmem
  have hname : typeLabel ∈ (m.projection.values labels).map (·.1) :=
    List.mem_map_of_mem (f := (·.1)) hmem
  rw [LabelProjection.map_fst_values] at hname
  exact not_mem_projection h (by decide) hname

/-- The families of the kind. -/
theorem transitionLayout_kind
    (hkind : ∀ role : Role, (m.families.collector role).descriptor.labelNames =
      role.plan.head ++ role.plan.tail ++ m.projection.labelNames) :
    m.TransitionLayout m.families m.kindTransitions where
  enteredNames l c := by
    refine Eq.trans ?_ (hkind .transitions).symm
    simp [kindTransitions, Role.plan, FamilyPlan.transitionsTotal, stateLabels]
  leftNames l c := by
    refine Eq.trans ?_ (hkind .stays).symm
    simp [kindTransitions, Role.plan, FamilyPlan.transitionSeconds]
  entered l c e he := by
    refine get?_entered h l c ?_
    simp only [kindTransitions, List.mem_append, List.mem_cons] at he
    simp only [fixedLabels, stateOf, List.mem_append, List.mem_cons]
    tauto
  left l c e he := by
    refine get?_left h l c ?_
    simp only [kindTransitions, List.mem_append, List.mem_cons] at he
    simp only [fixedLabels, List.mem_append, List.mem_cons]
    tauto
  typed l c t := by
    -- no projected label is called as the type is
    have hnot := not_type_of_projected h l t
    unfold kindTransitions
    rw [List.mem_append, or_iff_left hnot]
    simp [typeLabel, statusLabel, reasonLabel, eq_comm]

/-- The shared families. -/
theorem transitionLayout_shared {f : ConditionFamilies}
    (hshared : ∀ role : Role, (f.collector role).descriptor.labelNames =
      role.plan.head ++ [groupLabel, kindLabel] ++ role.plan.tail) :
    m.TransitionLayout f m.sharedTransitions where
  enteredNames l c := (hshared .transitions).symm
  leftNames l c := (hshared .stays).symm
  entered l c e he := get?_entered h l c (List.mem_append_left _ he)
  left l c e he := get?_left h l c (List.mem_append_left _ he)
  typed l c t := by
    simp [sharedTransitions, typeLabel, statusLabel, reasonLabel, groupLabel, kindLabel, eq_comm]

end Layouts

end ConditionMetrics

/-- Every surface of a fresh handle has such a layout. -/
theorem Fresh.transitionLayout {m : ConditionMetrics} {r : Registry} (h : Fresh m r)
    {surface : ConditionFamilies × TransitionLabels} (hs : surface ∈ m.transitionSurfaces) :
    m.TransitionLayout surface.1 surface.2 := by
  unfold ConditionMetrics.transitionSurfaces at hs
  rcases List.mem_cons.mp hs with rfl | hs
  · exact ConditionMetrics.transitionLayout_kind h.projection h.kind
  · obtain ⟨f, hf, rfl⟩ := Option.map_eq_some_iff.mp (Option.mem_toList.mp hs)
    exact ConditionMetrics.transitionLayout_shared h.projection (h.shared f hf)

end Metrics

namespace Watch

open Metrics (TransitionLabels totals increment sample)

/-! ## What reports write -/

namespace Report

/-- What a report writes to the families with a role. -/
def writes (m : ConditionMetrics) (r : Report) : Role → List (Labels × Float)
  | .transitions => [(m.labelSet none r.labels (stateOf r.current), 1.0)]
  | .stays => (r.stay.map fun stay => (m.stayLabels r.labels stay.1, stay.2)).toList
  | _ => []

/-- The increment of a report: under the state that is entered. -/
def increment (p : TransitionLabels) (r : Report) : List (String × String) × Float :=
  (p.entered r.labels r.current, 1.0)

/-- The sample of a report: for how long the status held that is left. -/
def sample (p : TransitionLabels) (r : Report) : Option (List (String × String) × Float) :=
  r.stay.map fun stay => (p.left r.labels stay.1, stay.2)

end Report

/-- An event and a sample of the same move: the sample is under the status that is left, and
it is as long as the two conditions that were compared are apart. -/
def SameMove (p : TransitionLabels) (e : StatusEvent)
    (sample : List (String × String) × Float) : Prop :=
  ∃ now involved labels, ∃ old current : Condition,
    e = .transition now involved old.status current ∧
      sample = (p.left labels old, secondsBetween current.lastTransition old.lastTransition)

/-- Events and samples of reports are paired, each with one of the other. -/
theorem paired_of_reports (p : TransitionLabels) (reports : List Report) :
    List.Forall₂ (SameMove p) (reports.filterMap Report.event)
      (reports.filterMap (·.sample p)) := by
  induction reports with
  | nil => exact List.Forall₂.nil
  | cons r reports ih =>
    rw [List.filterMap_cons, List.filterMap_cons]
    unfold Report.event Report.sample Report.stay
    cases r.old with
    | none => exact ih
    | some old =>
      exact List.Forall₂.cons ⟨r.now, r.involved, r.labels, old, r.current, rfl, rfl⟩ ih

section Reported

variable {role : Role} (hrole : role = .transitions ∨ role = .stays)

include hrole

/-- What is written about the state of a resource goes to other families. -/
theorem on_stateCalls (m : ConditionMetrics) (now : Instant) (key : ResourceKey)
    (previous : Option Snapshot) (current : Snapshot) {ops : RoleOps}
    (h : ops ∈ (if relabelled m previous current then [m.forgetOps key] else []) ++
      (current.terminatingSince.map fun deleted =>
        m.terminatingOps key current.labels (secondsBetween now deleted)).toList ++
      current.conditions.map (fun c => m.conditionOps key current.labels c now) ++
      (staleConditions previous current).map (m.staleOps key)) :
    RoleOps.on ops role = [] := by
  simp only [List.mem_append] at h
  rcases h with ((h | h) | h) | h
  · split at h
    · obtain rfl := List.mem_singleton.mp h
      rcases hrole with rfl | rfl <;> rfl
    · cases h
  · obtain ⟨deleted, -, rfl⟩ := Option.map_eq_some_iff.mp (Option.mem_toList.mp h)
    rcases hrole with rfl | rfl <;> rfl
  · obtain ⟨c, -, rfl⟩ := List.mem_map.mp h
    rcases hrole with rfl | rfl <;> rfl
  · obtain ⟨c, -, rfl⟩ := List.mem_map.mp h
    rcases hrole with rfl | rfl <;> rfl

theorem on_removalCalls (m : ConditionMetrics) (now : Instant) (key : ResourceKey)
    (previous : Option Snapshot) {ops : RoleOps} (h : ops ∈ removalCalls m now key previous) :
    RoleOps.on ops role = [] := by
  rcases List.mem_cons.mp h with rfl | h
  · rcases hrole with rfl | rfl <;> rfl
  · obtain ⟨p, -, hp⟩ := Option.bind_eq_some_iff.mp (Option.mem_toList.mp h)
    obtain ⟨since, -, rfl⟩ := Option.map_eq_some_iff.mp hp
    rcases hrole with rfl | rfl <;> rfl

/-- Of what a step writes, the two families see what its reports write. -/
theorem on_calls_of_reported {o : Observer} {before : List Step}
    (h : Remembers o.snapshots before) (s : Step) :
    RoleOps.on (s.calls o).flatten role =
      ((s.due o.groupKind before).flatMap fun r => r.writes o.metrics role).map
        fun e => SeriesOp.write e.1 e.2 := by
  rw [Metrics.RoleOps.on_flatten, due_eq h]
  unfold Step.calls
  match s.fetched with
  | .error e => rfl
  | .ok none => exact List.flatMap_eq_nil_iff.mpr fun ops h => on_removalCalls hrole _ _ _ _ h
  | .ok (some resource) =>
    have hquiet := List.flatMap_eq_nil_iff.mpr fun ops h =>
      on_stateCalls hrole o.metrics s.now s.key (o.snapshots.get? s.key)
        (observe s.now resource) h
    simp only [comparisonCalls]
    rw [List.flatMap_append, hquiet, List.nil_append, List.flatMap_assoc]
    -- a move is written about exactly as its report is
    induction moves (o.snapshots.get? s.key) (observe s.now resource) with
    | nil => rfl
    | cons mv mvs ih =>
      obtain ⟨c, old⟩ := mv
      rw [List.flatMap_cons, ih, List.map_cons, List.flatMap_cons, List.map_append]
      rcases hrole with rfl | rfl <;> cases old <;> rfl

/-- The two families after a run. -/
theorem at?_run_of_reported {w : Watch} (hempty : w.observer.snapshots = ∅)
    (hsep : w.observer.metrics.Separate) {f : ConditionFamilies}
    (hf : f ∈ w.observer.metrics.surfaces) (steps : List Step) :
    (w.run steps).1.registry.at? (f.collector role) =
      (w.registry.at? (f.collector role)).map fun fam =>
        (((due w.observer.groupKind steps).flatMap fun r => r.writes w.observer.metrics role).map
          fun e => SeriesOp.write e.1 e.2).foldl
        (fun a op => op.apply (f.collector role) a) fam := by
  induction steps using List.reverseRecOn with
  | nil =>
    show w.registry.at? _ = (w.registry.at? _).map id
    rw [Option.map_id, id]
  | append_singleton steps s ih =>
    have hobserver : (w.run steps).1.observer.metrics = w.observer.metrics ∧
        (w.run steps).1.observer.groupKind = w.observer.groupKind := by
      rw [observer_run]
      exact ⟨rfl, rfl⟩
    rw [registry_run_concat, Metrics.ConditionMetrics.at?_performCalls hsep hf, ih,
      on_calls_of_reported hrole (remembers_run hempty steps), hobserver.1, hobserver.2, due_concat,
      List.flatMap_append, List.map_append, Option.map_map]
    simp only [Function.comp_def, List.foldl_append]

end Reported

/-! ## Reports and series -/

/-- The families of transitions show the increments and samples of reports, and nothing
else. -/
def ReportsShown (w : Watch) (reports : List Report) : Prop :=
  ∀ surface ∈ w.observer.metrics.transitionSurfaces,
    (w.registry.counterSeries surface.1.transitionsTotal).Perm
        (totals Metrics.increment (reports.map (·.increment surface.2))) ∧
      (w.registry.histogramSeries surface.1.transitionSeconds).Perm
        (totals (Metrics.sample (bucketBounds durationBounds))
          (reports.filterMap (·.sample surface.2)))

/-- The tuples of increments are apart, and so are those of samples. -/
def ReportsApart (m : ConditionMetrics) (reports : List Report) : Prop :=
  ∀ surface ∈ m.transitionSurfaces,
    Apart ((reports.map (·.increment surface.2)).map fun e => tupleOf e.1) ∧
      Apart ((reports.filterMap (·.sample surface.2)).map fun e => tupleOf e.1)

section Series

variable {m : ConditionMetrics} {surface : ConditionFamilies × TransitionLabels}
  (hl : m.TransitionLayout surface.1 surface.2) (reports : List Report)

include hl

theorem tuples_increments :
    Family.tuples ⟨surface.1.transitionsTotal.descriptor.labelNames, []⟩
        (reports.flatMap fun r => r.writes m .transitions) =
      (reports.map (·.increment surface.2)).map fun e => (e.1.map (·.2), e.2) := by
  induction reports with
  | nil => rfl
  | cons r reports ih =>
    have htuple := Metrics.tuple_eq
      (i := ⟨surface.1.transitionsTotal.descriptor.labelNames, []⟩)
      (hl.enteredNames r.labels r.current).symm (hl.entered r.labels r.current)
    unfold Family.tuples at ih ⊢
    rw [List.flatMap_cons, List.map_append, ih]
    simp [Report.writes, Report.increment, htuple]

theorem tuples_samples :
    Family.tuples ⟨surface.1.transitionSeconds.descriptor.labelNames, []⟩
        (reports.flatMap fun r => r.writes m .stays) =
      (reports.filterMap (·.sample surface.2)).map fun e => (e.1.map (·.2), e.2) := by
  induction reports with
  | nil => rfl
  | cons r reports ih =>
    unfold Family.tuples at ih ⊢
    rw [List.flatMap_cons, List.map_append, ih, List.filterMap_cons]
    unfold Report.writes Report.sample
    cases r.stay with
    | none => rfl
    | some stay =>
      have htuple := Metrics.tuple_eq
        (i := ⟨surface.1.transitionSeconds.descriptor.labelNames, []⟩)
        (hl.leftNames r.labels stay.1).symm (hl.left r.labels stay.1)
      simp [htuple]

end Series

section Fresh

variable {w : Watch} (hfresh : Fresh w.observer.metrics w.registry)
  (hempty : w.observer.snapshots = ∅) (steps : List Step)
  {surface : ConditionFamilies × TransitionLabels}
  (hs : surface ∈ w.observer.metrics.transitionSurfaces)

include hfresh hempty hs

theorem counterSeries_run :
    (w.run steps).1.registry.counterSeries surface.1.transitionsTotal =
      ((Family.new surface.1.transitionsTotal.descriptor).accumulate Metrics.increment
        ((due w.observer.groupKind steps).flatMap fun r =>
          r.writes w.observer.metrics .transitions)).labelled := by
  have hsurface := Metrics.ConditionMetrics.mem_surfaces_of_transitionSurfaces hs
  have hafter : (w.run steps).1.registry.at? (surface.1.collector .transitions) = _ :=
    at?_run_of_reported (Or.inl rfl) hempty hfresh.separate hsurface steps
  rw [hfresh.blank surface.1 hsurface .transitions, Option.map_some] at hafter
  have hfold := Metrics.foldl_increments (surface.1.collector .transitions)
    ((due w.observer.groupKind steps).flatMap fun r => r.writes w.observer.metrics .transitions)
    (Family.new surface.1.transitionsTotal.descriptor)
  obtain ⟨f, hf, heq⟩ := Option.map_eq_some_iff.mp (hafter.trans (congrArg some hfold))
  cases heq
  unfold Registry.counterSeries
  rw [hf]

theorem histogramSeries_run :
    (w.run steps).1.registry.histogramSeries surface.1.transitionSeconds =
      ((Family.new surface.1.transitionSeconds.descriptor).accumulate
        (Metrics.sample (bucketBounds durationBounds))
        ((due w.observer.groupKind steps).flatMap fun r =>
          r.writes w.observer.metrics .stays)).labelled := by
  have hsurface := Metrics.ConditionMetrics.mem_surfaces_of_transitionSurfaces hs
  have hafter : (w.run steps).1.registry.at? (surface.1.collector .stays) = _ :=
    at?_run_of_reported (Or.inr rfl) hempty hfresh.separate hsurface steps
  rw [hfresh.blank surface.1 hsurface .stays, Option.map_some] at hafter
  have hfold := Metrics.foldl_samples (surface.1.collector .stays)
    ((due w.observer.groupKind steps).flatMap fun r => r.writes w.observer.metrics .stays)
    ⟨bucketBounds durationBounds, Family.new surface.1.transitionSeconds.descriptor⟩
  obtain ⟨f, hf, heq⟩ := Option.map_eq_some_iff.mp (hafter.trans (congrArg some hfold))
  cases heq
  unfold Registry.histogramSeries
  rw [hf]

/-- The counter of a surface shows the increments of the reports exactly if their tuples are
apart. -/
theorem counter_shown_iff :
    let increments := (due w.observer.groupKind steps).map (·.increment surface.2)
    ((w.run steps).1.registry.counterSeries surface.1.transitionsTotal).Perm
        (totals Metrics.increment increments) ↔
      Apart (increments.map fun e => tupleOf e.1) := by
  have hl := hfresh.transitionLayout hs
  rw [counterSeries_run hfresh hempty steps hs]
  refine Family.accumulate_labelled_iff Metrics.increment (Family.wellFormed_new _) rfl
    (tuples_increments hl _) fun e he => ?_
  obtain ⟨r, -, rfl⟩ := List.mem_map.mp he
  exact hl.enteredNames r.labels r.current

/-- The histogram of a surface shows the samples of the reports exactly if their tuples are
apart. -/
theorem histogram_shown_iff :
    let samples := (due w.observer.groupKind steps).filterMap (·.sample surface.2)
    ((w.run steps).1.registry.histogramSeries surface.1.transitionSeconds).Perm
        (totals (Metrics.sample (bucketBounds durationBounds)) samples) ↔
      Apart (samples.map fun e => tupleOf e.1) := by
  have hl := hfresh.transitionLayout hs
  rw [histogramSeries_run hfresh hempty steps hs]
  refine Family.accumulate_labelled_iff (Metrics.sample (bucketBounds durationBounds))
    (Family.wellFormed_new _) rfl (tuples_samples hl _) fun e he => ?_
  obtain ⟨r, -, hr⟩ := List.mem_filterMap.mp he
  obtain ⟨stay, -, rfl⟩ := Option.map_eq_some_iff.mp hr
  exact hl.leftNames r.labels stay.1

/-- Every report is counted, under whatever labels. -/
theorem sum_counterSeries :
    (((w.run steps).1.registry.counterSeries surface.1.transitionsTotal).map (·.2)).sum =
      (due w.observer.groupKind steps).length := by
  rw [counterSeries_run hfresh hempty steps hs]
  refine (Family.sum_increments (Family.wellFormed_new _) _).trans ?_
  rw [List.length_flatMap]
  show 0 + ((due w.observer.groupKind steps).map fun _ => 1).sum = _
  simp

/-- Every report of a move is sampled, under whatever labels. -/
theorem sum_histogramSeries :
    (((w.run steps).1.registry.histogramSeries surface.1.transitionSeconds).map (·.2.count)).sum =
      ((due w.observer.groupKind steps).filterMap Report.event).length := by
  rw [histogramSeries_run hfresh hempty steps hs]
  refine (Family.sum_samples _ (Family.wellFormed_new _) _).trans ?_
  show 0 + _ = _
  rw [Nat.zero_add]
  induction due w.observer.groupKind steps with
  | nil => rfl
  | cons r reports ih =>
    rw [List.flatMap_cons, List.length_append, ih, List.filterMap_cons]
    unfold Report.writes Report.stay Report.event
    cases r.old with
    | none => exact Nat.zero_add _
    | some old => exact Nat.add_comm _ _

end Fresh

/-! ## Faithful reports -/

/-- How many transition events of a type are published in a run. -/
def transitionsOf (w : Watch) (t : String) (steps : List Step) : Nat :=
  ((w.events steps).filter (·.isTransitionOf t)).length

/-- The events, samples and increments of a run are those of the reports that are due. -/
structure Faithful (w : Watch) (steps : List Step) : Prop where
  /-- In a stretch, the events of a type lead from the status that is found first to the one
  that is remembered, each from where the one before led to. -/
  chains : ∀ key t before stretch first, before ++ stretch <+: steps →
    Stretch key t before stretch first →
      ∃ moves last,
        List.Forall₂ StatusEvent.Tells
          (((w.run before).1.events stretch).filter fun e =>
            e.isTransitionOf t && e.involved.key = key) moves ∧
        Chained first.status moves last.status ∧
        ((w.run (before ++ stretch)).1.observer.snapshots.get? key).bind (·.get? t) = some last
  /-- The transition events are those of the reports that have one, in order. -/
  events : (w.events steps).filter (·.isTransition) =
    (due w.observer.groupKind steps).filterMap Report.event
  /-- Each of them is paired with one sample. -/
  paired : ∀ surface ∈ w.observer.metrics.transitionSurfaces,
    List.Forall₂ (SameMove surface.2) ((w.events steps).filter (·.isTransition))
      ((due w.observer.groupKind steps).filterMap (·.sample surface.2))
  /-- There is a report for every transition and for every beginning of a stretch. -/
  counts : ∀ t, ((due w.observer.groupKind steps).filter (·.current.type = t)).length =
    w.transitionsOf t steps + stretches t steps
  /-- No report is lost: the counters of a surface count as many, and its histograms hold one
  sample for each transition. -/
  recorded : ∀ surface ∈ w.observer.metrics.transitionSurfaces,
    (((w.run steps).1.registry.counterSeries surface.1.transitionsTotal).map (·.2)).sum =
        (due w.observer.groupKind steps).length ∧
      (((w.run steps).1.registry.histogramSeries surface.1.transitionSeconds).map
          (·.2.count)).sum = ((w.events steps).filter (·.isTransition)).length
  /-- The families show the increments and samples of the reports exactly if their tuples are
  apart. -/
  shown_iff : (w.run steps).1.ReportsShown (due w.observer.groupKind steps) ↔
    ReportsApart w.observer.metrics (due w.observer.groupKind steps)
  /-- Then the counters count the transitions of a type and its stretches. -/
  counted : ReportsApart w.observer.metrics (due w.observer.groupKind steps) →
    ∀ surface ∈ w.observer.metrics.transitionSurfaces, ∀ t,
      (w.run steps).1.registry.countedOf surface.1.transitionsTotal t =
        w.transitionsOf t steps + stretches t steps

/-- Shown increments count the reports of a type. -/
theorem countedOf_of_shown {w : Watch} {m : ConditionMetrics}
    {surface : ConditionFamilies × TransitionLabels}
    (hl : m.TransitionLayout surface.1 surface.2) {reports : List Report}
    (h : (w.registry.counterSeries surface.1.transitionsTotal).Perm
      (totals Metrics.increment (reports.map (·.increment surface.2)))) (t : String) :
    w.registry.countedOf surface.1.transitionsTotal t =
      (reports.filter (·.current.type = t)).length := by
  have hsum := Metrics.sum_totals (fun labels => decide ((Metrics.typeLabel, t) ∈ labels))
    (reports.map (·.increment surface.2))
  unfold Registry.countedOf
  rw [((h.filter _).map _).sum_nat]
  refine hsum.trans ?_
  rw [List.countP_map, List.countP_eq_length_filter]
  refine congrArg List.length (List.filter_congr fun r _ => ?_)
  exact decide_eq_decide.mpr (hl.typed r.labels r.current t)

/-- Transition reports are faithful: chains, pairs and counts always, and what the families
show exactly if no two tuples of different series run together. -/
theorem reports_faithful {scope : String} {g : GroupKind} {settings : ObserverSettings}
    {r : Registry} {o : Observer}
    (h : Observer.create (Registry.new scope) g settings = (r, .ok o))
    {steps : List Step} (hs : ∀ s ∈ steps, s.Distinct) : (⟨o, r⟩ : Watch).Faithful steps := by
  obtain ⟨hfresh, hempty, -⟩ := Observer.fresh_create h
  have hmetrics : ((⟨o, r⟩ : Watch).run steps).1.observer.metrics = o.metrics := by
    rw [observer_run]
  have hempty : (⟨o, r⟩ : Watch).observer.snapshots = ∅ := hempty
  have hcounts := length_due hempty hs
  have hevents := transitions_run hempty steps
  refine { chains := ?_, events := hevents, paired := ?_, counts := hcounts, recorded := ?_,
           shown_iff := ?_, counted := ?_ }
  · -- each report begins at the status that the one before it ended at
    intro key t before stretch first hbegins hstretch
    obtain ⟨moves, last, htells, hchained, hlast⟩ := chained_of_stretch hempty
      (fun s hs' => hs s (hbegins.subset hs')) hstretch
    refine ⟨moves, last, htells, hchained, ?_⟩
    rw [remembers_run hempty (before ++ stretch) key t]
    exact hlast
  · intro surface _
    rw [hevents]
    exact paired_of_reports surface.2 _
  · intro surface hsurface
    rw [hevents]
    exact ⟨sum_counterSeries hfresh hempty steps hsurface,
      sum_histogramSeries hfresh hempty steps hsurface⟩
  · unfold ReportsShown ReportsApart
    rw [hmetrics]
    exact forall_congr' fun surface => forall_congr' fun hsurface =>
      and_congr (counter_shown_iff hfresh hempty steps hsurface)
        (histogram_shown_iff hfresh hempty steps hsurface)
  · intro hapart surface hsurface t
    rw [countedOf_of_shown (hfresh.transitionLayout hsurface)
      ((counter_shown_iff hfresh hempty steps hsurface).mpr (hapart surface hsurface).1) t]
    exact hcounts t

/-- A resource that is seen, not reached, seen with another status, gone, and seen again. -/
def flips : List Step :=
  [⟨.epoch, ⟨"", "n"⟩, .ok (some (ready "" "n" .true))⟩, ⟨.epoch, ⟨"", "n"⟩, .error .cancelled⟩,
    ⟨.epoch, ⟨"", "n"⟩, .ok (some (ready "" "n" .false))⟩, ⟨.epoch, ⟨"", "n"⟩, .ok none⟩,
    ⟨.epoch, ⟨"", "n"⟩, .ok (some (ready "" "n" .unknown))⟩]

theorem distinct_flips : ∀ s ∈ flips, s.Distinct := by
  intro s hs resource hr
  simp only [flips, List.mem_cons, List.not_mem_nil, or_false] at hs
  rcases hs with rfl | rfl | rfl | rfl | rfl
  · cases hr
    exact distinct_ready "" "n" .true
  · cases hr
  · cases hr
    exact distinct_ready "" "n" .false
  · cases hr
  · cases hr
    exact distinct_ready "" "n" .unknown

/-- Faithful reports for a run with shared families and a projected label. -/
theorem reports_faithful_flips : ∃ r o,
    Observer.create (Registry.new "operator") ⟨"apps", "Deployment"⟩ projecting = (r, .ok o) ∧
      (∀ s ∈ flips, s.Distinct) ∧ (⟨o, r⟩ : Watch).Faithful flips := by
  obtain ⟨r, o, h⟩ := create_projecting
  exact ⟨r, o, h, distinct_flips, reports_faithful h distinct_flips⟩

/-! ## Labels that run together -/

/-- A resource with two conditions whose labels run together to one text. -/
def ambiguous : Resource :=
  Resource.ofObject
    { metadata := .of .epoch "" "n"
      groupKind := ⟨"apps", "Deployment"⟩
      conditionTypes := .of "A" []
      conditions :=
        [{ Condition.of .epoch "A" .true with reason := "TrueX" },
          { Condition.of .epoch "ATrue" .true with reason := "X" }] }

/-- It is observed once. -/
def observedOnce : List Step := [⟨.epoch, ⟨"", "n"⟩, .ok (some ambiguous)⟩]

theorem distinct_observedOnce : ∀ s ∈ observedOnce, s.Distinct := by
  intro s hs resource hr
  obtain rfl := List.mem_singleton.mp hs
  cases hr
  show ["A", "ATrue"].Nodup
  decide

theorem counted_observedOnce :
    ((launched default).run observedOnce).1.registry.countedOf
        (launched default).observer.metrics.families.transitionsTotal
        "ATrue" = 0 ∧
      (launched default).transitionsOf "ATrue" observedOnce +
        stretches "ATrue" observedOnce = 1 := by
  decide +kernel

/-- One stretch that no counter counts. -/
theorem not_counted_observedOnce : ∃ r o,
    Observer.create (Registry.new "operator") ⟨"apps", "Deployment"⟩ default = (r, .ok o) ∧
      (∀ s ∈ observedOnce, s.Distinct) ∧
      ¬ ∀ t, ((⟨o, r⟩ : Watch).run observedOnce).1.registry.countedOf
          o.metrics.families.transitionsTotal t =
        (⟨o, r⟩ : Watch).transitionsOf t observedOnce + stretches t observedOnce := by
  obtain ⟨r, o, h⟩ := create_default
  refine ⟨r, o, h, distinct_observedOnce, fun hcounted => ?_⟩
  have hcounts := counted_observedOnce
  rw [launched_eq h, hcounted, hcounts.2] at hcounts
  exact absurd hcounts.1 (by decide)

end Watch

end StatusWatch
