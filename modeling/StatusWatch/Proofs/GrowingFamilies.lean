import StatusWatch.Proofs.Keys
import StatusWatch.Proofs.TransitionSeries

/-!
# What runs add to counters and histograms

The counter and the two histograms of a surface are only ever written to. So what such a
family holds after a run is the accumulation of the entries that the steps write, whatever
these are about.

- `SeriesOp.entry`, `entriesOn`: what is written to the families with a role.
- `DurationHistogram`: the two histograms of a surface.
- `counter_run`, `histogram_run`: a counter and a histogram after a run.
- `Step.termination`: the termination that a step ends, the only entry of its histogram.
-/

namespace StatusWatch

open Metrics (AnyFamily Collector ConditionFamilies ConditionMetrics Family Fresh HistogramFamily
  HistogramRef Registry Role RoleOps SeriesOp bucketBounds durationBounds)

namespace Metrics

/-- What an operation writes. -/
def SeriesOp.entry : SeriesOp → Option (Labels × Float)
  | write labels value => some (labels, value)
  | delete _ => none

/-- Operations that only write, in terms of what they write. -/
theorem SeriesOp.eq_map_entry {ops : List SeriesOp} (h : ∀ op ∈ ops, op.entry.isSome) :
    ops = (ops.filterMap SeriesOp.entry).map fun e => .write e.1 e.2 := by
  induction ops with
  | nil => rfl
  | cons op ops ih =>
    have ih := ih fun op' hop' => h op' (List.mem_cons_of_mem _ hop')
    cases op with
    | write labels value =>
      show _ :: ops = _ :: (ops.filterMap SeriesOp.entry).map _
      rw [← ih]
    | delete labels => cases h _ List.mem_cons_self

/-- The families that are only written to. -/
def Role.Grows (role : Role) : Prop := role = .transitions ∨ role = .stays ∨ role = .terminations

end Metrics

/-- The histograms of durations. -/
inductive DurationHistogram where
  /-- How long statuses lasted that were left. -/
  | stays
  /-- How long terminations took. -/
  | terminations

namespace DurationHistogram

def role : DurationHistogram → Role
  | stays => .stays
  | terminations => .terminations

/-- The histogram of a surface. -/
def ref (f : ConditionFamilies) : DurationHistogram → HistogramRef
  | stays => f.transitionSeconds
  | terminations => f.terminationDurationSeconds

@[simp] theorem collector_role (f : ConditionFamilies) (d : DurationHistogram) :
    f.collector d.role = .histogram (d.ref f) := by
  cases d <;> rfl

theorem grows (d : DurationHistogram) : d.role.Grows := by
  cases d
  · exact Or.inr (Or.inl rfl)
  · exact Or.inr (Or.inr rfl)

end DurationHistogram

namespace Watch

/-! ## Entries of steps and runs -/

/-- A step deletes nothing from the families that grow. -/
theorem entry_isSome {role : Role} (hrole : role.Grows) {o : Observer} {s : Step} {op : SeriesOp}
    (h : op ∈ RoleOps.on (s.calls o).flatten role) : op.entry.isSome := by
  rw [Metrics.RoleOps.on_flatten] at h
  obtain ⟨ops, hops, hop⟩ := List.mem_flatMap.mp h
  -- a resource is forgotten by the gauges only
  have hforget : RoleOps.on (o.metrics.forgetOps s.key) role = [] := by
    rcases hrole with rfl | rfl | rfl <;> rfl
  unfold Step.calls at hops
  match hf : s.fetched with
  | .error _ =>
    rw [hf] at hops
    cases hops
  | .ok none =>
    rw [hf] at hops
    rcases List.mem_cons.mp hops with rfl | hops
    · rw [hforget] at hop
      cases hop
    · obtain ⟨p, -, hp⟩ := Option.bind_eq_some_iff.mp (Option.mem_toList.mp hops)
      obtain ⟨since, -, rfl⟩ := Option.map_eq_some_iff.mp hp
      rcases hrole with rfl | rfl | rfl
      · cases hop
      · cases hop
      · obtain rfl := List.mem_singleton.mp hop
        rfl
  | .ok (some resource) =>
    rw [hf] at hops
    rcases mem_comparisonCalls hops with ⟨-, rfl⟩ | ⟨deleted, -, rfl⟩ | ⟨c, -, rfl⟩ |
      ⟨old, -, rfl⟩ | ⟨mv, -, rfl | ⟨old, -, rfl⟩⟩
    · rw [hforget] at hop
      cases hop
    · rcases hrole with rfl | rfl | rfl <;> cases hop
    · rcases hrole with rfl | rfl | rfl <;> cases hop
    · rcases hrole with rfl | rfl | rfl <;> cases hop
    · rcases hrole with rfl | rfl | rfl
      · obtain rfl := List.mem_singleton.mp hop
        rfl
      · cases hop
      · cases hop
    · rcases hrole with rfl | rfl | rfl
      · cases hop
      · obtain rfl := List.mem_singleton.mp hop
        rfl
      · cases hop

/-- What a run writes to the families with a role. -/
def entriesOn (w : Watch) (role : Role) (steps : List Step) : List (Labels × Float) :=
  (w.opsOn role steps).filterMap SeriesOp.entry

theorem opsOn_eq_map {role : Role} (hrole : role.Grows) (w : Watch) (steps : List Step) :
    w.opsOn role steps = (w.entriesOn role steps).map fun e => .write e.1 e.2 := by
  refine SeriesOp.eq_map_entry ?_
  induction steps using List.reverseRecOn with
  | nil => exact fun op hop => nomatch hop
  | append_singleton steps s ih =>
    intro op hop
    rw [opsOn_concat, List.mem_append] at hop
    exact hop.elim (ih op) (entry_isSome hrole)

section Fresh

variable {w : Watch} (hfresh : Fresh w.observer.metrics w.registry) {f : ConditionFamilies}
  (hf : f ∈ w.observer.metrics.surfaces) (steps : List Step)

include hfresh hf

/-- The counter of a surface after a run. -/
theorem counter_run :
    (w.run steps).1.registry.counters[f.transitionsTotal.index]? =
      some ((Family.new f.transitionsTotal.descriptor).accumulate Metrics.increment
        (w.entriesOn .transitions steps)) := by
  have hafter := at?_run hfresh.separate hf .transitions steps
  rw [hfresh.blank f hf, Option.map_some] at hafter
  -- operations on a counter are increments, so that only their labels count
  have hfold := Metrics.foldl_increments (f.collector .transitions) (w.entriesOn .transitions steps)
    (Family.new f.transitionsTotal.descriptor)
  rw [← opsOn_eq_map (Or.inl rfl)] at hfold
  obtain ⟨fam, hfam, heq⟩ := Option.map_eq_some_iff.mp (hafter.trans (congrArg some hfold))
  cases heq
  exact hfam

/-- A histogram of a surface after a run. -/
theorem histogram_run (d : DurationHistogram) :
    (w.run steps).1.registry.histograms[(d.ref f).index]? =
      some ⟨bucketBounds durationBounds, (Family.new (d.ref f).descriptor).accumulate
        (Metrics.sample (bucketBounds durationBounds)) (w.entriesOn d.role steps)⟩ := by
  have hafter := at?_run hfresh.separate hf d.role steps
  rw [hfresh.blank f hf, d.collector_role, Option.map_some] at hafter
  have hfold := Metrics.foldl_samples (.histogram (d.ref f)) (w.entriesOn d.role steps)
    ⟨bucketBounds durationBounds, Family.new (d.ref f).descriptor⟩
  rw [← opsOn_eq_map d.grows] at hfold
  obtain ⟨fam, hfam, heq⟩ := Option.map_eq_some_iff.mp (hafter.trans (congrArg some hfold))
  cases heq
  exact hfam

end Fresh

/-! ## Terminations -/

/-- The termination that a step ends: the labels of the resource that is gone, and how long its
termination took. -/
def Step.termination (o : Observer) (s : Step) : Option (Labels × Float) :=
  match s.fetched with
  | .ok none => (o.snapshots.get? s.key).bind fun p => p.terminatingSince.map fun since =>
      (p.labels, secondsBetween s.now since)
  | _ => none

/-- Of what a step writes, the histogram of terminations sees the one that it ends. -/
theorem on_calls_terminations (o : Observer) (s : Step) :
    RoleOps.on (s.calls o).flatten .terminations =
      ((s.termination o).map fun e =>
        SeriesOp.write (o.metrics.labelSet none e.1 []) e.2).toList := by
  rw [Metrics.RoleOps.on_flatten]
  unfold Step.calls Step.termination
  match s.fetched with
  | .error _ => rfl
  | .ok none =>
    unfold removalCalls
    rw [List.flatMap_cons]
    cases o.snapshots.get? s.key with
    | none => rfl
    | some p =>
      rw [Option.bind_some, Option.bind_some]
      cases p.terminatingSince <;> rfl
  | .ok (some resource) =>
    -- a resource that is there ends no termination
    refine List.flatMap_eq_nil_iff.mpr fun ops hops => ?_
    rcases mem_comparisonCalls hops with ⟨-, rfl⟩ | ⟨deleted, -, rfl⟩ | ⟨c, -, rfl⟩ |
      ⟨old, -, rfl⟩ | ⟨mv, -, rfl | ⟨old, -, rfl⟩⟩ <;> rfl

/-- One more step adds the termination that it ends. -/
theorem terminations_concat (w : Watch) (steps : List Step) (s : Step) :
    w.entriesOn .terminations (steps ++ [s]) =
      w.entriesOn .terminations steps ++
        ((s.termination (w.run steps).1.observer).map fun e =>
          (w.observer.metrics.labelSet none e.1 [], e.2)).toList := by
  unfold entriesOn
  rw [opsOn_concat, on_calls_terminations, List.filterMap_append, observer_run]
  refine congrArg _ ?_
  cases s.termination _ <;> rfl

end Watch

end StatusWatch
