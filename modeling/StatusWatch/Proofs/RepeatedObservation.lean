import StatusWatch.Proofs.ObservedTimes
import StatusWatch.Proofs.ResourceGauges

/-!
# Observing the same again

A reconcile goes through the condition list entry by entry, but it looks conditions up by
type. A list with one entry per type is therefore the same as its own snapshot; a list
that has several entries of one type differs from itself as soon as two of them differ.

- `Condition.Agree`: every entry looks like the one that is found under its type.
- `Again`: a snapshot that shows the same as another one, times aside.
- `moves_again`, `events_again`, `stale_again`: comparing it with the other one.
- `isSome_of_written`: what an observation writes is still in the index of a gauge when the
  resource is observed again.
- `Quiet`, `repeated_quiet`: what the second of two observations leaves alone.
-/

namespace StatusWatch

open Metrics (AnyFamily Apart Collector ConditionFamilies ConditionMetrics Family Fresh GaugeRef
  LabelTuple Registry Role RoleOps Round SeriesOp)
open Metrics.ConditionMetrics (stateOf)

/-! ## Lists that agree with themselves -/

namespace Condition

/-- Every entry looks, in some respect, like the one that is found under its type. -/
def Agree {α : Type} (view : Condition → α) (cs : List Condition) : Prop :=
  ∀ c ∈ cs, ∀ d, find? c.type cs = some d → view d = view c

/-- What is shown of a condition besides its type. -/
def shown (c : Condition) : ConditionStatus × String := (c.status, c.reason)

/-- With one entry per type, every entry is the one that is found. -/
theorem Distinct.agree {α : Type} {cs : List Condition} (h : Distinct cs) (view : Condition → α) :
    Agree view cs := by
  intro c hc d hd
  rw [h.mem_iff.mp hc] at hd
  cases hd
  rfl

theorem find?_isSome_of_mem {cs : List Condition} {c : Condition} (hc : c ∈ cs) :
    ∃ d, find? c.type cs = some d :=
  Option.isSome_iff_exists.mp (List.find?_isSome.mpr ⟨c, hc, by simp⟩)

end Condition

open Condition (Agree)

namespace Watch

/-! ## The same again -/

/-- A snapshot that shows the same as another one, times of transition aside. -/
structure Again (p current : Snapshot) : Prop where
  finalizers : current.finalizers = p.finalizers
  labels : current.labels = p.labels
  conditions : ∃ f : Condition → Condition,
    (∀ c, (f c).type = c.type ∧ (f c).status = c.status ∧ (f c).reason = c.reason) ∧
      current.conditions = p.conditions.map f

/-- Observing a resource once more shows the same. -/
theorem again_observe (now now' : Instant) (resource : Resource) (previous : Option Snapshot) :
    Again (remembered (observe now resource) previous) (observe now' resource) where
  finalizers := by
    show (resource.bind now').metadata.finalizers = (resource.bind now).metadata.finalizers
    rw [Resource.metadata_bind, Resource.metadata_bind]
  labels := by
    show (resource.bind now').metadata.labels = (resource.bind now).metadata.labels
    rw [Resource.metadata_bind, Resource.metadata_bind]
  conditions := by
    refine ⟨resource.restamped now', fun c => ?_, Resource.conditions_bind now now' resource⟩
    unfold Resource.restamped
    split <;> exact ⟨rfl, rfl, rfl⟩

section Again

variable {p current : Snapshot} (h : Again p current)

include h

/-- What is found under a type looks the same. -/
theorem Again.get?_eq (t : String) : ∃ f : Condition → Condition,
    (∀ c, (f c).status = c.status ∧ (f c).reason = c.reason) ∧
      current.get? t = (p.get? t).map f := by
  obtain ⟨f, hf, hconditions⟩ := h.conditions
  refine ⟨f, fun c => (hf c).2, ?_⟩
  unfold Snapshot.get?
  rw [hconditions, Condition.find?_map fun c => (hf c).1]

/-- A condition moved if another status is found under its type. -/
theorem moves_again : moves (some p) current = [] ↔ Agree (·.status) p.conditions := by
  obtain ⟨f, hf, hconditions⟩ := h.conditions
  unfold moves
  rw [hconditions, List.filterMap_map, List.filterMap_eq_nil_iff]
  refine forall_congr' fun c => forall_congr' fun hc => ?_
  obtain ⟨d, hd⟩ := Condition.find?_isSome_of_mem hc
  have hget : p.get? c.type = some d := hd
  simp only [Function.comp_apply, Option.map_eq_none_iff, Observer.movedFrom, Option.bind_some,
    (hf c).1, (hf c).2.1, hget, hd, Option.any_some, Option.some.injEq, forall_eq']
  by_cases hstatus : d.status = c.status <;> simp [hstatus]

/-- No finalizer was removed. -/
theorem finalizerEvents_again (now : Instant) (involved : ObjectReference) :
    finalizerEvents now involved (some p) current = [] := by
  simp [finalizerEvents, h.finalizers]

/-- Every move is announced, because something is known of its type. -/
theorem events_again (now : Instant) (involved : ObjectReference) :
    (moves (some p) current).flatMap (Move.events now involved) = [] ↔
      moves (some p) current = [] := by
  refine ⟨fun hquiet => ?_, fun hnone => by rw [hnone]; rfl⟩
  rw [List.eq_nil_iff_forall_not_mem]
  intro mv hmv
  have hnone := List.flatMap_eq_nil_iff.mp hquiet mv hmv
  -- every type was there before, so a move would have an old entry and be published
  obtain ⟨c, hc, hmoved⟩ := List.mem_filterMap.mp hmv
  obtain ⟨f, hf, hconditions⟩ := h.conditions
  rw [hconditions] at hc
  obtain ⟨c, hmem, rfl⟩ := List.mem_map.mp hc
  obtain ⟨d, hd⟩ := Condition.find?_isSome_of_mem hmem
  obtain ⟨old, hold, rfl⟩ := Option.map_eq_some_iff.mp hmoved
  unfold Observer.movedFrom at hold
  have hget : p.get? (f c).type = some d := by rw [(hf c).1]; exact hd
  simp only [Option.bind_some, hget] at hold
  split at hold
  · cases hold
  · cases hold
    cases hnone

/-- No state that was seen is over. -/
theorem stale_again (hagree : Agree Condition.shown p.conditions) :
    staleConditions (some p) current = [] := by
  rw [List.eq_nil_iff_forall_not_mem]
  intro old hold
  obtain ⟨p', hp', hmem, hstale⟩ := mem_staleConditions.mp hold
  cases hp'
  obtain ⟨f, hf, hget⟩ := h.get?_eq old.type
  -- all entries of a type show what the first one does, and that one is still found
  obtain ⟨d, hd⟩ := Condition.find?_isSome_of_mem hmem
  obtain ⟨hstatus, hreason⟩ := Prod.mk.inj (hagree old hmem d hd)
  have hfresh : Observer.isStale current old = false := isStale_eq_false.mpr
    ⟨f d, by rw [hget]; exact congrArg (Option.map f) hd, (hf d).1.trans hstatus,
      (hf d).2.trans hreason⟩
  rw [hfresh] at hstale
  cases hstale

theorem relabelled_again (m : ConditionMetrics) : relabelled m (some p) current = false := by
  simp [relabelled, ConditionMetrics.projectionChanged, h.labels]

end Again

/-! ## The second observation -/

section Second

variable {o : Observer} {s : Step} {p : Snapshot} {resource : Resource}
  (hfetched : s.fetched = .ok (some resource)) (hp : o.snapshots.get? s.key = some p)
  (h : Again p (observe s.now resource))

include hfetched hp h

/-- It publishes nothing exactly if the statuses agree. -/
theorem published_again : s.published o = [] ↔ Agree (·.status) p.conditions := by
  unfold Step.published
  rw [hfetched, hp]
  simp only
  rw [finalizerEvents_again h, List.nil_append, events_again h, moves_again h]

/-- What it does to a gauge: nothing is forgotten and no state is over. -/
theorem round_again (hagree : Agree Condition.shown p.conditions) (g : ResourceGauge) :
    (s.roundOf o g).forgotten = [] ∧ (s.roundOf o g).stale = [] := by
  have hforgotten : relabelled o.metrics (some p) (observe s.now resource) = false :=
    relabelled_again h o.metrics
  have hstale := stale_again h hagree
  unfold Step.roundOf Step.round
  rw [hfetched, hp]
  cases g with
  | presence g => simp [foundRound, hforgotten, hstale]
  | terminating => simp [terminatingRound, hforgotten]

end Second

/-! ## What a reconcile leaves alone -/

/-- What every operation of some calls keeps is kept by all of them together. -/
theorem performCalls_keeps (m : ConditionMetrics) {P : Registry → Prop} {calls : List RoleOps}
    (h : ∀ ops ∈ calls, ∀ op ∈ ops, ∀ f ∈ m.surfaces, ∀ r, P r →
      P (op.2.perform (f.collector op.1) r)) {r : Registry} (hr : P r) :
    P (m.performCalls r calls) := by
  refine List.foldlRecOn calls m.performAll hr fun r hr ops hops => ?_
  refine List.foldlRecOn m.surfaces _ hr fun r hr f hf => ?_
  exact List.foldlRecOn ops _ hr fun r hr op hop => h ops hops op hop f hf r hr

/-- Operations that only gauges see. -/
def OnGauges (ops : RoleOps) : Prop := ∀ op ∈ ops, ∃ g : ResourceGauge, g.role = op.1

/-- Operations on gauges leave counters and histograms alone. -/
theorem frame_of_onGauges (m : ConditionMetrics) {calls : List RoleOps}
    (h : ∀ ops ∈ calls, OnGauges ops) (r : Registry) :
    (m.performCalls r calls).counters = r.counters ∧
      (m.performCalls r calls).histograms = r.histograms := by
  refine performCalls_keeps m (P := fun r' => r'.counters = r.counters ∧
    r'.histograms = r.histograms) (fun ops hops op hop f _ r' hr' => ?_) ⟨rfl, rfl⟩
  obtain ⟨g, hg⟩ := h ops hops op hop
  rw [← hg, g.collector_role]
  cases op.2 with
  | write labels value => exact hr'
  | delete labels =>
    show (r'.deleteMatching (.gauge _) _).1.counters = _ ∧
      (r'.deleteMatching (.gauge _) _).1.histograms = _
    rw [Metrics.Registry.deleteMatching_eq]
    exact hr'

/-- A reconcile changes no gauge but those of its surfaces. -/
theorem gauges_frame {w : Watch} {i : Nat}
    (h : ∀ f ∈ w.observer.metrics.surfaces, ∀ g : ResourceGauge, (g.ref f).index ≠ i) (s : Step) :
    (w.reconcile s.now s.key s.fetched).1.registry.gauges[i]? = w.registry.gauges[i]? := by
  -- the slot belongs to no role in any of the families that are written
  have hslots : ∀ f ∈ w.observer.metrics.surfaces, ∀ role,
      (f.collector role).slot ≠ (Collector.gauge ⟨default, i⟩).slot := by
    intro f hf role heq
    rcases ResourceGauge.exists_of_role f role with ⟨g, rfl⟩ | hother
    · rw [g.collector_role] at heq
      exact h f hf g (congrArg Prod.snd heq)
    · cases hc : f.collector role with
      | gauge ref => exact hother ref hc
      | counter ref =>
        rw [hc] at heq
        cases congrArg Prod.fst heq
      | histogram ref =>
        rw [hc] at heq
        cases congrArg Prod.fst heq
  have hframe : (w.observer.metrics.performCalls w.registry (s.calls w.observer)).at?
      (.gauge ⟨default, i⟩) = w.registry.at? (.gauge ⟨default, i⟩) := by
    refine performCalls_keeps w.observer.metrics
      (P := fun r => r.at? (.gauge ⟨default, i⟩) = w.registry.at? (.gauge ⟨default, i⟩))
      (fun ops _ op _ f hf r hr => ?_) rfl
    rw [Metrics.at?_perform, if_neg (hslots f hf op.1), hr]
  rw [reconcile_eq]
  exact Option.map_injective (fun _ _ => AnyFamily.gauge.inj) hframe

/-- Without moves, a resource that is there is a matter of gauges. -/
theorem onGauges_of_mem_comparisonCalls {m : ConditionMetrics} {now : Instant} {key : ResourceKey}
    {previous : Option Snapshot} {current : Snapshot} (hmoves : moves previous current = [])
    {ops : RoleOps} (h : ops ∈ comparisonCalls m now key previous current) : OnGauges ops := by
  have hpair : ∀ a b : SeriesOp, OnGauges [(.count, a), (.age, b)] := by
    intro a b op hop
    rcases List.mem_pair.mp hop with rfl | rfl
    · exact ⟨.presence .count, rfl⟩
    · exact ⟨.presence .age, rfl⟩
  have hlast : ∀ a : SeriesOp, OnGauges [(.terminating, a)] := by
    intro a op hop
    obtain rfl := List.mem_singleton.mp hop
    exact ⟨.terminating, rfl⟩
  rcases mem_comparisonCalls h with
    ⟨-, rfl⟩ | ⟨deleted, -, rfl⟩ | ⟨c, -, rfl⟩ | ⟨old, -, rfl⟩ | ⟨mv, hmv, -⟩
  · intro op hop
    rcases List.mem_append.mp (show op ∈ [_, _] ++ [_] from hop) with hop | hop
    · exact hpair _ _ op hop
    · exact hlast _ op hop
  · exact hlast _
  · exact hpair _ _
  · exact hpair _ _
  · rw [hmoves] at hmv
    cases hmv

end Watch

/-! ## Writing what is there -/

namespace Metrics

namespace Family

variable {α : Type} {f : Family α}

/-- Writing a tuple that is live does not change the index. -/
theorem index_record_of_live {labels : Labels} (step : Option α → α)
    (h : f.index.tuple labels ∈ f.index.live) : (f.record labels step).index = f.index := by
  simp [record, SeriesIndex.add, SeriesIndex.contains, h]

theorem index_writeAll_of_live (writes : List (Labels × α)) : ∀ {f : Family α},
    (∀ e ∈ writes, f.index.tuple e.1 ∈ f.index.live) → (f.writeAll writes).index = f.index := by
  induction writes with
  | nil => exact fun _ => rfl
  | cons e writes ih =>
    intro f h
    have hone : (f.record e.1 fun _ => e.2).index = f.index :=
      index_record_of_live _ (h e List.mem_cons_self)
    rw [writeAll_cons, ih fun e' he' => ?_, hone]
    rw [hone]
    exact h e' (List.mem_cons_of_mem _ he')

/-- Putting a value under a tuple that a vector shows shows no other tuples than before. -/
theorem tuples_put_of_mem {tuple : LabelTuple} (step : Option α → α) {l : List (LabelTuple × α)}
    (h : tuple ∈ l.map (·.1)) : (SeriesVec.put tuple step l).map (·.1) = l.map (·.1) := by
  induction l with
  | nil => cases h
  | cons s l ih =>
    unfold SeriesVec.put
    split
    · rfl
    · rename_i hother
      have hrest := (List.mem_cons.mp h).resolve_left fun heq => hother (heq ▸ rfl)
      rw [List.map_cons, ih hrest, List.map_cons]

theorem tuples_record_of_shown (h : f.WellFormed) {labels : Labels} (step : Option α → α)
    (hs : (f.value? (f.index.tuple labels)).isSome) :
    (f.record labels step).vec.series.map (·.1) = f.vec.series.map (·.1) := by
  rw [series_record h]
  exact tuples_put_of_mem step (find?_isSome_iff.mp hs)

/-- So writing tuples that are shown shows no others. -/
theorem tuples_writeAll_of_shown (writes : List (Labels × α)) : ∀ {f : Family α}, f.WellFormed →
    (∀ e ∈ writes, (f.value? (f.index.tuple e.1)).isSome) →
      (f.writeAll writes).vec.series.map (·.1) = f.vec.series.map (·.1) := by
  induction writes with
  | nil => exact fun _ _ => rfl
  | cons e writes ih =>
    intro f h hs
    have hone := tuples_record_of_shown h (fun _ => e.2) (hs e List.mem_cons_self)
    rw [writeAll_cons, ih (h.record e.1 _) fun e' he' => ?_, hone]
    have hshown := hs e' (List.mem_cons_of_mem _ he')
    unfold value? at hshown ⊢
    rw [find?_isSome_iff] at hshown ⊢
    rwa [tuple_record, hone]

end Family

/-! ## Replaying a round -/

section Round

variable {c : Collector} {t : LabelTuple}

/-- Under a tuple that holds something or is written, something is left by writes. -/
theorem isSome_foldl_write (writes : List (Labels × Float)) : ∀ v : Option Float,
    (v.isSome ∨ ∃ e ∈ writes, c.index.tuple e.1 = t) →
      ((writes.map fun e => SeriesOp.write e.1 e.2).foldl
        (fun v op => op.effect c t v) v).isSome := by
  induction writes with
  | nil => exact fun v h => h.elim id fun ⟨e, he, _⟩ => nomatch he
  | cons e writes ih =>
    intro v h
    refine ih _ ?_
    by_cases ht : c.index.tuple e.1 = t
    · exact Or.inl (by simp [SeriesOp.effect, ht])
    · refine h.imp (fun hv => by simpa [SeriesOp.effect, ht] using hv) ?_
      rintro ⟨e', he', ht'⟩
      exact ⟨e', (List.mem_cons.mp he').resolve_left fun heq => ht (heq ▸ ht'), ht'⟩

/-- Deletions that do not cover a tuple leave alone what it holds. -/
theorem foldl_delete_of_not_covered (deleted : List Labels) : ∀ v : Option Float,
    (∀ l ∈ deleted, c.index.agrees (c.declared l) t = false) →
      (deleted.map SeriesOp.delete).foldl (fun v op => op.effect c t v) v = v := by
  induction deleted with
  | nil => exact fun _ _ => rfl
  | cons l deleted ih =>
    intro v h
    have hone : (SeriesOp.delete l).effect c t v = v := by
      simp [SeriesOp.effect, h l List.mem_cons_self]
    rw [List.map_cons, List.foldl_cons, hone]
    exact ih v fun l' hl' => h l' (List.mem_cons_of_mem _ hl')

/-- Under a tuple that a round writes and does not remove again, something is left. -/
theorem isSome_of_round {r : Round Float} (hwritten : ∃ e ∈ r.writes, c.index.tuple e.1 = t)
    (hkept : ∀ l ∈ r.stale, c.index.agrees (c.declared l) t = false) (v : Option Float) :
    (r.ops.foldl (fun v op => op.effect c t v) v).isSome := by
  unfold Round.ops
  rw [List.foldl_append, List.foldl_append, foldl_delete_of_not_covered _ _ hkept]
  exact isSome_foldl_write _ _ (Or.inr hwritten)

end Round

/-- The gauges that tell which conditions are present declare their states. -/
theorem Fresh.states {m : ConditionMetrics} {r : Registry} (h : Fresh m r)
    {f : ConditionFamilies} (hf : f ∈ m.surfaces) (g : PresenceGauge) :
    stateLabels ⊆ (Collector.gauge (g.ref f)).descriptor.labelNames := by
  have htail : g.role.plan.tail = stateLabels := by cases g <;> rfl
  rw [← g.collector_role]
  intro name hname
  rcases List.mem_cons.mp hf with rfl | hf
  · rw [h.kind g.role, htail]
    simp [hname]
  · rw [h.shared f (Option.mem_toList.mp hf) g.role, htail]
    simp [hname]

/-- A tuple of one condition state is covered by no other state of the resource. -/
theorem ConditionMetrics.state_of_covers {m : ConditionMetrics} (h : m.projection.WellFormed)
    {c : Collector} (hc : stateLabels ⊆ c.descriptor.labelNames) {key : ResourceKey}
    {labels : Labels} {d old : Condition}
    (ht : c.index.agrees (c.declared (m.resourceSet key (stateOf old)))
      (c.index.tuple (m.labelSet (some key) labels (stateOf d))) = true) :
    old.type = d.type ∧ old.status = d.status ∧ old.reason = d.reason := by
  have hold : IsState (stateOf old) := Or.inr ⟨old, rfl⟩
  have hvalues : ∀ e ∈ stateOf old, ∀ v, (e.1, v) ∈ stateOf d → v = e.2 := by
    intro e he v hv
    have hname : e.1 ∈ c.descriptor.labelNames :=
      hc (List.mem_map_of_mem (f := (·.1)) (show e ∈ stateOf old from he))
    have hcovered := (covers_iff h hold _).mp ht e (List.mem_append_right _ he) hname
    rw [SeriesIndex.valueOf?_tuple c.index _ hname,
      get?_labelSet_of_mem h (m.distinct_fixedLabels_state key d)
        (m.not_projected_fixedLabels_state key d) labels (e := (e.1, v))
        (List.mem_append_left _ (List.mem_append_right _ hv))] at hcovered
    exact Option.some.inj hcovered
  refine ⟨?_, ?_, ?_⟩
  · exact (hvalues (typeLabel, old.type) (by simp [stateOf]) d.type (by simp [stateOf])).symm
  · exact ConditionStatus.text_inj.mp
      (hvalues (statusLabel, old.status.text) (by simp [stateOf]) d.status.text
        (by simp [stateOf])).symm
  · exact (hvalues (reasonLabel, old.reason) (by simp [stateOf]) d.reason (by simp [stateOf])).symm

end Metrics

namespace Watch

/-! ## Gauges between two observations -/

/-- Two observations of a resource write the same labels to a gauge. -/
theorem labels_round_of_same {o o' : Observer} (hmetrics : o'.metrics = o.metrics)
    {key : ResourceKey} {resource : Resource} {s s' : Step} (h : s.sees key = some (some resource))
    (h' : s'.sees key = some (some resource)) (g : ResourceGauge) :
    (s'.roundOf o' g).writes.map (·.1) = (s.roundOf o g).writes.map (·.1) := by
  obtain ⟨hkey, hfetched⟩ := key_of_sees h
  obtain ⟨hkey', hfetched'⟩ := key_of_sees h'
  have hlabels : (observe s'.now resource).labels = (observe s.now resource).labels :=
    (again_observe s.now s'.now resource none).labels
  unfold Step.roundOf Step.round
  rw [hfetched, hfetched', hmetrics, hkey, hkey']
  cases g with
  | presence g =>
    -- binding again changes no more than times, which are in no label
    have hconditions : (observe s'.now resource).conditions =
        (observe s.now resource).conditions.map (resource.restamped s'.now) :=
      Resource.conditions_bind s.now s'.now resource
    have hstate : ∀ c, stateOf (resource.restamped s'.now c) = stateOf c := by
      intro c
      unfold Resource.restamped
      split <;> rfl
    simp only [foundRound, hlabels, hconditions, List.map_map, Function.comp_def, hstate]
  | terminating =>
    have hsince : (observe s'.now resource).terminatingSince =
        (observe s.now resource).terminatingSince := by
      show (resource.bind s'.now).metadata.deleted = (resource.bind s.now).metadata.deleted
      rw [Resource.metadata_bind, Resource.metadata_bind]
    simp only [terminatingRound, hlabels, hsince]
    cases (observe s.now resource).terminatingSince <;> simp

section Gauges

variable {w : Watch} (hfresh : Fresh w.observer.metrics w.registry) {f : ConditionFamilies}
  (hf : f ∈ w.observer.metrics.surfaces) (g : ResourceGauge) {key : ResourceKey}

include hfresh hf

/-- Steps that do not see a key leave what is held under its tuples alone. -/
theorem replay_of_not_seen {steps between : List Step} (h : ∀ s ∈ between, s.sees key = none)
    {t : LabelTuple} (ht : w.observer.metrics.Owns (.gauge (g.ref f)) key t) :
    Metrics.replay (.gauge (g.ref f)) (w.opsOn g.role (steps ++ between)) t =
      Metrics.replay (.gauge (g.ref f)) (w.opsOn g.role steps) t := by
  have hidentity := hfresh.identity hf g
  have hkeeps : Keeps key fun s => (s.sees key).isSome :=
    fun s hs => Option.not_isSome_iff_eq_none.mp (Bool.eq_false_iff.mp hs)
  -- steps on other keys put nothing out about this one
  have hquiet : (((w.run steps).1.outputs (Step.ops g.role) between).filter (·.1 = key)) = [] := by
    have hnone : between.filter (fun s => (s.sees key).isSome) = [] :=
      List.filter_eq_nil_iff.mpr fun s hs => by simp [h s hs]
    rw [← outputs_filter (keyed_ops g.role) hkeeps, hnone]
    rfl
  unfold opsOn
  rw [Metrics.ConditionMetrics.replay_of_owner hfresh.projection hidentity
      (fun e he => about_of_mem_outputs he) ht,
    Metrics.ConditionMetrics.replay_of_owner hfresh.projection hidentity
      (fun e he => about_of_mem_outputs he) ht,
    outputs_append, List.filter_append, hquiet, List.append_nil]

omit hf in
/-- The tuples that a step writes belong to its key. -/
theorem owns_of_written {before : List Step} {s : Step} {e : Labels × Float}
    (he : e ∈ (s.roundOf (w.run before).1.observer g).writes) :
    w.observer.metrics.Owns (.gauge (g.ref f)) s.key
      ((Collector.gauge (g.ref f)).index.tuple e.1) := by
  have habout : (w.run before).1.observer.metrics.About s.key (.write e.1 e.2) := by
    refine about_of_mem_round (g := g) ?_
    unfold Metrics.Round.ops
    exact List.mem_append_left _ (List.mem_append_right _ (List.mem_map_of_mem he))
  rw [observer_run] at habout
  generalize hop : SeriesOp.write e.1 e.2 = op at habout
  cases habout with
  | write hstate labels v =>
    obtain ⟨hlabels, -⟩ := SeriesOp.write.inj hop
    rw [hlabels]
    exact Metrics.ConditionMetrics.owns_tuple hfresh.projection hstate labels
  | delete hstate => cases hop

/-- What a step writes is not removed again as stale, if no entry of the condition list is shown
otherwise than the one that is found under its type. -/
theorem not_covered_of_written {before : List Step} {s : Step} {resource : Resource}
    (hfetched : s.fetched = .ok (some resource))
    (hagree : Agree Condition.shown (observe s.now resource).conditions) {e : Labels × Float}
    (he : e ∈ (s.roundOf (w.run before).1.observer g).writes) {l : Labels}
    (hl : l ∈ (s.roundOf (w.run before).1.observer g).stale) :
    (Collector.gauge (g.ref f)).index.agrees ((Collector.gauge (g.ref f)).declared l)
      ((Collector.gauge (g.ref f)).index.tuple e.1) = false := by
  rw [Bool.eq_false_iff]
  intro hcovered
  have hmetrics : (w.run before).1.observer.metrics = w.observer.metrics := by rw [observer_run]
  unfold Step.roundOf Step.round at he hl
  rw [hfetched] at he hl
  cases g with
  | terminating => cases hl
  | presence g =>
    obtain ⟨old, hold, rfl⟩ := List.mem_map.mp hl
    obtain ⟨d, hd, rfl⟩ := List.mem_map.mp he
    rw [hmetrics] at hcovered
    obtain ⟨htype, hstatus, hreason⟩ := Metrics.ConditionMetrics.state_of_covers
      hfresh.projection (hfresh.states hf g) hcovered
    -- the state that was removed is another one than what is found now
    obtain ⟨-, -, -, hstale⟩ := mem_staleConditions.mp hold
    obtain ⟨d', hd'⟩ := Condition.find?_isSome_of_mem hd
    obtain ⟨hstatus', hreason'⟩ := Prod.mk.inj (hagree d hd d' hd')
    have hholds : Observer.isStale (observe s.now resource) old = false :=
      isStale_eq_false.mpr ⟨d', by rw [htype]; exact hd', hstatus'.trans hstatus.symm,
        hreason'.trans hreason.symm⟩
    rw [hholds] at hstale
    cases hstale

/-- What an observation writes is still held when the resource is observed again, if no entry of
its condition list is shown otherwise than the one that is found under its type. -/
theorem isSome_of_written {resource : Resource} {before between : List Step} {first : Step}
    (hfirst : first.sees key = some (some resource)) (hbetween : ∀ s ∈ between, s.sees key = none)
    (hagree : Agree Condition.shown (observe first.now resource).conditions) {labels : Labels}
    (hl : labels ∈ ((first.roundOf (w.run before).1.observer g).writes.map (·.1))) :
    (Metrics.replay (.gauge (g.ref f)) (w.opsOn g.role (before ++ [first] ++ between))
      ((Collector.gauge (g.ref f)).index.tuple labels)).isSome := by
  obtain ⟨hkey, hfetched⟩ := key_of_sees hfirst
  obtain ⟨e, he, rfl⟩ := List.mem_map.mp hl
  -- the tuple belongs to the key, so what other keys do does not matter
  have howns := hkey ▸ owns_of_written (f := f) hfresh g he
  rw [replay_of_not_seen hfresh hf g hbetween howns, opsOn_concat, on_calls_round,
    Metrics.replay, List.foldl_append]
  exact Metrics.isSome_of_round ⟨e, he, rfl⟩
    (fun _ hl => not_covered_of_written hfresh hf g hfetched hagree he hl) _

end Gauges

/-! ## Observing twice -/

/-- What a second observation of a resource leaves alone, given what was seen of the conditions
at first. It is made after some steps. -/
structure Quiet (w : Watch) (steps : List Step) (second : Step) (seen : List Condition) : Prop where
  /-- It publishes nothing exactly if entries of one type have the same status. -/
  events_iff : (w.run steps).1.events [second] = [] ↔ Agree (·.status) seen
  /-- Then it counts nothing. -/
  counters : Agree (·.status) seen →
    (w.run (steps ++ [second])).1.registry.counters = (w.run steps).1.registry.counters
  /-- And it samples nothing. -/
  histograms : Agree (·.status) seen →
    (w.run (steps ++ [second])).1.registry.histograms = (w.run steps).1.registry.histograms
  /-- If entries of one type are also shown alike, the index of every gauge stays as it is. -/
  live : Agree Condition.shown seen → ∀ i : Nat,
    ((w.run (steps ++ [second])).1.registry.gauges[i]?).map (·.index) =
      ((w.run steps).1.registry.gauges[i]?).map (·.index)
  /-- And so do the series that it shows, if no two tuples of different series run together. -/
  series : Agree Condition.shown seen → (∀ g : ResourceGauge, w.ApartOn g.role steps) →
    ∀ ref : GaugeRef, ((w.run (steps ++ [second])).1.registry.gaugeSeries ref).map (·.1) =
      ((w.run steps).1.registry.gaugeSeries ref).map (·.1)

section Fresh

variable {w : Watch} (hfresh : Fresh w.observer.metrics w.registry) {key : ResourceKey}
  {resource : Resource} {between : List Step} {first second : Step}
  (hr : Repeated key resource first between second)
  (hagree : Agree Condition.shown (observe first.now resource).conditions) (before : List Step)

include hfresh hr hagree

/-- A gauge of a surface is written under tuples that it holds already. -/
theorem gauge_of_repeated {f : ConditionFamilies} (hf : f ∈ w.observer.metrics.surfaces)
    (g : ResourceGauge) :
    ∃ fam writes,
      (w.run (before ++ [first] ++ between)).1.registry.gauges[(g.ref f).index]? = some fam ∧
      (w.run (before ++ [first] ++ between ++ [second])).1.registry.gauges[(g.ref f).index]? =
        some (fam.writeAll writes) ∧ fam.WellFormed ∧
      (∀ e ∈ writes, fam.index.tuple e.1 ∈ fam.index.live) ∧
      (w.ApartOn g.role (before ++ [first] ++ between) →
        ∀ e ∈ writes, (fam.value? (fam.index.tuple e.1)).isSome) := by
  obtain ⟨fam, hfam, hreplayed, hexact⟩ := gauge_run hfresh hf g (before ++ [first] ++ between)
  have hmetrics : ∀ steps, (w.run steps).1.observer.metrics = w.observer.metrics := by
    intro steps
    rw [observer_run]
  obtain ⟨hkey, hfetched⟩ := key_of_sees hr.second
  have hp := hr.get?_before_second w before
  rw [← hkey] at hp
  obtain ⟨hforgotten, hstale⟩ := round_again hfetched hp
    (again_observe first.now second.now resource _) hagree g
  have hnext := gauge_reconcile (by rw [hmetrics]; exact hfresh.separate)
    (by rw [hmetrics]; exact hf) g second hfam
  -- a round that forgets nothing and finds nothing stale only writes
  have hround : fam.after
      ((second.roundOf (w.run (before ++ [first] ++ between)).1.observer g).declared
      (.gauge (g.ref f))) =
        fam.writeAll
          (second.roundOf (w.run (before ++ [first] ++ between)).1.observer g).writes := by
    unfold Family.after Metrics.Round.declared
    rw [hforgotten, hstale]
    rfl
  have hheld : ∀ e ∈ (second.roundOf (w.run (before ++ [first] ++ between)).1.observer g).writes,
      (Metrics.replay (.gauge (g.ref f)) (w.opsOn g.role (before ++ [first] ++ between))
        (fam.index.tuple e.1)).isSome := by
    intro e he
    rw [hreplayed.tuple_eq]
    refine isSome_of_written hfresh hf g hr.first hr.between hagree ?_
    have hsame : (w.run (before ++ [first] ++ between)).1.observer.metrics =
        (w.run before).1.observer.metrics := by rw [hmetrics, hmetrics]
    rw [← labels_round_of_same hsame hr.first hr.second g]
    exact List.mem_map_of_mem he
  rw [hround, ← run_concat] at hnext
  refine ⟨fam, _, hfam, hnext, hreplayed.wellFormed, ?_, ?_⟩
  · exact fun e he => (hreplayed.live _).mpr (hheld e he)
  · intro hapart e he
    rw [hexact hapart]
    exact hheld e he

/-- The index of every gauge stays as it is. -/
theorem index_of_repeated (i : Nat) :
    ((w.run (before ++ [first] ++ between ++ [second])).1.registry.gauges[i]?).map (·.index) =
      ((w.run (before ++ [first] ++ between)).1.registry.gauges[i]?).map (·.index) := by
  by_cases hi : ∃ f ∈ w.observer.metrics.surfaces, ∃ g : ResourceGauge, (g.ref f).index = i
  · obtain ⟨f, hf, g, rfl⟩ := hi
    obtain ⟨fam, writes, hfam, hnext, -, hlive, -⟩ :=
      gauge_of_repeated hfresh hr hagree before hf g
    rw [hfam, hnext, Option.map_some, Option.map_some,
      Metrics.Family.index_writeAll_of_live writes hlive]
  · push Not at hi
    rw [run_concat, gauges_frame fun f hf g => hi f (by rwa [observer_run] at hf) g]

/-- So do the labels of its series, if no two tuples of different series run together. -/
theorem labels_of_repeated
    (hapart : ∀ g : ResourceGauge, w.ApartOn g.role (before ++ [first] ++ between))
    (ref : GaugeRef) :
    ((w.run (before ++ [first] ++ between ++ [second])).1.registry.gaugeSeries ref).map (·.1) =
      ((w.run (before ++ [first] ++ between)).1.registry.gaugeSeries ref).map (·.1) := by
  unfold Registry.gaugeSeries
  by_cases hi : ∃ f ∈ w.observer.metrics.surfaces, ∃ g : ResourceGauge, (g.ref f).index = ref.index
  · obtain ⟨f, hf, g, hi⟩ := hi
    obtain ⟨fam, writes, hfam, hnext, hwf, -, hshown⟩ :=
      gauge_of_repeated hfresh hr hagree before hf g
    have hlabels : ∀ a : Family Float, a.labelled.map (·.1) =
        (a.vec.series.map (·.1)).map a.index.labelNames.zip := by
      intro a
      simp only [Family.labelled, List.map_map, Function.comp_def]
    rw [← hi, hfam, hnext]
    simp only
    rw [hlabels, hlabels, Metrics.Family.labelNames_writeAll,
      Metrics.Family.tuples_writeAll_of_shown writes hwf (hshown (hapart g))]
  · -- a gauge that is in none of the families is not written at all
    push Not at hi
    rw [run_concat, gauges_frame fun f hf g => hi f (by rwa [observer_run] at hf) g]

end Fresh

/-- A second observation in a state that holds the snapshot of the first one. -/
theorem frame_of_again {w : Watch} {s : Step} {p : Snapshot} {resource : Resource}
    (hfetched : s.fetched = .ok (some resource)) (hp : w.observer.snapshots.get? s.key = some p)
    (h : Again p (observe s.now resource)) (hagree : Agree (·.status) p.conditions) :
    (w.reconcile s.now s.key s.fetched).1.registry.counters = w.registry.counters ∧
      (w.reconcile s.now s.key s.fetched).1.registry.histograms = w.registry.histograms := by
  rw [reconcile_eq]
  refine frame_of_onGauges w.observer.metrics (fun ops hops => ?_) w.registry
  unfold Step.calls at hops
  rw [hfetched, hp] at hops
  exact onGauges_of_mem_comparisonCalls ((moves_again h).mpr hagree) hops

/-- The second of two consecutive observations of an unchanged resource is quiet as far as its
condition list agrees with itself, and announces something otherwise. -/
theorem repeated_quiet {scope : String} {g : GroupKind} {settings : ObserverSettings}
    {r : Registry} {o : Observer}
    (h : Observer.create (Registry.new scope) g settings = (r, .ok o)) {key : ResourceKey}
    {resource : Resource} {before between : List Step} {first second : Step}
    (hr : Repeated key resource first between second) :
    Quiet ⟨o, r⟩ (before ++ [first] ++ between) second (observe first.now resource).conditions := by
  obtain ⟨hfresh, -⟩ := Observer.fresh_create h
  obtain ⟨hkey, hfetched⟩ := key_of_sees hr.second
  have hp := hr.get?_before_second ⟨o, r⟩ before
  have hagain := again_observe first.now second.now resource
    (((⟨o, r⟩ : Watch).run before).1.observer.snapshots.get? key)
  rw [← hkey] at hp hagain
  refine { events_iff := ?_, counters := ?_, histograms := ?_, live := ?_, series := ?_ }
  · have hevents := events_concat ((⟨o, r⟩ : Watch).run (before ++ [first] ++ between)).1 [] second
    rw [List.nil_append] at hevents
    rw [hevents]
    have hquiet := published_again hfetched hp hagain
    exact hquiet
  · intro hagree
    rw [run_concat]
    exact (frame_of_again hfetched hp hagain hagree).1
  · intro hagree
    rw [run_concat]
    exact (frame_of_again hfetched hp hagain hagree).2
  · exact fun hagree i => index_of_repeated hfresh hr hagree before i
  · exact fun hagree hapart ref => labels_of_repeated hfresh hr hagree before hapart ref

/-- A poll of a resource. -/
def poll (now : Instant) (name : String) (status : ConditionStatus) : Step :=
  ⟨now, ⟨"", name⟩, .ok (some (ready "" name status))⟩

/-- A fetch that fails, and a poll of another resource. -/
def meanwhile : List Step := [⟨.epoch, ⟨"", "n"⟩, .error .cancelled⟩, poll .epoch "m" .false]

theorem apart_meanwhile (g : ResourceGauge) :
    (launched projecting).ApartOn g.role ([] ++ [poll .epoch "n" .true] ++ meanwhile) := by
  have hall : ∀ role ∈ [Metrics.Role.count, .age, .terminating],
      (launched projecting).ApartOn role ([] ++ [poll .epoch "n" .true] ++ meanwhile) := by
    decide +kernel
  refine hall g.role ?_
  cases g with
  | presence g => cases g <;> decide
  | terminating => decide

/-- A resource is observed, its next fetch fails, another one is observed, and then the first one
again, half a minute later. -/
theorem repeated_quiet_ready : ∃ r o,
    Observer.create (Registry.new "operator") ⟨"apps", "Deployment"⟩ projecting = (r, .ok o) ∧
      Repeated ⟨"", "n"⟩ (ready "" "n" .true) (poll .epoch "n" .true) meanwhile
        (poll halfMinute "n" .true) ∧
      Agree Condition.shown (observe .epoch (ready "" "n" .true)).conditions ∧
      (∀ g : ResourceGauge,
        (⟨o, r⟩ : Watch).ApartOn g.role ([] ++ [poll .epoch "n" .true] ++ meanwhile)) ∧
      Quiet ⟨o, r⟩ ([] ++ [poll .epoch "n" .true] ++ meanwhile) (poll halfMinute "n" .true)
        (observe .epoch (ready "" "n" .true)).conditions := by
  obtain ⟨r, o, h⟩ := create_projecting
  have hrepeated : Repeated ⟨"", "n"⟩ (ready "" "n" .true) (poll .epoch "n" .true) meanwhile
      (poll halfMinute "n" .true) := by
    refine ⟨rfl, fun s hs => ?_, rfl⟩
    rcases List.mem_pair.mp hs with rfl | rfl
    · rfl
    · decide
  refine ⟨r, o, h, hrepeated, ?_, fun g => ?_, repeated_quiet h hrepeated⟩
  · exact (distinct_observe (distinct_ready "" "n" .true)).agree _
  · rw [← launched_eq h]
    exact apart_meanwhile g

/-! ## A list that disagrees with itself -/

/-- A document with two conditions of one type. -/
def twofold : Json :=
  .object
    [("apiVersion", .string "apps/v1"), ("kind", .string "Deployment"),
      ("metadata", .object [("name", .string "n")]),
      ("status", .object
        [("conditions", .array
          [.object [("lastTransitionTime", .string "2024-01-01T00:00:00Z"),
              ("reason", .string "X"), ("status", .string "True"), ("type", .string "Ready")],
            .object [("lastTransitionTime", .string "2024-01-01T00:00:00Z"),
              ("reason", .string "Y"), ("status", .string "False"),
              ("type", .string "Ready")]])])]

/-- What it is accepted as. -/
def adapted : Resource :=
  match Resource.ofDocument twofold (.of "Ready" []) with
  | .ok resource => resource
  | .error _ => default

theorem ofDocument_twofold : Resource.ofDocument twofold (.of "Ready" []) = .ok adapted := by
  have haccepted : (Resource.ofDocument twofold (.of "Ready" [])).toOption.isSome = true := by
    decide +kernel
  unfold adapted
  cases hr : Resource.ofDocument twofold (.of "Ready" []) with
  | error e =>
    rw [hr] at haccepted
    cases haccepted
  | ok resource => rfl

/-- It is observed. -/
def observed : Step := ⟨.epoch, ⟨"", "n"⟩, .ok (some adapted)⟩

theorem told_observed : (((launched default).run [observed]).1.events [observed]).length = 1 := by
  decide +kernel

/-- Its second observation announces a transition, although nothing changed. -/
theorem not_quiet_twofold : ∃ r o,
    Observer.create (Registry.new "operator") ⟨"apps", "Deployment"⟩ default = (r, .ok o) ∧
      Resource.ofDocument twofold (.of "Ready" []) = .ok adapted ∧
      Repeated ⟨"", "n"⟩ adapted observed [] observed ∧
      ((⟨o, r⟩ : Watch).run [observed]).1.events [observed] ≠ [] := by
  obtain ⟨r, o, h⟩ := create_default
  refine ⟨r, o, h, ofDocument_twofold, ⟨rfl, fun s hs => (nomatch hs), rfl⟩, fun hquiet => ?_⟩
  have htold := told_observed
  rw [launched_eq h, hquiet] at htold
  cases htold

end Watch

end StatusWatch
