import StatusWatch.Proofs.Episodes

/-!
# What is told of deletions

Whether a resource is being deleted is told in two ways. Its snapshot keeps the deletion time
that was seen first, and the gauge of terminations has a series for it, which is written
whenever a deletion time is seen and removed with all the others of the resource. Neither is
taken back while the resource is tracked. A resource that is created anew under its key, without
a deletion time and without having been missed in between, is still told to be terminating.

- `ShowsResource`: a gauge shows a resource; `showsResource_iff`: in terms of tuples.
- `TellsDeletion`: snapshot and gauges tell of a resource what it says of itself.
- `Revives`: a step finds a resource without the deletion time that is remembered of it.
- `terminatingTuples`, `TerminationsApart`: the tuples of the resources that terminate.
- `Follows`, `Following`: the invariant, which the steps keep that tell deletions.
- `deletion_exact_iff`: deletions are told after every step exactly if no step revives a
  resource and the tuples are always apart.
-/

namespace StatusWatch

open Metrics (Apart Collector ConditionFamilies ConditionMetrics Family Fresh LabelTuple Registry)

namespace Metrics

/-! ## Showing a resource -/

/-- Some series has the namespace and the name of a resource. -/
def ShowsResource (series : List (List (String × String) × Float)) (key : ResourceKey) : Prop :=
  ∃ e ∈ series, (namespaceLabel, key.ns) ∈ e.1 ∧ (nameLabel, key.name) ∈ e.1

instance (series : List (List (String × String) × Float)) (key : ResourceKey) :
    Decidable (ShowsResource series key) :=
  inferInstanceAs (Decidable (∃ e ∈ series, _))

/-- A gauge of resources shows those that own one of its tuples. -/
theorem Fresh.showsResource_iff {m : ConditionMetrics} {r : Registry} (h : Fresh m r)
    {f : ConditionFamilies} (hf : f ∈ m.surfaces) (g : ResourceGauge) {fam : Family Float}
    (hwf : fam.WellFormed)
    (hnames : fam.index.labelNames = (Collector.gauge (g.ref f)).descriptor.labelNames)
    (howned : ∀ t ∈ fam.index.live, ∃ k, m.Owns (.gauge (g.ref f)) k t) (key : ResourceKey) :
    ShowsResource fam.labelled key ↔
      ∃ t, (fam.value? t).isSome ∧ m.Owns (.gauge (g.ref f)) key t := by
  have hnodup := h.toLaid.nodup_names hf g.role
  rw [g.collector_role] at hnodup
  have hlabels : ∀ s ∈ fam.vec.series, ∀ k, m.Owns (.gauge (g.ref f)) k s.1 →
      (((namespaceLabel, key.ns) ∈ fam.index.labelNames.zip s.1 ∧
        (nameLabel, key.name) ∈ fam.index.labelNames.zip s.1) ↔ key = k) := by
    intro s hs k howns
    have hfull := Family.length_of_shown hwf hs
    rw [hnames] at hfull ⊢
    exact howns.mem_zip_iff h.projection (h.identity hf g) hnodup hfull key
  constructor
  · rintro ⟨e, he, hshows⟩
    obtain ⟨s, hs, rfl⟩ := List.mem_map.mp he
    have hshown : (fam.value? s.1).isSome := find?_isSome_iff.mpr (List.mem_map_of_mem hs)
    obtain ⟨k, howns⟩ := howned s.1 (hwf.indexed s.1 hshown)
    obtain rfl := (hlabels s hs k howns).mp hshows
    exact ⟨s.1, hshown, howns⟩
  · rintro ⟨t, ht, howns⟩
    obtain ⟨s, hs, rfl⟩ := List.mem_map.mp (find?_isSome_iff.mp ht)
    exact ⟨_, List.mem_map_of_mem hs, (hlabels s hs key howns).mpr rfl⟩

namespace ConditionMetrics

/-- Of the labels of a resource, only the projected ones matter. -/
theorem labelSet_congr {m : ConditionMetrics} {l l' : Labels}
    (h : m.projectionChanged l l' = false) (key : Option ResourceKey)
    (extra : List (String × String)) : m.labelSet key l extra = m.labelSet key l' extra := by
  have hproject : m.projection.project l = m.projection.project l' := by
    unfold projectionChanged at h
    by_cases hempty : m.projection.isEmpty = true
    · have hnil : m.projection.entries = [] := List.isEmpty_iff.mp hempty
      simp [LabelProjection.project, hnil]
    · simpa [hempty] using h
  unfold labelSet
  rw [hproject]

/-- The tuple of a resource in the gauge of terminations of a surface. -/
def terminatingTuple (m : ConditionMetrics) (f : ConditionFamilies) (key : ResourceKey)
    (labels : Labels) : LabelTuple :=
  (Collector.gauge f.terminationCurrentSeconds).index.tuple (m.labelSet (some key) labels [])

end ConditionMetrics

end Metrics

open Metrics (ShowsResource)

namespace Watch

/-! ## Telling deletions -/

/-- The snapshot of a resource and the gauges of terminations tell whether it is being deleted. -/
structure TellsDeletion (w : Watch) (key : ResourceKey) (resource : Resource) : Prop where
  snapshot : ∃ p, w.observer.snapshots.get? key = some p ∧
    p.isTerminating = resource.metadata.isTerminating
  gauges : ∀ f ∈ w.observer.metrics.surfaces,
    ShowsResource (w.registry.gaugeSeries f.terminationCurrentSeconds) key ↔
      resource.metadata.isTerminating = true

/-- A step finds a resource without a deletion time, and one is remembered of it. -/
def Revives (w : Watch) (s : Step) : Prop :=
  ∃ resource p, s.fetched = .ok (some resource) ∧ resource.metadata.isTerminating = false ∧
    w.observer.snapshots.get? s.key = some p ∧ p.isTerminating = true

/-- The tuples of the tracked resources that are terminating. -/
def terminatingTuples (m : ConditionMetrics) (f : ConditionFamilies) (store : SnapshotStore) :
    List LabelTuple :=
  (store.entries.filter (·.2.isTerminating)).map fun e => m.terminatingTuple f e.1 e.2.labels

/-- On every surface the tuples of terminating resources are apart. -/
def TerminationsApart (w : Watch) : Prop :=
  ∀ f ∈ w.observer.metrics.surfaces,
    Apart (terminatingTuples w.observer.metrics f w.observer.snapshots)

theorem mem_terminatingTuples {m : ConditionMetrics} {f : ConditionFamilies}
    {store : SnapshotStore} {t : LabelTuple} :
    t ∈ terminatingTuples m f store ↔ ∃ k p, store.get? k = some p ∧ p.isTerminating = true ∧
      m.terminatingTuple f k p.labels = t := by
  unfold terminatingTuples
  rw [List.mem_map]
  constructor
  · rintro ⟨⟨k, p⟩, he, rfl⟩
    obtain ⟨he, hp⟩ := List.mem_filter.mp he
    exact ⟨k, p, (store.mem_entries_iff k p).mp he, hp, rfl⟩
  · rintro ⟨k, p, hk, hp, rfl⟩
    exact ⟨(k, p), List.mem_filter.mpr ⟨(store.mem_entries_iff k p).mpr hk, hp⟩, rfl⟩

/-- A deletion time that was seen is remembered. -/
theorem isTerminating_remembered (current : Snapshot) (previous : Option Snapshot) :
    (remembered current previous).isTerminating =
      (previous.any (·.isTerminating) || current.isTerminating) := by
  cases previous with
  | none => rfl
  | some p =>
    show ((p.terminatingSince).or current.terminatingSince).isSome = _
    exact Option.isSome_or

theorem isTerminating_observe (now : Instant) (resource : Resource) :
    (observe now resource).isTerminating = resource.metadata.isTerminating := by
  show (resource.bind now).metadata.deleted.isSome = _
  rw [Resource.metadata_bind]
  rfl

/-! ## One gauge -/

/-- A gauge holds and shows exactly some tuples. -/
structure Follows (c : Collector) (tuples : List LabelTuple) (fam : Family Float) : Prop where
  wellFormed : fam.WellFormed
  names : fam.index.labelNames = c.descriptor.labelNames
  live : ∀ t, t ∈ fam.index.live ↔ t ∈ tuples
  mirrors : fam.Mirrors

theorem Follows.apart {c : Collector} {tuples : List LabelTuple} {fam : Family Float}
    (h : Follows c tuples fam) : Apart tuples :=
  (h.mirrors.apart h.wellFormed).mono fun t ht => (h.live t).mpr ht

section Gauge

variable {m : ConditionMetrics} {r : Registry} (h : Fresh m r) {f : ConditionFamilies}
  (hf : f ∈ m.surfaces) {store : SnapshotStore} {fam : Family Float}

include h

theorem owns_terminatingTuple (key : ResourceKey) (labels : Labels) :
    m.Owns (.gauge f.terminationCurrentSeconds) key (m.terminatingTuple f key labels) :=
  Metrics.ConditionMetrics.owns_tuple h.projection (Or.inl rfl) labels

theorem exists_owner_terminating {t : LabelTuple} (ht : t ∈ terminatingTuples m f store) :
    ∃ k, m.Owns (.gauge f.terminationCurrentSeconds) k t := by
  obtain ⟨k, p, -, -, rfl⟩ := mem_terminatingTuples.mp ht
  exact ⟨k, owns_terminatingTuple h k p.labels⟩

include hf

theorem terminating_owner_unique {k k' : ResourceKey} {t : LabelTuple}
    (hk : m.Owns (.gauge f.terminationCurrentSeconds) k t)
    (hk' : m.Owns (.gauge f.terminationCurrentSeconds) k' t) : k = k' :=
  Metrics.ConditionMetrics.owner_unique h.projection (h.identity hf .terminating) hk hk'

/-- The tuples of all resources but one are those that it does not own. -/
theorem mem_terminatingTuples_erase (key : ResourceKey) (t : LabelTuple) :
    t ∈ terminatingTuples m f (store.erase key) ↔ t ∈ terminatingTuples m f store ∧
      ¬ m.Owns (.gauge f.terminationCurrentSeconds) key t := by
  simp only [mem_terminatingTuples, OrderedMap.get?_erase]
  constructor
  · rintro ⟨k, p, hk, hp, rfl⟩
    split at hk
    · cases hk
    · rename_i hne
      refine ⟨⟨k, p, hk, hp, rfl⟩, fun howns => hne ?_⟩
      exact terminating_owner_unique h hf howns (owns_terminatingTuple h k p.labels)
  · rintro ⟨⟨k, p, hk, hp, rfl⟩, hnot⟩
    refine ⟨k, p, ?_, hp, rfl⟩
    rw [if_neg, hk]
    rintro rfl
    exact hnot (owns_terminatingTuple h key p.labels)

omit h hf in
/-- The tuples once a snapshot is replaced. -/
theorem mem_terminatingTuples_insert (key : ResourceKey) (p : Snapshot) (t : LabelTuple) :
    t ∈ terminatingTuples m f (store.insert key p) ↔
      (p.isTerminating = true ∧ m.terminatingTuple f key p.labels = t) ∨
        t ∈ terminatingTuples m f (store.erase key) := by
  simp only [mem_terminatingTuples, OrderedMap.get?_insert, OrderedMap.get?_erase]
  constructor
  · rintro ⟨k, p', hk, hp, ht⟩
    split at hk
    · rename_i hkey
      cases hk
      subst hkey
      exact Or.inl ⟨hp, ht⟩
    · rename_i hkey
      exact Or.inr ⟨k, p', by rw [if_neg hkey, hk], hp, ht⟩
  · rintro (⟨hp, ht⟩ | ⟨k, p', hk, hp, ht⟩)
    · exact ⟨key, p, if_pos rfl, hp, ht⟩
    · split at hk
      · cases hk
      · rename_i hkey
        exact ⟨k, p', by rw [if_neg hkey, hk], hp, ht⟩

variable (hfam : Follows (.gauge f.terminationCurrentSeconds) (terminatingTuples m f store) fam)

include hfam

/-- Forgetting a resource leaves the tuples of the others. -/
theorem mem_live_forgotten (key : ResourceKey) (t : LabelTuple) :
    (t ∈ fam.index.live ∧ Family.covered fam.index ([m.resourceSet key []].map
      (Collector.gauge f.terminationCurrentSeconds).declared) t = false) ↔
      t ∈ terminatingTuples m f (store.erase key) := by
  have hagrees : fam.index.agrees = (Collector.gauge f.terminationCurrentSeconds).index.agrees :=
    Metrics.SeriesIndex.agrees_congr hfam.names
  rw [mem_terminatingTuples_erase h hf, hfam.live, ← Bool.not_eq_true]
  simp only [Family.covered, List.map_cons, List.map_nil, List.any_cons, List.any_nil,
    Bool.or_false, hagrees]
  exact Iff.rfl

/-- A resource that is gone. -/
theorem Follows.gone (key : ResourceKey) :
    Follows (.gauge f.terminationCurrentSeconds) (terminatingTuples m f (store.erase key))
      (fam.after ((goneRound m key).declared (.gauge f.terminationCurrentSeconds))) where
  wellFormed := hfam.wellFormed.after _
  names := (Metrics.Family.labelNames_after hfam.wellFormed _).trans hfam.names
  live t := by
    rw [Metrics.Family.live_after hfam.wellFormed, ← mem_live_forgotten h hf hfam]
    simp [Metrics.Family.inflight, Metrics.Family.written, Metrics.Family.covered, goneRound,
      Metrics.Round.declared]
  mirrors := (Metrics.Family.deleteAll_of_mirrors _ hfam.wellFormed hfam.mirrors).1

variable (now : Instant) {key : ResourceKey} {current : Snapshot}

omit h hf hfam in
/-- What is written of a resource that is there. -/
theorem written_terminatingRound (hnames : fam.index.labelNames =
      (Collector.gauge f.terminationCurrentSeconds).descriptor.labelNames)
    (previous : Option Snapshot) :
    (Metrics.Family.written fam.index (terminatingRound m now key previous current).writes).map
        (·.1) =
      if current.isTerminating then [m.terminatingTuple f key current.labels] else [] := by
  have htuple : fam.index.tuple = (Collector.gauge f.terminationCurrentSeconds).index.tuple :=
    Metrics.SeriesIndex.tuple_congr hnames
  unfold terminatingRound Snapshot.isTerminating Metrics.Family.written
  rw [htuple]
  cases current.terminatingSince <;> rfl

/-- A resource that is there: its tuple is written if it is terminating, and the others stay, as
long as no deletion time is taken back. -/
theorem live_terminatingRound
    (hkept : ∀ p, store.get? key = some p → p.isTerminating = true →
      current.isTerminating = true) (t : LabelTuple) :
    t ∈ fam.inflight ((terminatingRound m now key (store.get? key) current).declared
        (.gauge f.terminationCurrentSeconds)) ↔
      (current.isTerminating = true ∧ m.terminatingTuple f key current.labels = t) ∨
        t ∈ terminatingTuples m f (store.erase key) := by
  unfold Metrics.Family.inflight
  rw [Metrics.Round.writes_declared, written_terminatingRound now hfam.names, List.mem_append,
    List.mem_filter, Bool.not_eq_true']
  -- only a resource that is terminating is written to the gauge
  have hwritten : t ∈ (if current.isTerminating = true then
        [m.terminatingTuple f key current.labels] else []) ↔
      current.isTerminating = true ∧ m.terminatingTuple f key current.labels = t := by
    by_cases hcurrent : current.isTerminating = true
    · simp [hcurrent, eq_comm]
    · simp [hcurrent]
  rw [hwritten]
  unfold terminatingRound Metrics.Round.declared
  by_cases hlabels : relabelled m (store.get? key) current = true
  · -- a resource with new labels is forgotten first
    rw [if_pos hlabels]
    exact or_congr_right (mem_live_forgotten h hf hfam key t)
  · -- with the labels as they were, its tuple is the one that it had
    rw [if_neg hlabels]
    simp only [List.map_nil, Family.covered, List.any_nil, and_true]
    rw [hfam.live, mem_terminatingTuples_erase h hf]
    refine ⟨fun ht => ht.elim Or.inl fun ht => ?_, fun ht => ht.imp_right And.left⟩
    obtain ⟨k, p, hk, hp, rfl⟩ := mem_terminatingTuples.mp ht
    by_cases hkey : k = key
    · subst hkey
      refine Or.inl ⟨hkept p hk hp, ?_⟩
      unfold relabelled at hlabels
      rw [hk, Option.any_some, Bool.not_eq_true] at hlabels
      unfold Metrics.ConditionMetrics.terminatingTuple
      rw [Metrics.ConditionMetrics.labelSet_congr hlabels]
    · refine Or.inr ⟨ht, fun howns => hkey ?_⟩
      exact terminating_owner_unique h hf (owns_terminatingTuple h k p.labels) howns

/-- The index after a step that finds the resource. -/
theorem live_found
    (hkept : ∀ p, store.get? key = some p → p.isTerminating = true →
      current.isTerminating = true) (t : LabelTuple) :
    t ∈ fam.inflight ((terminatingRound m now key (store.get? key) current).declared
        (.gauge f.terminationCurrentSeconds)) ↔
      t ∈ terminatingTuples m f (store.insert key (remembered current (store.get? key))) := by
  have hsame : (remembered current (store.get? key)).isTerminating = current.isTerminating := by
    rw [isTerminating_remembered]
    cases hp : store.get? key with
    | none => rfl
    | some p =>
      cases hterminating : p.isTerminating with
      | false => simp [hterminating]
      | true => simp [hkept p hp hterminating]
  rw [live_terminatingRound h hf hfam now hkept, mem_terminatingTuples_insert, hsame]
  rfl

/-- A resource that is there, if the tuples are apart afterwards. -/
theorem Follows.found
    (hkept : ∀ p, store.get? key = some p → p.isTerminating = true →
      current.isTerminating = true)
    (hapart : Apart
      (terminatingTuples m f (store.insert key (remembered current (store.get? key))))) :
    Follows (.gauge f.terminationCurrentSeconds)
      (terminatingTuples m f (store.insert key (remembered current (store.get? key))))
      (fam.after ((terminatingRound m now key (store.get? key) current).declared
        (.gauge f.terminationCurrentSeconds))) where
  wellFormed := hfam.wellFormed.after _
  names := (Metrics.Family.labelNames_after hfam.wellFormed _).trans hfam.names
  live t := by
    rw [Metrics.Family.live_after hfam.wellFormed, live_found h hf hfam now hkept]
    simp [Metrics.Family.covered, terminatingRound, Metrics.Round.declared]
  mirrors := by
    refine hfam.mirrors.after hfam.wellFormed _ ?_ ?_
    · rw [Metrics.Round.writes_declared, written_terminatingRound now hfam.names]
      split <;> simp
    · exact hapart.mono fun t ht => (live_found h hf hfam now hkept t).mp ht

/-- A gauge that follows the snapshots shows the resources that are terminating. -/
theorem Follows.showsResource_iff (key : ResourceKey) :
    ShowsResource fam.labelled key ↔ ∃ p, store.get? key = some p ∧ p.isTerminating = true := by
  have hshown := h.showsResource_iff hf .terminating hfam.wellFormed hfam.names
    (fun t ht => exists_owner_terminating h ((hfam.live t).mp ht)) key
  rw [hshown]
  constructor
  · rintro ⟨t, ht, howns⟩
    obtain ⟨k, p, hk, hp, rfl⟩ := mem_terminatingTuples.mp
      ((hfam.live t).mp (hfam.wellFormed.indexed t ht))
    obtain rfl := terminating_owner_unique h hf howns (owns_terminatingTuple h k p.labels)
    exact ⟨p, hk, hp⟩
  · rintro ⟨p, hk, hp⟩
    refine ⟨_, (hfam.mirrors _).mp ((hfam.live _).mpr ?_), owns_terminatingTuple h key p.labels⟩
    exact mem_terminatingTuples.mpr ⟨key, p, hk, hp, rfl⟩

/-- If the resource is shown after a step that finds it terminating, the tuples are apart. -/
theorem apart_of_shown
    (hkept : ∀ p, store.get? key = some p → p.isTerminating = true →
      current.isTerminating = true)
    (hshown : current.isTerminating = true → ShowsResource
      (fam.after ((terminatingRound m now key (store.get? key) current).declared
        (.gauge f.terminationCurrentSeconds))).labelled key) :
    Apart (terminatingTuples m f (store.insert key (remembered current (store.get? key)))) := by
  have hinflight := live_found h hf hfam now hkept
  have hsplit := live_terminatingRound h hf hfam now hkept
  by_contra hnot
  by_cases hcurrent : current.isTerminating = true
  · -- the written tuple runs together with another one, so it is not shown, and it is the only
    -- tuple of the resource
    obtain ⟨t, ht, hnone⟩ := Metrics.Family.exists_missing_of_not_apart hfam.wellFormed
      ((terminatingRound m now key (store.get? key) current).declared
        (.gauge f.terminationCurrentSeconds)) hfam.mirrors
      (by rw [Metrics.Round.writes_declared, written_terminatingRound now hfam.names]
          split <;> simp)
      (fun hapart => hnot (hapart.mono fun t ht => (hinflight t).mpr ht))
    rw [Metrics.Round.writes_declared, written_terminatingRound now hfam.names, if_pos hcurrent,
      List.mem_singleton] at ht
    have hwf := hfam.wellFormed.after ((terminatingRound m now key (store.get? key)
      current).declared (.gauge f.terminationCurrentSeconds))
    have hlive : ∀ t, t ∈ (fam.after ((terminatingRound m now key (store.get? key)
        current).declared (.gauge f.terminationCurrentSeconds))).index.live →
        (current.isTerminating = true ∧ m.terminatingTuple f key current.labels = t) ∨
          t ∈ terminatingTuples m f (store.erase key) := fun t ht =>
      (hsplit t).mp ((Metrics.Family.live_after hfam.wellFormed _ t).mp ht).1
    obtain ⟨t', ht', howns⟩ := (h.showsResource_iff hf .terminating hwf
      ((Metrics.Family.labelNames_after hfam.wellFormed _).trans hfam.names)
      (fun t ht => (hlive t ht).elim (fun ht => ⟨key, ht.2 ▸ owns_terminatingTuple h key _⟩)
        (exists_owner_terminating h)) key).mp (hshown hcurrent)
    rcases hlive t' (hwf.indexed t' ht') with ⟨-, hwritten⟩ | hother
    · rw [← hwritten, ← ht, hnone] at ht'
      cases ht'
    · exact ((mem_terminatingTuples_erase h hf key t').mp hother).2 howns
  · -- nothing is written, and what stays was apart before
    refine hnot (hfam.apart.mono fun t ht => ?_)
    rcases (hsplit t).mp ((hinflight t).mpr ht) with ⟨hwritten, -⟩ | hother
    · exact absurd hwritten hcurrent
    · exact ((mem_terminatingTuples_erase h hf key t).mp hother).1

end Gauge

/-! ## Steps and runs -/

/-- What a run keeps while deletions are told: the gauges of terminations follow the snapshots. -/
def Following (w : Watch) : Prop :=
  ∀ f ∈ w.observer.metrics.surfaces, ∃ fam,
    w.registry.gauges[f.terminationCurrentSeconds.index]? = some fam ∧
      Follows (.gauge f.terminationCurrentSeconds)
        (terminatingTuples w.observer.metrics f w.observer.snapshots) fam

theorem following_fresh {o : Observer} {r : Registry} (h : Fresh o.metrics r)
    (hempty : o.snapshots = ∅) : (⟨o, r⟩ : Watch).Following := by
  intro f hf
  obtain ⟨fam, hfam, heq⟩ := Option.map_eq_some_iff.mp (h.blank f hf .terminating)
  cases heq
  refine ⟨_, hfam, Metrics.Family.wellFormed_new _, rfl, fun t => ?_, fun t => ?_⟩
  · rw [mem_terminatingTuples]
    constructor
    · exact fun ht => nomatch ht
    · rintro ⟨k, p, hk, -⟩
      rw [hempty] at hk
      cases hk
  · exact ⟨fun ht => (nomatch ht), fun ht => (nomatch ht)⟩

theorem Following.apart {w : Watch} (h : w.Following) : w.TerminationsApart := by
  intro f hf
  obtain ⟨fam, -, hfollows⟩ := h f hf
  exact hfollows.apart

section Steps

variable {w : Watch} {r : Registry} (hfresh : Fresh w.observer.metrics r) (h : w.Following)
  {s : Step}

include hfresh h

/-- A step that finds nothing. -/
theorem Following.not_found (hs : ∀ resource, s.fetched ≠ .ok (some resource)) :
    (w.reconcile s.now s.key s.fetched).1.Following := by
  intro f hf
  rw [snapshots_reconcile] at hf ⊢
  obtain ⟨fam, hfam, hfollows⟩ := h f hf
  refine ⟨_, gauge_reconcile hfresh.separate hf .terminating s hfam, ?_⟩
  unfold Step.roundOf Step.remember
  match hfetched : s.fetched with
  | .error _ => exact hfollows
  | .ok none => exact hfollows.gone hfresh hf s.key
  | .ok (some resource) => exact absurd hfetched (hs resource)

variable {resource : Resource} (hs : s.fetched = .ok (some resource))

include hs

omit hfresh h in
/-- A resource is not revived if it is terminating whenever it is remembered to be. -/
theorem kept_of_not_revives (hrevives : ¬ w.Revives s) (p : Snapshot)
    (hp : w.observer.snapshots.get? s.key = some p) (hterminating : p.isTerminating = true) :
    (observe s.now resource).isTerminating = true := by
  rw [isTerminating_observe]
  by_contra hnot
  exact hrevives ⟨resource, p, hs, Bool.not_eq_true _ ▸ hnot, hp, hterminating⟩

/-- A step that finds a resource and revives none keeps the gauges in step, as long as the tuples
are apart afterwards. -/
theorem Following.found (hrevives : ¬ w.Revives s)
    (hapart : (w.reconcile s.now s.key s.fetched).1.TerminationsApart) :
    (w.reconcile s.now s.key s.fetched).1.Following := by
  intro f hf
  have hapart := hapart f hf
  rw [snapshots_reconcile] at hf hapart ⊢
  obtain ⟨fam, hfam, hfollows⟩ := h f hf
  refine ⟨_, gauge_reconcile hfresh.separate hf .terminating s hfam, ?_⟩
  unfold Step.remember at hapart ⊢
  unfold Step.roundOf
  rw [hs] at hapart ⊢
  exact hfollows.found hfresh hf s.now (kept_of_not_revives hs hrevives) hapart

omit hfresh h in
/-- The snapshot of a resource that was found. -/
theorem snapshot_found :
    (w.reconcile s.now s.key s.fetched).1.observer.snapshots.get? s.key =
      some (remembered (observe s.now resource) (w.observer.snapshots.get? s.key)) := by
  rw [snapshots_reconcile]
  show (s.remember w.observer.snapshots).get? s.key = _
  rw [get?_remember, Step.recall, sees_of_fetched rfl hs]
  rfl

omit hfresh h in
/-- It tells what the resource says if the step revives none. -/
theorem isTerminating_found (hrevives : ¬ w.Revives s) :
    (remembered (observe s.now resource) (w.observer.snapshots.get? s.key)).isTerminating =
      resource.metadata.isTerminating := by
  rw [isTerminating_remembered, isTerminating_observe]
  cases hp : w.observer.snapshots.get? s.key with
  | none => rfl
  | some p =>
    cases hterminating : p.isTerminating with
    | false => simp [hterminating]
    | true =>
      have hkept := kept_of_not_revives hs hrevives p hp hterminating
      rw [isTerminating_observe] at hkept
      simp [hkept]

omit hfresh h in
theorem not_revives_of_tells
    (htells : (w.reconcile s.now s.key s.fetched).1.TellsDeletion s.key resource) :
    ¬ w.Revives s := by
  rintro ⟨resource', p, hs', hresource, hp, hterminating⟩
  obtain ⟨p', hp', htold⟩ := htells.snapshot
  cases hs.symm.trans hs'
  cases (snapshot_found hs).symm.trans hp'
  rw [isTerminating_remembered, hp, Option.any_some, hterminating, hresource] at htold
  cases htold

theorem terminationsApart_of_tells
    (htells : (w.reconcile s.now s.key s.fetched).1.TellsDeletion s.key resource) :
    (w.reconcile s.now s.key s.fetched).1.TerminationsApart := by
  intro f hf
  have hgauge := htells.gauges f hf
  have hrevives := not_revives_of_tells hs htells
  rw [snapshots_reconcile] at hf ⊢
  obtain ⟨fam, hfam, hfollows⟩ := h f hf
  have hnext : (w.reconcile s.now s.key s.fetched).1.registry.gauges[
      f.terminationCurrentSeconds.index]? = some (fam.after
        ((s.roundOf w.observer .terminating).declared (.gauge f.terminationCurrentSeconds))) :=
    gauge_reconcile hfresh.separate hf .terminating s hfam
  unfold Registry.gaugeSeries at hgauge
  rw [hnext] at hgauge
  unfold Step.remember
  unfold Step.roundOf at hgauge
  rw [hs] at hgauge ⊢
  refine apart_of_shown hfresh hf hfollows s.now (kept_of_not_revives hs hrevives)
    fun hcurrent => ?_
  rw [isTerminating_observe] at hcurrent
  exact hgauge.mpr hcurrent

/-- Such a step tells whether the resource is being deleted, and no other one does. -/
theorem tellsDeletion_iff :
    (w.reconcile s.now s.key s.fetched).1.TellsDeletion s.key resource ↔
      ¬ w.Revives s ∧ (w.reconcile s.now s.key s.fetched).1.TerminationsApart := by
  constructor
  · exact fun htells => ⟨not_revives_of_tells hs htells,
      terminationsApart_of_tells hfresh h hs htells⟩
  · rintro ⟨hrevives, hapart⟩
    have hfollowing := h.found hfresh hs hrevives hapart
    have hsnapshot := @snapshot_found w _ _ hs
    have hsame := isTerminating_found hs hrevives
    refine ⟨⟨_, hsnapshot, hsame⟩, fun f hf => ?_⟩
    obtain ⟨fam, hfam, hfollows⟩ := hfollowing f hf
    have hfresh' : Fresh (w.reconcile s.now s.key s.fetched).1.observer.metrics r := by
      rw [snapshots_reconcile]
      exact hfresh
    unfold Registry.gaugeSeries
    rw [hfam, hfollows.showsResource_iff hfresh' hf, hsnapshot]
    simp only [Option.some.injEq, exists_eq_left', hsame]

end Steps

/-- Over a run the gauges follow, if no step revives a resource or brings tuples together while
they do. -/
theorem following_run {w : Watch} {r : Registry} (hfresh : Fresh w.observer.metrics r)
    (hw : w.Following) {steps : List Step}
    (hsteps : ∀ before s resource, before ++ [s] <+: steps → (w.run before).1.Following →
      s.fetched = .ok (some resource) →
        ¬ (w.run before).1.Revives s ∧ (w.run (before ++ [s])).1.TerminationsApart)
    (before : List Step) : before <+: steps → (w.run before).1.Following := by
  induction before using List.reverseRecOn with
  | nil => exact fun _ => hw
  | append_singleton before s ih =>
    intro hbegins
    have hfollowing := ih ((List.prefix_append _ _).trans hbegins)
    have hfresh' : Fresh (w.run before).1.observer.metrics r := by
      rw [observer_run]
      exact hfresh
    by_cases hfound : ∃ resource, s.fetched = .ok (some resource)
    · obtain ⟨resource, hs⟩ := hfound
      obtain ⟨hrevives, hapart⟩ := hsteps before s resource hbegins hfollowing hs
      rw [run_concat] at hapart ⊢
      exact hfollowing.found hfresh' hs hrevives hapart
    · rw [run_concat]
      exact hfollowing.not_found hfresh' (not_exists.mp hfound)

/-- Deletions are told after every step that finds a resource exactly if no step revives one and
the tuples of terminating resources are always apart. -/
theorem deletion_exact_iff {scope : String} {g : GroupKind} {settings : ObserverSettings}
    {r : Registry} {o : Observer}
    (h : Observer.create (Registry.new scope) g settings = (r, .ok o)) (steps : List Step) :
    (∀ before s resource, before ++ [s] <+: steps → s.fetched = .ok (some resource) →
        ((⟨o, r⟩ : Watch).run (before ++ [s])).1.TellsDeletion s.key resource) ↔
      (∀ before s, before ++ [s] <+: steps → ¬ ((⟨o, r⟩ : Watch).run before).1.Revives s) ∧
        ∀ before, before <+: steps → ((⟨o, r⟩ : Watch).run before).1.TerminationsApart := by
  obtain ⟨hfresh, hempty, -⟩ := Observer.fresh_create h
  have hstart := following_fresh hfresh hempty
  have hiff : ∀ before s resource, ((⟨o, r⟩ : Watch).run before).1.Following →
      s.fetched = .ok (some resource) →
        (((⟨o, r⟩ : Watch).run (before ++ [s])).1.TellsDeletion s.key resource ↔
          ¬ ((⟨o, r⟩ : Watch).run before).1.Revives s ∧
            ((⟨o, r⟩ : Watch).run (before ++ [s])).1.TerminationsApart) := by
    intro before s resource hfollowing hs
    have hfresh' : Fresh ((⟨o, r⟩ : Watch).run before).1.observer.metrics r := by
      rw [observer_run]
      exact hfresh
    rw [run_concat]
    exact tellsDeletion_iff hfresh' hfollowing hs
  have hfront : ∀ {before s}, before ++ [s] <+: steps → before <+: steps :=
    fun hbegins => (List.prefix_append _ _).trans hbegins
  constructor
  · intro htells
    have hfollowing := following_run hfresh hstart fun before s resource hbegins hfollowing hs =>
      (hiff before s resource hfollowing hs).mp (htells before s resource hbegins hs)
    refine ⟨fun before s hbegins hrevives => ?_, fun before hbegins =>
      (hfollowing before hbegins).apart⟩
    obtain ⟨resource, p, hs, hrest⟩ := hrevives
    exact ((hiff before s resource (hfollowing before (hfront hbegins)) hs).mp
      (htells before s resource hbegins hs)).1 ⟨resource, p, hs, hrest⟩
  · rintro ⟨hrevives, hapart⟩
    have hfollowing := following_run hfresh hstart fun before s resource hbegins _ _ =>
      ⟨hrevives before s hbegins, hapart (before ++ [s]) hbegins⟩
    exact fun before s resource hbegins hs =>
      (hiff before s resource (hfollowing before (hfront hbegins)) hs).mpr
        ⟨hrevives before s hbegins, hapart (before ++ [s]) hbegins⟩

/-! ## A resource that is created anew -/

/-- A resource that takes the place of one that left. -/
def anew : Resource :=
  Resource.ofObject
    { metadata := { ObjectMeta.of .epoch "" "n" with uid := "2" }
      groupKind := ⟨"apps", "Deployment"⟩
      conditionTypes := .of "Ready" []
      conditions := [.of .epoch "Ready" .true] }

/-- A resource is seen leaving, then seen to be gone, and then it is created anew. -/
def replaced : List Step := departed "n" "team" ++ [fetch "n" (.ok (some anew))]

/-- The equivalence for a resource that is missed before it is created anew. -/
theorem deletion_exact_iff_replaced : ∃ r o,
    Observer.create (Registry.new "operator") ⟨"apps", "Deployment"⟩ projecting = (r, .ok o) ∧
      ((∀ before s resource, before ++ [s] <+: replaced → s.fetched = .ok (some resource) →
          ((⟨o, r⟩ : Watch).run (before ++ [s])).1.TellsDeletion s.key resource) ↔
        (∀ before s, before ++ [s] <+: replaced → ¬ ((⟨o, r⟩ : Watch).run before).1.Revives s) ∧
          ∀ before, before <+: replaced → ((⟨o, r⟩ : Watch).run before).1.TerminationsApart) := by
  obtain ⟨r, o, h⟩ := create_projecting
  exact ⟨r, o, h, deletion_exact_iff h replaced⟩

/-- A resource is seen leaving, and the next poll finds the one that took its place. -/
def recreated : List Step :=
  [fetch "n" (.ok (some (leaving "n" "team" []))), fetch "n" (.ok (some anew))]

theorem told_recreated :
    (((launched default).run recreated).1.observer.snapshots.get? ⟨"", "n"⟩).map
        Snapshot.isTerminating =
        some true ∧
      ShowsResource (((launched default).run recreated).1.registry.gaugeSeries
        (launched default).observer.metrics.families.terminationCurrentSeconds) ⟨"", "n"⟩ := by
  decide +kernel

/-- It is told to be terminating, although it has no deletion time. -/
theorem not_told_recreated : ∃ r o,
    Observer.create (Registry.new "operator") ⟨"apps", "Deployment"⟩ default = (r, .ok o) ∧
      anew.metadata.isTerminating = false ∧
      (((⟨o, r⟩ : Watch).run recreated).1.observer.snapshots.get? ⟨"", "n"⟩).map
        Snapshot.isTerminating = some true ∧
      ShowsResource (((⟨o, r⟩ : Watch).run recreated).1.registry.gaugeSeries
        o.metrics.families.terminationCurrentSeconds) ⟨"", "n"⟩ ∧
      ¬ ((⟨o, r⟩ : Watch).run recreated).1.TellsDeletion ⟨"", "n"⟩ anew := by
  obtain ⟨r, o, h⟩ := create_default
  have htold := told_recreated
  rw [launched_eq h] at htold
  refine ⟨r, o, h, rfl, htold.1, htold.2, fun htells => ?_⟩
  obtain ⟨p, hp, hsame⟩ := htells.snapshot
  rw [hp, Option.map_some, hsame] at htold
  cases htold.1

end Watch

end StatusWatch
