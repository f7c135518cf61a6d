import Mathlib.Data.List.Induction
import StatusWatch.Proofs.Creation
import StatusWatch.Proofs.PresenceRounds

/-!
# Presence gauges over runs

Whatever an observer is fed with, its presence gauges follow its snapshots: they never
show a state that is over, an old projected label or a resource that is not tracked. They
show every tracked condition as long as no two tuples of label values that are live at the
same time run together to the same text; a tuple that does gets no series of its own.

- `Watch.PresenceSound`: nothing is shown but tracked conditions, each once at most.
- `Watch.PresenceExact`: one series per tracked key and condition, with its value.
- `Watch.Separated`: the tuples that are live during a step are apart.
- `Watch.Tracking`: the invariant, which every step keeps.
- `presence_exact_iff`: sound always, and exact after every step exactly if every step is
  separated.
-/

namespace StatusWatch

open Metrics (AnyFamily Apart Collector ConditionFamilies ConditionMetrics Family Fresh GaugeRef
  LabelTuple Registry)
open Metrics.ConditionMetrics (Layout PresenceLabels tupleOf)
open Condition (Distinct)

namespace Metrics

/-- The series of a gauge family, each with its labels. -/
def Registry.gaugeSeries (r : Registry) (ref : GaugeRef) :
    List (List (String × String) × Float) :=
  match r.gauges[ref.index]? with
  | none => []
  | some f => f.labelled

/-- The surfaces of a handle with the labels that tell their presence series apart. -/
def ConditionMetrics.presenceSurfaces (m : ConditionMetrics) :
    List (ConditionFamilies × PresenceLabels) :=
  (m.families, m.kindLabels) :: (m.legacy.map fun f => (f, m.sharedLabels)).toList

theorem ConditionMetrics.mem_surfaces {m : ConditionMetrics}
    {surface : ConditionFamilies × PresenceLabels} (h : surface ∈ m.presenceSurfaces) :
    surface.1 ∈ m.surfaces := by
  unfold presenceSurfaces at h
  unfold surfaces
  rcases List.mem_cons.mp h with rfl | h
  · exact List.mem_cons_self
  · obtain ⟨f, hf, rfl⟩ := Option.map_eq_some_iff.mp (Option.mem_toList.mp h)
    exact ConditionMetrics.mem_surfaces_of_legacy hf

end Metrics

/-! ## Soundness and exactness -/

/-- What a gauge has to show: the labels and the value of every tracked condition. -/
def presence (pairs : PresenceLabels) (g : PresenceGauge) (store : SnapshotStore) :
    List (List (String × String) × Float) :=
  store.entries.flatMap fun e => e.2.conditions.map fun d =>
    (pairs e.1 e.2.labels d, g.value e.2 d)

namespace Watch

/-- Nothing is shown but tracked conditions, and each of them once at most. -/
def PresenceSound (w : Watch) : Prop :=
  ∀ surface ∈ w.observer.metrics.presenceSurfaces, ∀ g : PresenceGauge,
    let shown := (w.registry.gaugeSeries (g.ref surface.1)).map (·.1)
    shown.Nodup ∧ shown ⊆ (presence surface.2 g w.observer.snapshots).map (·.1)

/-- One series per tracked key and condition, with its value, and no other. -/
def PresenceExact (w : Watch) : Prop :=
  ∀ surface ∈ w.observer.metrics.presenceSurfaces, ∀ g : PresenceGauge,
    (w.registry.gaugeSeries (g.ref surface.1)).Perm
      (presence surface.2 g w.observer.snapshots)

/-- The tuples that are live once a step has written its conditions, before it removes
stale ones, are apart on every surface. -/
def Separated (w : Watch) (s : Step) : Prop :=
  ∀ resource, s.fetched = .ok (some resource) →
    ∀ surface ∈ w.observer.metrics.presenceSurfaces,
      Apart (inflightOf w.observer.metrics surface.2 w.observer.snapshots s.key
        (observe s.now resource))

end Watch

/-! ## Series and tuples -/

section Series

variable {m : ConditionMetrics} {c : Collector} {pairs : PresenceLabels} {g : PresenceGauge}
  {store : SnapshotStore} {f : Family Float}

/-- The tuples and values of what a gauge has to show. -/
def presenceTuples (pairs : PresenceLabels) (g : PresenceGauge) (store : SnapshotStore) :
    List (LabelTuple × Float) :=
  (presence pairs g store).map fun e => (tupleOf e.1, e.2)

theorem mem_presenceTuples (t : LabelTuple) (v : Float) :
    (t, v) ∈ presenceTuples pairs g store ↔ Shows pairs g store t v := by
  unfold presenceTuples presence
  simp only [List.mem_map, List.mem_flatMap, Prod.mk.injEq]
  constructor
  · rintro ⟨-, ⟨⟨k, s⟩, he, d, hd, rfl⟩, ht, hv⟩
    exact ⟨k, s, d, (store.mem_entries_iff k s).mp he, hd, ht, hv⟩
  · rintro ⟨k, s, d, hs, hd, ht, hv⟩
    exact ⟨_, ⟨(k, s), (store.mem_entries_iff k s).mpr hs, d, hd, rfl⟩, ht, hv⟩

/-- Every tracked condition has a tuple of its own. -/
theorem nodup_presenceTuples (hl : m.Layout c pairs)
    (hrecorded : ∀ k s, store.get? k = some s → Distinct s.conditions) :
    ((presenceTuples pairs g store).map (·.1)).Nodup := by
  unfold presenceTuples presence
  rw [List.map_map, List.map_flatMap]
  refine List.nodup_flatMap.mpr ⟨?_, ?_⟩
  · rintro ⟨k, s⟩ he
    rw [List.map_map]
    exact nodup_tuples hl k (hrecorded k s ((store.mem_entries_iff k s).mp he))
  · refine store.increasing.imp fun {a b} hlt => ?_
    intro t ha hb
    simp only [List.mem_map] at ha hb
    obtain ⟨-, ⟨d, -, rfl⟩, rfl⟩ := ha
    obtain ⟨-, ⟨d', -, rfl⟩, heq⟩ := hb
    have hkey : b.1 = a.1 := (hl.injective heq).1
    exact StrictOrder.irrefl a.1 (hkey ▸ hlt)

variable (hl : m.Layout c pairs) (h : Tracks pairs g c store f)

include hl h

theorem names_of_presence (e : List (String × String) × Float) (he : e ∈ presence pairs g store) :
    e.1.map (·.1) = f.index.labelNames := by
  unfold presence at he
  obtain ⟨⟨k, s⟩, -, he⟩ := List.mem_flatMap.mp he
  obtain ⟨d, -, rfl⟩ := List.mem_map.mp he
  rw [h.names]
  exact hl.names k s.labels d

/-- Being exact, in terms of lists. -/
theorem perm_iff_exact (hrecorded : ∀ k s, store.get? k = some s → Distinct s.conditions) :
    f.labelled.Perm (presence pairs g store) ↔ Exact pairs g store f := by
  have hnodup : ((presence pairs g store).map fun e => e.1.map (·.2)).Nodup := by
    have := nodup_presenceTuples (g := g) hl hrecorded
    unfold presenceTuples at this
    rwa [List.map_map] at this
  rw [Metrics.Family.perm_labelled_iff h.wellFormed (names_of_presence hl h) hnodup]
  exact forall_congr' fun t => forall_congr' fun v => iff_congr Iff.rfl (mem_presenceTuples t v)

/-- A gauge that is tracked shows tracked conditions only. -/
theorem sound_of_tracks :
    (f.labelled.map (·.1)).Nodup ∧
      f.labelled.map (·.1) ⊆ (presence pairs g store).map (·.1) := by
  refine ⟨Metrics.Family.nodup_labelled h.wellFormed, fun labels hmem => ?_⟩
  unfold Metrics.Family.labelled at hmem
  rw [List.map_map] at hmem
  obtain ⟨s, hs, rfl⟩ := List.mem_map.mp hmem
  have hshown : (f.value? s.1).isSome :=
    Metrics.find?_isSome_iff.mpr (List.mem_map_of_mem hs)
  obtain ⟨v, k, snap, d, hsnap, hd, ht, -⟩ :=
    (h.live s.1).mp (h.wellFormed.indexed s.1 hshown)
  have hnames := h.names.trans (hl.names k snap.labels d).symm
  refine List.mem_map.mpr ⟨(pairs k snap.labels d, g.value snap d), ?_, ?_⟩
  · exact List.mem_flatMap.mpr ⟨(k, snap), (store.mem_entries_iff k snap).mpr hsnap,
      List.mem_map_of_mem hd⟩
  · simp [← ht, tupleOf, hnames, List.zip_map', List.map_id']

end Series

/-! ## Steps and runs -/

namespace Watch

/-- What every step keeps: each presence gauge is there and tracks the snapshots. -/
structure Tracking (w : Watch) : Prop where
  separate : w.observer.metrics.Separate
  layout : ∀ surface ∈ w.observer.metrics.presenceSurfaces, ∀ g : PresenceGauge,
    w.observer.metrics.Layout (.gauge (g.ref surface.1)) surface.2
  recorded : ∀ k s, w.observer.snapshots.get? k = some s → Distinct s.conditions
  tracks : ∀ surface ∈ w.observer.metrics.presenceSurfaces, ∀ g : PresenceGauge,
    ∃ f, w.registry.gauges[(g.ref surface.1).index]? = some f ∧
      Tracks surface.2 g (.gauge (g.ref surface.1)) w.observer.snapshots f

/-- A fresh observer tracks: nothing is there, and nothing is called for. -/
theorem tracking_fresh {o : Observer} {r : Registry} (h : Fresh o.metrics r)
    (hempty : o.snapshots = ∅) : (⟨o, r⟩ : Watch).Tracking where
  separate := h.separate
  layout := by
    intro surface hsurface g
    rcases List.mem_cons.mp hsurface with rfl | hsurface
    · -- families of the kind have the projected labels last, shared ones have none of them
      refine Metrics.ConditionMetrics.layout_kind h.projection ?_
      cases g
      · exact h.kind .count
      · exact h.kind .age
    · obtain ⟨f, hf, rfl⟩ := Option.map_eq_some_iff.mp (Option.mem_toList.mp hsurface)
      refine Metrics.ConditionMetrics.layout_shared h.projection ?_
      cases g
      · exact h.shared f hf .count
      · exact h.shared f hf .age
  recorded k s hs := by
    rw [hempty] at hs
    cases hs
  tracks := by
    intro surface hsurface g
    have hblank := h.blank surface.1 (Metrics.ConditionMetrics.mem_surfaces hsurface) g.role
    rw [g.collector_role] at hblank
    obtain ⟨f, hf, heq⟩ := Option.map_eq_some_iff.mp hblank
    cases heq
    refine ⟨_, hf, Metrics.Family.wellFormed_new _, rfl, fun t => ?_⟩
    constructor
    · exact fun ht => nomatch ht
    · rintro ⟨v, k, s, d, hs, -⟩
      rw [hempty] at hs
      cases hs

/-- The snapshots after a step. -/
theorem snapshots_reconcile (w : Watch) (s : Step) :
    (w.reconcile s.now s.key s.fetched).1.observer =
      { w.observer with snapshots := s.remember w.observer.snapshots } := by
  rw [reconcile_eq]

theorem recorded_remember {store : SnapshotStore} {s : Step}
    (h : ∀ k p, store.get? k = some p → Condition.Distinct p.conditions) (hs : s.Distinct) :
    ∀ k p, (s.remember store).get? k = some p → Condition.Distinct p.conditions := by
  intro k p hp
  unfold Step.remember at hp
  match hf : s.fetched with
  | .error e =>
    rw [hf] at hp
    exact h k p hp
  | .ok none =>
    rw [hf] at hp
    simp only [OrderedMap.get?_erase] at hp
    split at hp
    · cases hp
    · exact h k p hp
  | .ok (some resource) =>
    rw [hf] at hp
    simp only [OrderedMap.get?_insert] at hp
    split at hp
    · cases hp
      exact distinct_observe (hs resource hf)
    · exact h k p hp

/-- Tracking of one gauge through a step. -/
theorem tracks_after {o : Observer} {c : Collector} {pairs : PresenceLabels}
    (hl : o.metrics.Layout c pairs) {g : PresenceGauge} {f : Family Float}
    (h : Tracks pairs g c o.snapshots f) {s : Step} (hs : s.Distinct) :
    Tracks pairs g c (s.remember o.snapshots) (f.after ((s.round o g).declared c)) := by
  unfold Step.remember Step.round
  match hf : s.fetched with
  | .error e => exact h
  | .ok none => exact h.gone hl s.key
  | .ok (some resource) => exact h.found hl s.key (distinct_observe (hs resource hf))

/-- Every step keeps the invariant. -/
theorem Tracking.reconcile {w : Watch} (h : w.Tracking) {s : Step} (hs : s.Distinct) :
    (w.reconcile s.now s.key s.fetched).1.Tracking := by
  have hobserver := snapshots_reconcile w s
  refine { separate := ?_, layout := ?_, recorded := ?_, tracks := ?_ }
  · rw [hobserver]
    exact h.separate
  · rw [hobserver]
    exact h.layout
  · rw [hobserver]
    exact recorded_remember h.recorded hs
  · rw [hobserver]
    intro surface hsurface g
    obtain ⟨f, hf, htracks⟩ := h.tracks surface hsurface g
    exact ⟨_, at?_reconcile h.separate (Metrics.ConditionMetrics.mem_surfaces hsurface) g s hf,
      tracks_after (h.layout surface hsurface g) htracks hs⟩

/-- So every run does. -/
theorem Tracking.run {steps : List Step} : ∀ {w : Watch}, w.Tracking → (∀ s ∈ steps, s.Distinct) →
    (w.run steps).1.Tracking := by
  induction steps with
  | nil => exact fun h _ => h
  | cons s steps ih =>
    intro w h hs
    rw [run_cons]
    exact ih (h.reconcile (hs s List.mem_cons_self)) fun s' hs' =>
      hs s' (List.mem_cons_of_mem _ hs')

theorem Tracking.sound {w : Watch} (h : w.Tracking) : w.PresenceSound := by
  intro surface hsurface g
  obtain ⟨f, hf, htracks⟩ := h.tracks surface hsurface g
  have hseries : w.registry.gaugeSeries (g.ref surface.1) =
      f.labelled := by
    unfold Registry.gaugeSeries
    rw [hf]
  rw [hseries]
  exact sound_of_tracks (h.layout surface hsurface g) htracks

/-- Being exact, in terms of the families. -/
theorem Tracking.exact_iff {w : Watch} (h : w.Tracking) : w.PresenceExact ↔
    ∀ surface ∈ w.observer.metrics.presenceSurfaces, ∀ g : PresenceGauge,
      ∀ f, w.registry.gauges[(g.ref surface.1).index]? = some f →
        Exact surface.2 g w.observer.snapshots f := by
  refine forall_congr' fun surface => forall_congr' fun hsurface => forall_congr' fun g => ?_
  obtain ⟨f, hf, htracks⟩ := h.tracks surface hsurface g
  have hseries : w.registry.gaugeSeries (g.ref surface.1) =
      f.labelled := by
    unfold Registry.gaugeSeries
    rw [hf]
  rw [hseries, perm_iff_exact (h.layout surface hsurface g) htracks h.recorded]
  constructor
  · intro he f' hf'
    rw [hf] at hf'
    cases hf'
    exact he
  · exact fun he => he f hf

/-- A step from an exact state leads to an exact one exactly if it is separated. -/
theorem exact_reconcile_iff {w : Watch} (h : w.Tracking) (he : w.PresenceExact) {s : Step}
    (hs : s.Distinct) :
    (w.reconcile s.now s.key s.fetched).1.PresenceExact ↔ w.Separated s := by
  rw [(h.reconcile hs).exact_iff, snapshots_reconcile]
  have he := h.exact_iff.mp he
  -- the family of a gauge after the step is its round
  have hnext : ∀ surface ∈ w.observer.metrics.presenceSurfaces, ∀ g : PresenceGauge,
      (∀ f, (w.reconcile s.now s.key s.fetched).1.registry.gauges[(g.ref surface.1).index]? =
          some f → Exact surface.2 g (s.remember w.observer.snapshots) f) ↔
        ∀ resource, s.fetched = .ok (some resource) →
          Apart (inflightOf w.observer.metrics surface.2 w.observer.snapshots s.key
            (observe s.now resource)) := by
    intro surface hsurface g
    obtain ⟨f, hf, htracks⟩ := h.tracks surface hsurface g
    have hexact := he surface hsurface g f hf
    have hl := h.layout surface hsurface g
    rw [at?_reconcile h.separate (Metrics.ConditionMetrics.mem_surfaces hsurface) g s hf]
    simp only [Option.some.injEq, forall_eq']
    unfold Step.remember Step.round
    match hfetched : s.fetched with
    | .error e =>
      refine ⟨fun _ _ hr => (nomatch hr), fun _ => ?_⟩
      exact hexact
    | .ok none =>
      refine ⟨fun _ _ hr => (nomatch hr), fun _ => ?_⟩
      exact hexact.gone hl s.key htracks
    | .ok (some resource) =>
      have hdistinct : Condition.Distinct (observe s.now resource).conditions :=
        distinct_observe (hs resource hfetched)
      -- what is found keeps the gauge exact only if the tuples in flight have texts of their own
      have hiff := exact_found_iff hl s.key htracks hexact hdistinct
      constructor
      · intro hafter resource' hr
        cases hr
        exact hiff.mp hafter
      · exact fun hapart => hiff.mpr (hapart resource rfl)
  constructor
  · intro hafter resource hr surface hsurface
    exact (hnext surface hsurface .count).mp (hafter surface hsurface .count) resource hr
  · intro hseparated surface hsurface g
    exact (hnext surface hsurface g).mpr fun resource hr =>
      hseparated resource hr surface hsurface

/-- The empty gauges of a fresh observer are exact. -/
theorem exact_fresh {o : Observer} {r : Registry} (h : Fresh o.metrics r)
    (hempty : o.snapshots = ∅) : (⟨o, r⟩ : Watch).PresenceExact := by
  intro surface hsurface g
  have hblank := h.blank surface.1 (Metrics.ConditionMetrics.mem_surfaces hsurface) g.role
  rw [g.collector_role] at hblank
  obtain ⟨f, hf, heq⟩ := Option.map_eq_some_iff.mp hblank
  cases heq
  unfold Registry.gaugeSeries presence
  rw [hf, hempty]
  exact List.Perm.refl []

/-- Presence gauges follow the snapshots. Nothing but tracked conditions is ever shown, and
all of them are shown after every step exactly if every step is separated. -/
theorem presence_exact_iff {scope : String} {g : GroupKind} {settings : ObserverSettings}
    {r : Registry} {o : Observer}
    (h : Observer.create (Registry.new scope) g settings = (r, .ok o))
    {steps : List Step} (hs : ∀ s ∈ steps, s.Distinct) :
    (∀ before, before <+: steps → ((⟨o, r⟩ : Watch).run before).1.PresenceSound) ∧
      ((∀ before, before <+: steps → ((⟨o, r⟩ : Watch).run before).1.PresenceExact) ↔
        ∀ before s, before ++ [s] <+: steps →
          ((⟨o, r⟩ : Watch).run before).1.Separated s) := by
  obtain ⟨hfresh, hempty, -⟩ := Observer.fresh_create h
  have htracking : ∀ before, before <+: steps → ((⟨o, r⟩ : Watch).run before).1.Tracking :=
    fun before hbefore => (tracking_fresh hfresh hempty).run fun s hs' =>
      hs s (hbefore.subset hs')
  refine ⟨fun before hbefore => (htracking before hbefore).sound, ?_, ?_⟩
  · intro hexact before s hbegins
    have hbefore : before <+: steps := (List.prefix_append before [s]).trans hbegins
    have hsd : s.Distinct := hs s (hbegins.subset (by simp))
    refine (exact_reconcile_iff (htracking before hbefore) (hexact before hbefore) hsd).mp ?_
    rw [← run_concat]
    exact hexact _ hbegins
  · intro hseparated before
    -- induction on the run, one step at its end
    induction before using List.reverseRecOn with
    | nil => exact fun _ => exact_fresh hfresh hempty
    | append_singleton before s ih =>
      intro hbegins
      have hbefore : before <+: steps := (List.prefix_append before [s]).trans hbegins
      have hsd : s.Distinct := hs s (hbegins.subset (by simp))
      rw [run_concat]
      exact (exact_reconcile_iff (htracking before hbefore) (ih hbefore) hsd).mpr
        (hseparated before s hbegins)

/-! ## Names that run together -/

/-- Two resources whose namespaces and names run together to one text. -/
def runTogether : List Step :=
  [⟨.epoch, ⟨"a", "bc"⟩, .ok (some (ready "a" "bc" .true))⟩,
    ⟨.epoch, ⟨"ab", "c"⟩, .ok (some (ready "ab" "c" .true))⟩]

theorem distinct_runTogether : ∀ s ∈ runTogether, s.Distinct := by
  intro s hs resource hr
  rcases List.mem_pair.mp hs with rfl | rfl
  · cases hr
    exact distinct_ready "a" "bc" .true
  · cases hr
    exact distinct_ready "ab" "c" .true

/-- The equivalence for a run of two steps with shared families and a projected label. -/
theorem presence_exact_iff_runTogether : ∃ r o,
    Observer.create (Registry.new "operator") ⟨"apps", "Deployment"⟩ projecting = (r, .ok o) ∧
      (∀ s ∈ runTogether, s.Distinct) ∧
      (∀ before, before <+: runTogether → ((⟨o, r⟩ : Watch).run before).1.PresenceSound) ∧
      ((∀ before, before <+: runTogether → ((⟨o, r⟩ : Watch).run before).1.PresenceExact) ↔
        ∀ before s, before ++ [s] <+: runTogether →
          ((⟨o, r⟩ : Watch).run before).1.Separated s) := by
  obtain ⟨r, o, h⟩ := create_projecting
  exact ⟨r, o, h, distinct_runTogether, presence_exact_iff h distinct_runTogether⟩

/-- An exact gauge shows as many series as there are tracked conditions. -/
theorem PresenceExact.length_eq {w : Watch} (h : w.PresenceExact) :
    (w.registry.gaugeSeries w.observer.metrics.families.count).length =
      (presence w.observer.metrics.kindLabels .count w.observer.snapshots).length :=
  (h (w.observer.metrics.families, w.observer.metrics.kindLabels) List.mem_cons_self
    .count).length_eq

theorem lengths_runTogether :
    (((launched default).run runTogether).1.registry.gaugeSeries
        ((launched default).run runTogether).1.observer.metrics.families.count).length = 1 ∧
      (presence ((launched default).run runTogether).1.observer.metrics.kindLabels .count
        ((launched default).run runTogether).1.observer.snapshots).length = 2 := by
  decide +kernel

/-- Two resources whose names run together share one series. -/
theorem not_exact_runTogether : ∃ r o,
    Observer.create (Registry.new "operator") ⟨"apps", "Deployment"⟩ default = (r, .ok o) ∧
      (∀ s ∈ runTogether, s.Distinct) ∧
      ¬ ((⟨o, r⟩ : Watch).run runTogether).1.PresenceExact := by
  obtain ⟨r, o, h⟩ := create_default
  refine ⟨r, o, h, distinct_runTogether, fun hexact => ?_⟩
  have hlength := hexact.length_eq
  rw [← launched_eq h, lengths_runTogether.1, lengths_runTogether.2] at hlength
  cases hlength

end Watch

end StatusWatch
