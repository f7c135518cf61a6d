import StatusWatch.Metrics.Exposition
import StatusWatch.Proofs.Fleets
import StatusWatch.Proofs.SharedFamilies

/-!
# Shutting down

An observer that shuts down unregisters the families of its kind, and the shared ones if it was the
last to have them. As long as another observer has them, they stay, with all that they show of the
kind that is no longer observed.

- `gauge_of_gather`, `exists_gather`: the gauges that a registry shows.
- `get?_unregister`: no family of a handle that is given back is registered.
- `Housed.gauge`, `Housed.owner_of_shared`: what a gauge holds, and who left it there.
- `Observer.Remains`: something of the kind of an observer is shown.
- `left_of_shown`, `remains_of_shared`: what is shown was left in shared families, and the reverse.
- `Observer.Departs`, `shutdown_departs`: what is left behind, and when.
-/

namespace StatusWatch

open Metrics (ConditionFamilies ConditionMetrics Enrolled Housed Log Registry aboutKind
  aboutKind_ne_nil_iff nameLabel namesKind namesKind_iff namespaceLabel)

namespace Metrics

/-! ## What a registry shows -/

/-- Series are shown with the labels that they have. -/
theorem mem_shownSeries {fam : Family Float} {s : ShownSeries} (h : s ∈ fam.shownSeries .number) :
    ∃ e ∈ fam.vec.series, ∀ x, x ∈ s.labels ↔ x ∈ fam.descriptor.labelNames.zip e.1 := by
  unfold Family.shownSeries at h
  rw [List.mem_mergeSort] at h
  obtain ⟨e, he, rfl⟩ := List.mem_map.mp h
  exact ⟨e, he, fun x => List.mem_mergeSort⟩

theorem exists_shownSeries {fam : Family Float} {e : LabelTuple × Float}
    (he : e ∈ fam.vec.series) : ∃ s ∈ fam.shownSeries .number,
      ∀ x, x ∈ s.labels ↔ x ∈ fam.descriptor.labelNames.zip e.1 := by
  refine ⟨⟨byName (fam.descriptor.labelNames.zip e.1), .number e.2⟩, ?_,
    fun x => List.mem_mergeSort⟩
  unfold Family.shownSeries
  rw [List.mem_mergeSort]
  exact List.mem_map_of_mem (f := fun s : LabelTuple × Float =>
    (⟨byName (fam.descriptor.labelNames.zip s.1), .number s.2⟩ : ShownSeries)) he

namespace Registry

theorem shownName_injective {r : Registry} {name name' : String}
    (h : r.shownName name = r.shownName name') : name = name' := by
  unfold shownName at h
  split at h
  · exact h
  · exact (String.append_right_inj _).mp h

/-- A family is shown under the name that it is registered under. -/
theorem name_of_show? {r : Registry} {c : Collector} {shown : Shown}
    (h : r.show? c = some shown) : shown.name = r.shownName c.descriptor.name := by
  unfold show? at h
  cases c <;> obtain ⟨fam, -, rfl⟩ := Option.map_eq_some_iff.mp h <;> rfl

theorem exists_of_gather {r : Registry} {shown : Shown} (h : shown ∈ r.gather) :
    ∃ c ∈ r.registered.values, r.show? c = some shown :=
  List.mem_filterMap.mp (List.mem_of_mem_filter h)

/-- A gauge that is shown is a registered one. -/
theorem gauge_of_gather {r : Registry} {shown : Shown} (h : shown ∈ r.gather)
    (htype : shown.type = .gauge) : ∃ ref fam, .gauge ref ∈ r.registered.values ∧
      r.at? (.gauge ref) = some (.gauge fam) ∧ shown.series = fam.shownSeries .number := by
  obtain ⟨c, hc, hshown⟩ := exists_of_gather h
  unfold show? at hshown
  cases c with
  | gauge ref =>
    obtain ⟨fam, hfam, rfl⟩ := Option.map_eq_some_iff.mp hshown
    exact ⟨ref, fam, hc, congrArg (Option.map AnyFamily.gauge) hfam, rfl⟩
  | counter ref =>
    obtain ⟨fam, -, rfl⟩ := Option.map_eq_some_iff.mp hshown
    cases htype
  | histogram ref =>
    obtain ⟨fam, -, rfl⟩ := Option.map_eq_some_iff.mp hshown
    cases htype

/-- A registered gauge with a series is shown. -/
theorem exists_gather {r : Registry} {ref : GaugeRef} {fam : Family Float}
    (hc : .gauge ref ∈ r.registered.values) (hat : r.at? (.gauge ref) = some (.gauge fam))
    {s : ShownSeries} (hs : s ∈ fam.shownSeries .number) :
    ∃ shown ∈ r.gather, shown.type = .gauge ∧ s ∈ shown.series := by
  obtain ⟨fam', hfam, heq⟩ := Option.map_eq_some_iff.mp hat
  cases heq
  refine ⟨⟨r.shownName ref.descriptor.name, ref.descriptor.help, .gauge, fam.shownSeries .number⟩,
    List.mem_filter.mpr ⟨List.mem_filterMap.mpr ⟨_, hc, ?_⟩, ?_⟩, rfl, hs⟩
  · unfold show?
    simp only [hfam, Option.map_some]
    rfl
  · simpa using List.ne_nil_of_mem hs

/-- No family of the kind of a handle that is given back is registered. -/
theorem get?_unregister {m : ConditionMetrics} {r : Registry} {name : String}
    (hname : name ∈ m.families.collectors.map (·.descriptor.name)) :
    (m.unregister r).registered.get? name = none := by
  refine get?_unregister_of_free ?_
  unfold unregisterFamilies
  rw [get?_unregisterAll, if_pos hname]

end Registry

theorem ConditionFamilies.mem_collectors {f : ConditionFamilies} {c : Collector} :
    c ∈ f.collectors ↔ ∃ role, f.collector role = c := by
  constructor
  · intro hc
    simp only [ConditionFamilies.collectors, List.mem_cons, List.not_mem_nil, or_false] at hc
    rcases hc with rfl | rfl | rfl | rfl | rfl | rfl
    · exact ⟨.count, rfl⟩
    · exact ⟨.age, rfl⟩
    · exact ⟨.transitions, rfl⟩
    · exact ⟨.stays, rfl⟩
    · exact ⟨.terminating, rfl⟩
    · exact ⟨.terminations, rfl⟩
  · rintro ⟨role, rfl⟩
    cases role <;> simp [ConditionFamilies.collectors, ConditionFamilies.collector]

/-! ## What gauges hold -/

/-- Operations keep the descriptor of a gauge. -/
theorem descriptor_foldl_onGauge (c : Collector) (ops : List SeriesOp) : ∀ fam : Family Float,
    (ops.foldl (fun fam op => op.onGauge c fam) fam).descriptor = fam.descriptor := by
  have hdrop : ∀ (tuples : List LabelTuple) (fam : Family Float),
      (tuples.foldl Family.drop fam).descriptor = fam.descriptor := by
    intro tuples
    induction tuples with
    | nil => exact fun _ => rfl
    | cons t tuples ih => exact fun fam => ih (fam.drop t)
  induction ops with
  | nil => exact fun _ => rfl
  | cons op ops ih =>
    intro fam
    refine (ih (op.onGauge c fam)).trans ?_
    cases op with
    | write labels value => rfl
    | delete labels => exact hdrop _ fam

namespace Housed

variable {r : Registry} {ms : List ConditionMetrics} {log : Log} (h : Housed r ms log)

include h

/-- A gauge holds what its operations leave. -/
theorem gauge {m : ConditionMetrics} (hm : m ∈ ms) {f : ConditionFamilies} (hf : f ∈ m.surfaces)
    (g : ResourceGauge) : ∃ fam, r.at? (.gauge (g.ref f)) = some (.gauge fam) ∧
      fam.descriptor = (g.ref f).descriptor ∧
      Replayed (.gauge (g.ref f)) (log.seen f g.role) fam := by
  have hat := h.holds m hm f hf g.role
  rw [g.collector_role] at hat
  exact ⟨_, hat.trans (congrArg some (foldl_onGauge _ _ _)), descriptor_foldl_onGauge _ _ _,
    replayed_foldl _ _⟩

/-- The labels of a shared gauge are those that it was made with. -/
theorem names_gauge {m : ConditionMetrics} (hm : m ∈ ms) {f : ConditionFamilies}
    (hf : m.legacy = some f) {g : ResourceGauge} {fam : Family Float}
    (hat : r.at? (.gauge (g.ref f)) = some (.gauge fam)) :
    fam.descriptor.labelNames = fam.index.labelNames := by
  obtain ⟨fam', hat', hdescriptor, hreplayed⟩ :=
    h.gauge hm (ConditionMetrics.mem_surfaces_of_legacy hf) g
  rw [hat] at hat'
  cases hat'
  rw [hdescriptor, hreplayed.names]
  rfl

/-- What is left in a shared family under a tuple of a kind was left there through the handle of the
kind. -/
theorem owner_of_shared (hscope : log.Scoped)
    (hkinds : ∀ a ∈ ms, ∀ b ∈ ms, a.groupKind = b.groupKind → a = b) {m m' : ConditionMetrics}
    (hm : m ∈ ms) (hm' : m' ∈ ms) {f : ConditionFamilies} (hf : m'.legacy = some f) {role : Role}
    {u : LabelTuple} (hu : IsOf m.groupKind (f.collector role) u)
    (hleft : (replay (f.collector role) (log.seen f role) u).isSome) :
    m.legacy = some f ∧ (replay (f.collector role) (log.through m role) u).isSome := by
  have hc := (h.laid m' hm').shared f hf role
  have hfull := full_of_replay hleft
  have hshares : m.legacy = some f := by
    -- the write of what is left has the kind in its labels, which is that of one handle only
    obtain ⟨op, hop, hwritten⟩ := List.mem_filterMap.mp (mem_written_of_replay hleft)
    obtain ⟨e, he, hop⟩ := List.mem_flatMap.mp hop
    obtain ⟨he, hmem⟩ := List.mem_filter.mp he
    have hof : IsOf e.1.groupKind (f.collector role) u := by
      refine isOf_of_touches hc (Log.scoped_on (hscope e he) hop) ?_
      cases op with
      | write labels value => exact decide_eq_true (Option.some.inj hwritten)
      | delete labels => cases hwritten
    obtain rfl := hkinds e.1 (h.logged e he) m hm (hof.unique hu)
    rcases List.mem_cons.mp (of_decide_eq_true hmem) with rfl | hmem
    · have hsame := h.own e.1 hm m' hm' (ConditionMetrics.mem_surfaces_of_legacy hf)
      exact absurd (hsame ▸ hf) (h.unshared e.1 hm)
    · exact Option.mem_toList.mp hmem
  refine ⟨hshares, ?_⟩
  rw [replay_eq, Log.filter_touches hscope hshares
    (fun e he => hkinds e.1 (h.logged e he) m hm) hc hfull hu] at hleft
  rw [replay_eq, List.filter_congr fun op hop => shared_touches hc (hscope.through hop) hfull hu]
  exact hleft

end Housed

end Metrics

/-! ## Shutting down -/

namespace Observer

/-- A gauge is shown that is about resources of the kind of an observer: it has the name of a gauge
of the kind, or a series with group and kind. -/
def Remains (o : Observer) (r : Registry) : Prop :=
  ∃ shown ∈ r.gather, shown.type = .gauge ∧
    ((∃ g : ResourceGauge, shown.name = r.shownName (g.ref o.metrics.families).descriptor.name) ∨
      ∃ s ∈ shown.series, namesKind o.groupKind s.labels)

/-- What is left behind when an observer shuts down. -/
structure Departs (o : Observer) (others : List Observer) (r : Registry) : Prop where
  /-- Something is left exactly if the shared families show the kind and another observer has
  them. -/
  remains_iff : o.Remains (o.shutdown r) ↔ ∃ f, o.metrics.legacy = some f ∧
    (∃ other ∈ others, other.metrics.legacy = some f) ∧
      ∃ g : ResourceGauge, aboutKind o.groupKind (r.gaugeSeries (g.ref f)) ≠ []
  /-- No family of the kind is shown. -/
  families : ∀ shown ∈ (o.shutdown r).gather, ∀ role, shown.name ≠
    (o.shutdown r).shownName (o.metrics.families.collector role).descriptor.name
  /-- A series that is left is about a resource that is still tracked. -/
  tracked : ∀ shown ∈ (o.shutdown r).gather, shown.type = .gauge →
    ∀ s ∈ shown.series, namesKind o.groupKind s.labels → ∃ key, (o.snapshots.get? key).isSome ∧
      (namespaceLabel, key.ns) ∈ s.labels ∧ (nameLabel, key.name) ∈ s.labels

end Observer

namespace Fleet

section Departs

variable {w : Fleet} {ms : List ConditionMetrics} {log : Log} (h : w.Kept ms log)
  (hkinds : (ms.map (·.groupKind)).Nodup) {i : Nat} {o : Observer}
  (hi : w.observers[i]? = some o)

include h hi

theorem families_shutdown {shown : Metrics.Shown}
    (hshown : shown ∈ (o.shutdown w.registry).gather) (role : Metrics.Role) :
    shown.name ≠ (o.shutdown w.registry).shownName
      (o.metrics.families.collector role).descriptor.name := by
  intro hname
  obtain ⟨c, hc, hshow⟩ := Registry.exists_of_gather hshown
  rw [Registry.name_of_show? hshow] at hname
  have hget := (kept_shutdown h hi).enrolled.named.mem_iff.mp hc
  rw [Registry.shownName_injective hname] at hget
  have hnone := Registry.get?_unregister (m := o.metrics) (r := w.registry) (List.mem_map_of_mem
    (f := (·.descriptor.name)) (ConditionFamilies.mem_collectors.mpr ⟨role, rfl⟩))
  rw [show (o.shutdown w.registry).registered = (o.metrics.unregister w.registry).registered
    from rfl, hnone] at hget
  cases hget

/-- The gauges that are registered after a shutdown: those of the other kinds, and the shared ones
if another observer has them. -/
theorem gauge_cases {ref : Metrics.GaugeRef}
    (hc : .gauge ref ∈ (o.shutdown w.registry).registered.values) :
    (∃ m ∈ ms, ∃ g : ResourceGauge, ref = g.ref m.families) ∨
      ∃ f, (∃ other ∈ w.observers.eraseIdx i, other.metrics.legacy = some f) ∧
        ∃ g : ResourceGauge, ref = g.ref f := by
  have hgauge : ∀ f : ConditionFamilies, .gauge ref ∈ f.collectors →
      ∃ g : ResourceGauge, ref = g.ref f := by
    intro f hmem
    obtain ⟨role, hrole⟩ := ConditionFamilies.mem_collectors.mp hmem
    rcases ResourceGauge.exists_of_role f role with ⟨g, rfl⟩ | hnone
    · rw [g.collector_role] at hrole
      exact ⟨g, (Metrics.Collector.gauge.inj hrole).symm⟩
    · exact absurd hrole (hnone ref)
  have hkept := kept_shutdown h hi
  have hmem := hkept.enrolled.registered.mem_iff.mp hc
  rw [List.nil_append] at hmem
  rcases List.mem_append.mp hmem with hmem | hmem
  · obtain ⟨m, hm, hmem⟩ := List.mem_flatMap.mp hmem
    exact Or.inl ⟨m, hkept.made.subset hm, hgauge _ hmem⟩
  · refine Or.inr ?_
    cases hshared : Metrics.sharedOf ((w.observers.eraseIdx i).map (·.metrics)) with
    | none =>
      rw [hshared] at hmem
      cases hmem
    | some f =>
      rw [hshared] at hmem
      obtain ⟨m, hm, hf⟩ := List.exists_of_findSome?_eq_some hshared
      obtain ⟨other, hother, rfl⟩ := List.mem_map.mp hm
      exact ⟨f, ⟨other, hother, hf⟩, hgauge f hmem⟩

/-- What a shared gauge shows of the kind of an observer was left by the observer, about a resource
that it still tracks. -/
theorem owner_of_shown (hinj : ∀ a ∈ ms, ∀ b ∈ ms, a.groupKind = b.groupKind → a = b)
    {m : ConditionMetrics} (hm : m ∈ ms) {f : ConditionFamilies} (hf : m.legacy = some f)
    {g : ResourceGauge} {fam : Metrics.Family Float}
    (hat : w.registry.at? (.gauge (g.ref f)) = some (.gauge fam))
    {e : Metrics.LabelTuple × Float} (he : e ∈ fam.vec.series)
    (hnames : namesKind o.groupKind (fam.descriptor.labelNames.zip e.1)) :
    o.metrics.legacy = some f ∧ ∃ key, (o.snapshots.get? key).isSome ∧
      (namespaceLabel, key.ns) ∈ fam.descriptor.labelNames.zip e.1 ∧
        (nameLabel, key.name) ∈ fam.descriptor.labelNames.zip e.1 := by
  have homem : o ∈ w.observers := List.mem_of_getElem? hi
  have hown : o.metrics ∈ ms := h.made.subset (List.mem_map_of_mem homem)
  have hmem : f ∈ m.surfaces := ConditionMetrics.mem_surfaces_of_legacy hf
  obtain ⟨fam', hat', hdescriptor, hreplayed⟩ := h.housed.gauge hm hmem g
  rw [hat] at hat'
  cases hat'
  rw [hdescriptor] at hnames ⊢
  have hnodup := (h.housed.laid _ hm).nodup_names hmem g.role
  have hfull := Metrics.Family.length_of_shown hreplayed.wellFormed he
  have hleft : (Metrics.replay (.gauge (g.ref f)) (log.seen f g.role) e.1).isSome :=
    (hreplayed.live e.1).mp (hreplayed.wellFormed.indexed e.1
      (Metrics.find?_isSome_iff.mpr (List.mem_map_of_mem he)))
  rw [hreplayed.names] at hfull
  rw [g.collector_role] at hnodup
  -- the tuple has the kind of the observer, so it is the observer that left it
  have hof : Metrics.IsOf o.metrics.groupKind (.gauge (g.ref f)) e.1 := by
    have hvalue := Metrics.SeriesIndex.mem_zip_iff
      (i := (Metrics.Collector.gauge (g.ref f)).index) hnodup hfull
    obtain ⟨hgroup, hkind⟩ := namesKind_iff.mp hnames
    rw [h.kinds o homem]
    exact ⟨(hvalue _ _).mp hgroup, (hvalue _ _).mp hkind⟩
  rw [← g.collector_role] at hof hleft
  obtain ⟨hshares, hleft⟩ := h.housed.owner_of_shared h.scope hinj hown hm hf hof hleft
  have hsurface : f ∈ o.metrics.surfaces := ConditionMetrics.mem_surfaces_of_legacy hshares
  obtain ⟨key, howns, htracked⟩ := h.accounts o homem f hsurface g e.1 hleft
  have hlaid := h.housed.laid _ hown
  rw [g.collector_role] at howns
  exact ⟨hshares, key, htracked,
    (howns.mem_zip_iff hlaid.projection (hlaid.identity hsurface g) hnodup hfull key).mpr rfl⟩

include hkinds in
/-- A series that is left is one of the shared families, which the observer had, about a resource
that it still tracks. -/
theorem left_of_shown {shown : Metrics.Shown} (hshown : shown ∈ (o.shutdown w.registry).gather)
    (htype : shown.type = .gauge) {s : Metrics.ShownSeries} (hs : s ∈ shown.series)
    (habout : namesKind o.groupKind s.labels) :
    (∃ f, o.metrics.legacy = some f ∧
      (∃ other ∈ w.observers.eraseIdx i, other.metrics.legacy = some f) ∧
        ∃ g : ResourceGauge, aboutKind o.groupKind (w.registry.gaugeSeries (g.ref f)) ≠ []) ∧
    ∃ key, (o.snapshots.get? key).isSome ∧
      (namespaceLabel, key.ns) ∈ s.labels ∧ (nameLabel, key.name) ∈ s.labels := by
  have hinj : ∀ a ∈ ms, ∀ b ∈ ms, a.groupKind = b.groupKind → a = b :=
    fun a ha b hb heq => List.inj_on_of_nodup_map hkinds ha hb heq
  obtain ⟨ref, fam, hc, hat, hseries⟩ := Registry.gauge_of_gather hshown htype
  rw [show (o.shutdown w.registry).at? _ = _ from Enrolled.at?_unregister o.metrics w.registry _]
    at hat
  rw [hseries] at hs
  obtain ⟨e, he, hlabels⟩ := Metrics.mem_shownSeries hs
  have hnames : namesKind o.groupKind (fam.descriptor.labelNames.zip e.1) :=
    namesKind_iff.mpr ((namesKind_iff.mp habout).imp (hlabels _).mp (hlabels _).mp)
  rcases gauge_cases h hi hc with ⟨m, hm, g, rfl⟩ | ⟨f, ⟨other, hother, hf⟩, g, rfl⟩
  · -- families of a kind have no group among their labels
    obtain ⟨fam', hat', hdescriptor, -⟩ := h.housed.gauge hm List.mem_cons_self g
    rw [hat] at hat'
    cases hat'
    have hmem := (List.of_mem_zip (namesKind_iff.mp hnames).1).1
    have hgroup := (h.housed.laid m hm).scope_not_mem g.role List.mem_cons_self
    rw [g.collector_role] at hgroup
    rw [hdescriptor] at hmem
    exact absurd hmem hgroup
  · have hm : other.metrics ∈ ms := h.made.subset
      (List.mem_map_of_mem ((List.eraseIdx_sublist _ _).subset hother))
    obtain ⟨hshares, key, htracked, hns, hname⟩ :=
      owner_of_shown h hi hinj hm hf hat he hnames
    refine ⟨⟨f, hshares, ⟨other, hother, hf⟩, g, ?_⟩, key, htracked, (hlabels _).mpr hns,
      (hlabels _).mpr hname⟩
    rw [Metrics.gaugeSeries_of_at? hat, aboutKind_ne_nil_iff]
    exact ⟨e, he, h.housed.names_gauge hm hf hat ▸ hnames⟩

/-- The other direction: what the shared families show of a kind stays with them. -/
theorem remains_of_shared {f : ConditionFamilies}
    (hothers : ∃ other ∈ w.observers.eraseIdx i, other.metrics.legacy = some f)
    {g : ResourceGauge} (hshows : aboutKind o.groupKind (w.registry.gaugeSeries (g.ref f)) ≠ []) :
    o.Remains (o.shutdown w.registry) := by
  obtain ⟨other, hother, hf⟩ := hothers
  have hkept := kept_shutdown h hi
  have hm : other.metrics ∈ ms := hkept.made.subset (List.mem_map_of_mem hother)
  obtain ⟨fam, hat, -⟩ := h.housed.gauge hm (ConditionMetrics.mem_surfaces_of_legacy hf) g
  rw [Metrics.gaugeSeries_of_at? hat, aboutKind_ne_nil_iff] at hshows
  obtain ⟨e, he, hnames⟩ := hshows
  rw [← h.housed.names_gauge hm hf hat] at hnames
  obtain ⟨s, hs, hlabels⟩ := Metrics.exists_shownSeries he
  have hregistered : .gauge (g.ref f) ∈ (o.shutdown w.registry).registered.values := by
    rw [hkept.enrolled.registered.mem_iff, List.nil_append]
    refine List.mem_append_right _ ?_
    rw [hkept.enrolled.same other.metrics (List.mem_map_of_mem hother) f hf]
    exact ConditionFamilies.mem_collectors.mpr ⟨g.role, g.collector_role f⟩
  obtain ⟨shown, hshown, htype, hseries⟩ := Registry.exists_gather hregistered
    ((Enrolled.at?_unregister o.metrics w.registry _).trans hat) hs
  exact ⟨shown, hshown, htype, Or.inr ⟨s, hseries, namesKind_iff.mpr
    ((namesKind_iff.mp hnames).imp (hlabels _).mpr (hlabels _).mpr)⟩⟩

include hkinds in
/-- What is left when an observer of a fleet shuts down. -/
theorem departs_of_kept : o.Departs (w.observers.eraseIdx i) w.registry where
  remains_iff := by
    constructor
    · rintro ⟨shown, hshown, htype, ⟨g, hname⟩ | ⟨s, hs, habout⟩⟩
      · refine absurd hname ?_
        have hnot := families_shutdown h hi hshown g.role
        rwa [g.collector_role] at hnot
      · exact (left_of_shown h hkinds hi hshown htype hs habout).1
    · rintro ⟨f, -, hothers, g, hshows⟩
      exact remains_of_shared h hi hothers hshows
  families shown hshown role := families_shutdown h hi hshown role
  tracked shown hshown htype s hs habout :=
    (left_of_shown h hkinds hi hshown htype hs habout).2

end Departs

/-- Whatever observers of different kinds do in a registry: shutting one down leaves something of
its kind exactly if another one has the shared families that show it, and only of resources that it
still tracked. -/
theorem shutdown_departs (scope : String) (events : List Event)
    (hkinds : (((start scope).made events).map (·.groupKind)).Nodup) {i : Nat} {o : Observer}
    (hi : ((start scope).run events).observers[i]? = some o) :
    o.Departs (((start scope).run events).observers.eraseIdx i)
      ((start scope).run events).registry := by
  obtain ⟨log, h⟩ := kept_start scope events hkinds
  exact departs_of_kept h hkinds hi

/-- Two observers share families; the first one finds a resource of its kind. -/
def twoSharing : List Event :=
  let sharing : ObserverSettings := ObserverSettings.withLegacyMetrics default true
  [.create ⟨"apps", "Deployment"⟩ sharing, .create ⟨"batch", "Job"⟩ sharing,
    .reconcile 0 ⟨.epoch, ⟨"", "n"⟩, .ok (some (Watch.ready "" "n" .true))⟩]

theorem kinds_twoSharing :
    (((start "operator").made twoSharing).map (·.groupKind)).Nodup := by
  decide +kernel

/-- The second one still has the families that show the resource when the first one is gone. -/
theorem shared_twoSharing : ∃ o ∈ ((start "operator").run twoSharing).observers[0]?,
    ∃ f ∈ o.metrics.legacy,
      (∃ other ∈ ((start "operator").run twoSharing).observers.eraseIdx 0,
        other.metrics.legacy = some f) ∧
      (aboutKind o.groupKind
        (((start "operator").run twoSharing).registry.gaugeSeries f.count)).length = 1 := by
  decide +kernel

/-- What is left when the first of the two shuts down. -/
theorem shutdown_departs_twoSharing :
    (((start "operator").made twoSharing).map (·.groupKind)).Nodup ∧
      ∃ o, ((start "operator").run twoSharing).observers[0]? = some o ∧
        o.Departs (((start "operator").run twoSharing).observers.eraseIdx 0)
          ((start "operator").run twoSharing).registry := by
  obtain ⟨o, ho, -⟩ := shared_twoSharing
  exact ⟨kinds_twoSharing, o, ho, shutdown_departs "operator" twoSharing kinds_twoSharing ho⟩

/-- The resource is shown although no observer of its kind is left. -/
theorem not_gone_twoSharing :
    (((start "operator").made twoSharing).map (·.groupKind)).Nodup ∧
      ∃ o, ((start "operator").run twoSharing).observers[0]? = some o ∧
        o.Remains (o.shutdown ((start "operator").run twoSharing).registry) := by
  obtain ⟨o, ho, f, -, hothers, hone⟩ := shared_twoSharing
  obtain ⟨log, h⟩ := kept_start "operator" twoSharing kinds_twoSharing
  refine ⟨kinds_twoSharing, o, ho, remains_of_shared h ho hothers (g := .presence .count)
    fun hnone => ?_⟩
  exact Nat.zero_ne_one ((congrArg List.length hnone).symm.trans hone)

end Fleet

end StatusWatch
