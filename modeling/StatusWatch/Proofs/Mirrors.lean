import StatusWatch.Proofs.Presence
import StatusWatch.Proofs.Stems
import StatusWatch.Proofs.TransitionSeries

/-!
# Two surfaces that mirror each other

The shared families mirror those of a kind: what they show of the kind, without group and kind, is
what the families of the kind show without the projected labels. Several series of the kind may
stand behind one shared series. A shared gauge has the value that was written last to any of them,
and shared counters and histograms have their sums.

- `unprojected`, `unscoped`, `namesKind`; `erased`, `aboutKind`: series without some labels.
- `GaugeMirror`, `CounterMirror`, `HistogramMirror`; `Mirrored`: what it is to mirror.
- `replay_of_stem`, `stem_of_replay`: what is left of a kind, by stems.
- `ShowsLeft`: a family shows what is left; `sameSeries`: both surfaces show the same stems.
- `gaugeMirror`: gauges mirror each other.
-/

namespace StatusWatch.Metrics

/-! ## Series without some labels -/

/-- The labels without the projected ones. -/
def unprojected (labels : List (String × String)) : List (String × String) :=
  labels.filter fun e => !isProjectedName e.1

/-- The labels without group and kind. -/
def unscoped (labels : List (String × String)) : List (String × String) :=
  labels.filter fun e => !decide (e.1 = groupLabel ∨ e.1 = kindLabel)

/-- Labels that have the group and the kind. -/
def namesKind (g : GroupKind) (labels : List (String × String)) : Bool :=
  labels.contains (groupLabel, g.group) && labels.contains (kindLabel, g.kind)

theorem namesKind_iff {g : GroupKind} {labels : List (String × String)} :
    namesKind g labels ↔ (groupLabel, g.group) ∈ labels ∧ (kindLabel, g.kind) ∈ labels := by
  simp [namesKind]

section Series

variable {α : Type}

/-- Series without their projected labels. -/
def erased (series : List (List (String × String) × α)) : List (List (String × String) × α) :=
  series.map fun s => (unprojected s.1, s.2)

/-- The series of a group and kind, without these two labels. -/
def aboutKind (g : GroupKind) (series : List (List (String × String) × α)) :
    List (List (String × String) × α) :=
  (series.filter fun s => namesKind g s.1).map fun s => (unscoped s.1, s.2)

theorem aboutKind_ne_nil_iff {g : GroupKind} {fam : Family α} : aboutKind g fam.labelled ≠ [] ↔
    ∃ s ∈ fam.vec.series, namesKind g (fam.index.labelNames.zip s.1) := by
  unfold aboutKind Family.labelled
  rw [ne_eq, List.map_eq_nil_iff, List.filter_eq_nil_iff, List.forall_mem_map]
  push Not
  rfl

/-- The values of the series that have some labels, besides projected ones. -/
def standingFor (labels : List (String × String)) (series : List (List (String × String) × α)) :
    List α :=
  ((erased series).filter fun s => s.1 = labels).map (·.2)

/-- Shared series of a kind stand for the series of the kind. -/
structure SameSeries (g : GroupKind) (kind shared : List (List (String × String) × α)) : Prop where
  once : ((aboutKind g shared).map (·.1)).Nodup
  same : ∀ labels, labels ∈ (aboutKind g shared).map (·.1) ↔ labels ∈ (erased kind).map (·.1)

end Series

/-! ## Mirrors -/

/-- What was written, with the labels that families with a role have on every surface. -/
def writesOn (role : Role) (ops : List SeriesOp) : List (List (String × String) × Float) :=
  ops.filterMap fun
    | .write labels value => some (role.names.zip (role.stem.index.tuple labels), value)
    | .delete _ => none

/-- How many values a bucket of a histogram counts. -/
def Histogram.inBucket (h : Histogram) (i : Nat) : Nat := ((h.buckets[i]?).map (·.2)).getD 0

/-- A shared gauge has the value that was written last, which a series of the kind has too. -/
structure GaugeMirror (g : GroupKind) (writes : List (List (String × String) × Float))
    (kind shared : List (List (String × String) × Float)) : Prop where
  series : SameSeries g kind shared
  latest : ∀ s ∈ aboutKind g shared,
    OrderedMap.find? s.1 writes.reverse = some s.2 ∧ s ∈ erased kind

/-- A shared counter has the sum of the counters that it stands for. -/
structure CounterMirror (g : GroupKind) (kind shared : List (List (String × String) × Nat)) :
    Prop where
  series : SameSeries g kind shared
  sum : ∀ s ∈ aboutKind g shared, s.2 = (standingFor s.1 kind).sum

/-- A shared histogram has the sums of the histograms that it stands for. -/
structure HistogramMirror (g : GroupKind)
    (kind shared : List (List (String × String) × Histogram)) : Prop where
  series : SameSeries g kind shared
  samples : ∀ s ∈ aboutKind g shared, s.2.count = ((standingFor s.1 kind).map (·.count)).sum
  buckets : ∀ s ∈ aboutKind g shared,
    (∀ h ∈ standingFor s.1 kind, h.buckets.map (·.1) = s.2.buckets.map (·.1)) ∧
      ∀ i, s.2.inBucket i = ((standingFor s.1 kind).map (·.inBucket i)).sum

/-- The shared families with a role mirror those of a kind. -/
def Mirrored (m : ConditionMetrics) (f : ConditionFamilies) (log : Log) (r : Registry) :
    Role → Prop
  | .count => GaugeMirror m.groupKind (writesOn .count (log.through m .count))
      (r.gaugeSeries m.families.count) (r.gaugeSeries f.count)
  | .age => GaugeMirror m.groupKind (writesOn .age (log.through m .age))
      (r.gaugeSeries m.families.currentStatusSeconds) (r.gaugeSeries f.currentStatusSeconds)
  | .transitions => CounterMirror m.groupKind (r.counterSeries m.families.transitionsTotal)
      (r.counterSeries f.transitionsTotal)
  | .stays => HistogramMirror m.groupKind (r.histogramSeries m.families.transitionSeconds)
      (r.histogramSeries f.transitionSeconds)
  | .terminating => GaugeMirror m.groupKind (writesOn .terminating (log.through m .terminating))
      (r.gaugeSeries m.families.terminationCurrentSeconds)
      (r.gaugeSeries f.terminationCurrentSeconds)
  | .terminations => HistogramMirror m.groupKind
      (r.histogramSeries m.families.terminationDurationSeconds)
      (r.histogramSeries f.terminationDurationSeconds)

/-- The tuples that were written to the families of a handle with a role are apart. -/
def Log.ApartOn (log : Log) (m : ConditionMetrics) (role : Role) : Prop :=
  ∀ f ∈ m.surfaces, Apart ((log.seen f role).filterMap (·.written (f.collector role)))

instance (log : Log) (m : ConditionMetrics) (role : Role) : Decidable (log.ApartOn m role) :=
  inferInstanceAs (Decidable (∀ f ∈ m.surfaces, _))

/-! ## What is left of a kind -/

/-- What is left under a tuple was written, so the tuple is full. -/
theorem full_of_replay {c : Collector} {ops : List SeriesOp} {t : LabelTuple}
    (ht : (replay c ops t).isSome) : t.length = c.descriptor.labelNames.length := by
  obtain ⟨op, -, hwritten⟩ := List.mem_filterMap.mp (mem_written_of_replay ht)
  cases op with
  | write labels value =>
    cases hwritten
    exact Family.length_tuple c.index labels
  | delete labels => cases hwritten

/-- What is left under a stem was written there, and nothing was written there since. -/
theorem find?_writesOn {role : Role} {ops : List SeriesOp} {σ : LabelTuple} {v : Float}
    (h : replay role.stem ops σ = some v) :
    OrderedMap.find? (role.names.zip σ) (writesOn role ops).reverse = some v := by
  have hfull : σ.length = role.names.length := full_of_replay (by rw [h]; rfl)
  -- the last write to a stem decides, so the log is taken from its end
  induction ops using List.reverseRecOn with
  | nil => cases h
  | append_singleton ops op ih =>
    rw [replay_concat] at h
    unfold writesOn at ih ⊢
    rw [List.filterMap_append, List.reverse_append]
    cases op with
    | write labels value =>
      simp only [SeriesOp.effect] at h
      simp only [List.filterMap_cons, List.filterMap_nil, List.reverse_singleton,
        List.singleton_append, OrderedMap.find?]
      split at h
      · rename_i heq
        rw [if_pos (by rw [heq]), h]
      · rename_i hne
        rw [if_neg, ih h]
        -- a write to another stem is listed under other labels
        intro heq
        have hlength := Family.length_tuple role.stem.index labels
        refine hne ?_
        calc role.stem.index.tuple labels
            = (role.names.zip (role.stem.index.tuple labels)).map (·.2) :=
              (List.map_snd_zip (Nat.le_of_eq hlength)).symm
          _ = (role.names.zip σ).map (·.2) := by rw [heq]
          _ = σ := List.map_snd_zip (Nat.le_of_eq hfull)
    | delete labels =>
      simp only [SeriesOp.effect] at h
      split at h
      · cases h
      · exact ih h

section Kind

variable {m : ConditionMetrics} (h : m.projection.WellFormed) {c : Collector} {role : Role}
  (hc : c.descriptor.labelNames = role.plan.head ++ role.plan.tail ++ m.projection.labelNames)

include h hc

/-- Something is left under the stem of every tuple of a kind under which something is left. -/
theorem replay_of_stem {ops : List SeriesOp} (hops : ∀ op ∈ ops, m.Scoped op) {t : LabelTuple}
    (ht : (replay c ops t).isSome) :
    (replay role.stem ops (c.index.values role.names t)).isSome := by
  have hfull := full_of_replay ht
  induction ops using List.reverseRecOn with
  | nil => cases ht
  | append_singleton ops op ih =>
    have ih := ih fun op hop => hops op (List.mem_append_left _ hop)
    have hop := hops op (List.mem_append_right _ (List.mem_singleton_self op))
    rw [replay_concat, SeriesOp.effect_eq] at ht ⊢
    cases op with
    | write labels value =>
      split
      · rfl
      · rename_i hne
        refine ih ?_
        rw [if_neg] at ht
        · exact ht
        · intro htouches
          refine hne (decide_eq_true ?_)
          rw [← values_tuple (names_subset_kind hc), of_decide_eq_true htouches]
    | delete labels =>
      -- a kind deletes by labels that the stem has too, so a tuple never outlives its stem
      rw [← kind_deletes h hc hfull hop]
      split at ht
      · cases ht
      · rename_i hnot
        rw [if_neg hnot]
        exact ih ht

/-- Of the tuples with a stem, one has what was left under the stem. -/
theorem stem_of_replay {ops : List SeriesOp} (hops : ∀ op ∈ ops, m.Scoped op) {σ : LabelTuple}
    {v : Float} (hσ : replay role.stem ops σ = some v) :
    ∃ t, c.index.values role.names t = σ ∧ replay c ops t = some v := by
  induction ops using List.reverseRecOn generalizing v with
  | nil => cases hσ
  | append_singleton ops op ih =>
    have ih := @ih fun op hop => hops op (List.mem_append_left _ hop)
    have hop := hops op (List.mem_append_right _ (List.mem_singleton_self op))
    rw [replay_concat, SeriesOp.effect_eq] at hσ
    cases op with
    | write labels value =>
      split at hσ
      · rename_i htouches
        -- several tuples of the kind may share the stem; the one that was written last is taken
        refine ⟨c.index.tuple labels, ?_, ?_⟩
        · rw [values_tuple (names_subset_kind hc), of_decide_eq_true htouches]
        · rw [replay_concat, SeriesOp.effect_eq, if_pos]
          · exact hσ
          · exact decide_eq_true rfl
      · rename_i hne
        obtain ⟨t, rfl, ht⟩ := ih hσ
        refine ⟨t, rfl, ?_⟩
        rw [replay_concat, SeriesOp.effect_eq, if_neg, ht]
        intro htouches
        refine hne (decide_eq_true ?_)
        rw [← values_tuple (names_subset_kind hc), of_decide_eq_true htouches]
    | delete labels =>
      split at hσ
      · cases hσ
      · rename_i hnot
        obtain ⟨t, rfl, ht⟩ := ih hσ
        refine ⟨t, rfl, ?_⟩
        rw [replay_concat, SeriesOp.effect_eq, if_neg, ht]
        rwa [kind_deletes h hc (full_of_replay (by rw [ht]; rfl)) hop]

end Kind

/-! ## What families show -/

/-- A family that shows the tuples under which some operations leave something. -/
structure ShowsLeft {α : Type} (c : Collector) (ops : List SeriesOp) (fam : Family α) : Prop where
  wellFormed : fam.WellFormed
  names : fam.index.labelNames = c.descriptor.labelNames
  shown : ∀ t, (fam.value? t).isSome ↔ (replay c ops t).isSome

section Views

variable {α : Type} {c : Collector} {ops : List SeriesOp} {fam : Family α} (h : ShowsLeft c ops fam)

include h

theorem ShowsLeft.full {s : LabelTuple × α} (hs : s ∈ fam.vec.series) :
    s.1.length = c.descriptor.labelNames.length := by
  rw [← h.names]
  exact Family.length_of_shown h.wellFormed hs

theorem ShowsLeft.mem_series (t : LabelTuple) (a : α) :
    (t, a) ∈ fam.vec.series ↔ fam.value? t = some a := mem_iff_find? h.wellFormed.tuples t a

theorem ShowsLeft.exists_series_iff (t : LabelTuple) :
    (∃ a, (t, a) ∈ fam.vec.series) ↔ (replay c ops t).isSome := by
  rw [← h.shown, Option.isSome_iff_exists]
  exact exists_congr fun a => h.mem_series t a

end Views

section Surfaces

variable {m : ConditionMetrics} (hm : m.Laid) {f : ConditionFamilies} (hf : m.legacy = some f)
  {role : Role} {log : Log} (hscoped : log.Scoped)
  (hkinds : ∀ e ∈ log, e.1.groupKind = m.groupKind → e.1 = m) {α : Type} {kind shared : Family α}
  (hkind : ShowsLeft (m.families.collector role) (log.through m role) kind)
  (hshared : ShowsLeft (f.collector role) (log.seen f role) shared)

include hm hkind in
/-- The series of a kind without the projected labels. -/
theorem erased_labelled : erased kind.labelled = kind.vec.series.map fun s =>
    (role.names.zip ((m.families.collector role).index.values role.names s.1), s.2) := by
  have hnames : (m.families.collector role).descriptor.labelNames.filter
      (fun n => !isProjectedName n) = role.names := by
    rw [hm.kind, List.filter_append, List.filter_eq_self.mpr, List.filter_eq_nil_iff.mpr]
    · exact List.append_nil _
    · intro n hn
      simp [hm.projection.projected n hn]
    · intro n hn
      simp [role.not_projected_names n hn]
  unfold erased Family.labelled
  rw [List.map_map, hkind.names]
  refine List.map_congr_left fun s hs => Prod.ext ?_ rfl
  have hfilter := SeriesIndex.filter_zip (i := (m.families.collector role).index) (hkind.full hs)
    (hm.nodup_names List.mem_cons_self role) fun n => !isProjectedName n
  rwa [Collector.labelNames_index, hnames] at hfilter

include hm hf hshared in
/-- The shared series of a kind without group and kind. -/
theorem aboutKind_labelled : aboutKind m.groupKind shared.labelled =
    (shared.vec.series.filter fun s => IsOf m.groupKind (f.collector role) s.1).map fun s =>
      (role.names.zip ((f.collector role).index.values role.names s.1), s.2) := by
  have hc := hm.shared f hf role
  have hnodup : (f.collector role).descriptor.labelNames.Nodup := hc ▸ role.nodup_shared
  have hnames : (f.collector role).descriptor.labelNames.filter
      (fun n => !decide (n = groupLabel ∨ n = kindLabel)) = role.names := by
    rw [hc]
    cases role <;> decide
  unfold aboutKind Family.labelled
  rw [List.filter_map, List.map_map, hshared.names]
  -- no name is declared twice, so a pair stands in the labels iff it is the value of its name
  have hof : ∀ s ∈ shared.vec.series, ∀ name value,
      (name, value) ∈ (f.collector role).descriptor.labelNames.zip s.1 ↔
        (f.collector role).index.valueOf? s.1 name = some value := by
    exact fun s hs => SeriesIndex.mem_zip_iff (i := (f.collector role).index) hnodup
      (hshared.full hs)
  refine (congrArg (List.map _) (List.filter_congr (q := fun s =>
    decide (IsOf m.groupKind (f.collector role) s.1)) fun s hs => Bool.eq_iff_iff.mpr ?_)).trans ?_
  · exact namesKind_iff.trans ((and_congr (hof s hs _ _) (hof s hs _ _)).trans
      decide_eq_true_iff.symm)
  refine List.map_congr_left fun s hs => Prod.ext ?_ rfl
  have hfilter := SeriesIndex.filter_zip (i := (f.collector role).index)
    (hshared.full (List.mem_of_mem_filter hs)) hnodup
    fun n => !decide (n = groupLabel ∨ n = kindLabel)
  rwa [Collector.labelNames_index, hnames] at hfilter

/-- Values of the same labels are told by the labels with them. -/
theorem zip_names_inj {σ σ' : LabelTuple} (hσ : σ.length = role.names.length)
    (hσ' : σ'.length = role.names.length) (h : role.names.zip σ = role.names.zip σ') : σ = σ' := by
  rw [← List.map_snd_zip (Nat.le_of_eq hσ), h, List.map_snd_zip (Nat.le_of_eq hσ')]

include hm hf hscoped hkinds in
/-- What is left under a shared tuple of a kind is what the handle of the kind left under its
stem. -/
theorem replay_shared {u : LabelTuple}
    (hfull : u.length = (f.collector role).descriptor.labelNames.length)
    (hu : IsOf m.groupKind (f.collector role) u) :
    replay (f.collector role) (log.seen f role) u = replay role.stem (log.through m role)
      ((f.collector role).index.values role.names u) := by
  rw [replay_eq, replay_eq, Log.filter_touches hscoped hf hkinds (hm.shared f hf role) hfull hu]

include hm hf in
/-- A shared tuple of a kind is told by its stem. -/
theorem eq_of_stem {u u' : LabelTuple}
    (hfull : u.length = (f.collector role).descriptor.labelNames.length)
    (hfull' : u'.length = (f.collector role).descriptor.labelNames.length)
    (hu : IsOf m.groupKind (f.collector role) u) (hu' : IsOf m.groupKind (f.collector role) u')
    (heq : (f.collector role).index.values role.names u =
      (f.collector role).index.values role.names u') : u = u' := by
  have hc := hm.shared f hf role
  have hnodup : (f.collector role).descriptor.labelNames.Nodup := hc ▸ role.nodup_shared
  rw [← SeriesIndex.values_labelNames (i := (f.collector role).index) hfull hnodup,
    ← SeriesIndex.values_labelNames (i := (f.collector role).index) hfull' hnodup]
  refine List.map_congr_left fun n hn => ?_
  rw [Collector.labelNames_index, hc, role.mem_shared] at hn
  rcases hn with hn | hn | hn
  · exact List.map_inj_left.mp heq n hn
  · rw [hn, hu.1, hu'.1]
  · rw [hn, hu.2, hu'.2]

include hm hf hscoped hkinds hkind hshared

/-- A stem that a shared series of the kind has is one of a series of the kind. -/
theorem mem_erased_of_shared {labels : List (String × String)}
    (h : labels ∈ (aboutKind m.groupKind shared.labelled).map (·.1)) :
    labels ∈ (erased kind.labelled).map (·.1) := by
  rw [aboutKind_labelled hm hf hshared, List.map_map] at h
  rw [erased_labelled hm hkind, List.map_map]
  obtain ⟨s, hs, rfl⟩ := List.mem_map.mp h
  obtain ⟨hs, hof⟩ := List.mem_filter.mp hs
  -- something is left under the stem, so it is under a tuple of the kind
  have hleft := (hshared.exists_series_iff s.1).mp ⟨s.2, hs⟩
  rw [replay_shared hm hf hscoped hkinds (hshared.full hs) (of_decide_eq_true hof)] at hleft
  obtain ⟨v, hv⟩ := Option.isSome_iff_exists.mp hleft
  obtain ⟨t, hstem, ht⟩ :=
    stem_of_replay hm.projection (hm.kind role) (fun _ => hscoped.through) hv
  obtain ⟨a, ha⟩ := (hkind.exists_series_iff t).mpr (by rw [ht]; rfl)
  refine List.mem_map.mpr ⟨(t, a), ha, ?_⟩
  show role.names.zip _ = role.names.zip _
  rw [hstem]

/-- A stem that a series of the kind has is one of a shared series of the kind. -/
theorem mem_shared_of_erased {labels : List (String × String)}
    (h : labels ∈ (erased kind.labelled).map (·.1)) :
    labels ∈ (aboutKind m.groupKind shared.labelled).map (·.1) := by
  rw [erased_labelled hm hkind, List.map_map] at h
  rw [aboutKind_labelled hm hf hshared, List.map_map]
  obtain ⟨s, hs, rfl⟩ := List.mem_map.mp h
  have hleft := replay_of_stem hm.projection (hm.kind role) (fun _ => hscoped.through)
    ((hkind.exists_series_iff s.1).mp ⟨s.2, hs⟩)
  -- the write of what is left under the stem wrote a shared tuple with this stem
  obtain ⟨op, hop, hwritten⟩ := List.mem_filterMap.mp (mem_written_of_replay hleft)
  have hscope := hscoped.through hop
  cases op with
  | delete labels => cases hwritten
  | write labels value =>
    have hstem := Option.some.inj hwritten
    have hof : IsOf m.groupKind (f.collector role) ((f.collector role).index.tuple labels) :=
      isOf_of_touches (hm.shared f hf role) hscope (decide_eq_true rfl)
    have hvalues := values_tuple (names_subset_shared (hm.shared f hf role)) labels
    have hshown := replay_shared hm hf hscoped hkinds
      (Family.length_tuple (f.collector role).index labels) hof
    rw [hvalues, hstem] at hshown
    obtain ⟨a, ha⟩ := (hshared.exists_series_iff _).mpr (hshown ▸ hleft)
    refine List.mem_map.mpr ⟨_, List.mem_filter.mpr ⟨ha, decide_eq_true hof⟩, ?_⟩
    show role.names.zip _ = role.names.zip _
    rw [hvalues, hstem]

/-- Both surfaces show the same stems. -/
theorem sameSeries : SameSeries m.groupKind kind.labelled shared.labelled where
  once := by
    rw [aboutKind_labelled hm hf hshared, List.map_map]
    -- group and kind are the same in all of them, so two shared series differ in their stems
    refine List.Nodup.map_on ?_
      (List.Nodup.filter _ (List.Nodup.of_map _ hshared.wellFormed.tuples))
    intro s hs s' hs' heq
    have heq : role.names.zip _ = role.names.zip _ := heq
    obtain ⟨hs, hof⟩ := List.mem_filter.mp hs
    obtain ⟨hs', hof'⟩ := List.mem_filter.mp hs'
    refine List.inj_on_of_nodup_map hshared.wellFormed.tuples hs hs' ?_
    refine eq_of_stem hm hf (hshared.full hs) (hshared.full hs') (of_decide_eq_true hof)
      (of_decide_eq_true hof') (zip_names_inj ?_ ?_ heq)
    · exact List.length_map _
    · exact List.length_map _
  same _ := ⟨mem_erased_of_shared hm hf hscoped hkinds hkind hshared,
    mem_shared_of_erased hm hf hscoped hkinds hkind hshared⟩

end Surfaces

/-! ## Values -/

section Gauges

variable {m : ConditionMetrics} (hm : m.Laid) {f : ConditionFamilies} (hf : m.legacy = some f)
  {role : Role} {log : Log} (hscoped : log.Scoped)
  (hkinds : ∀ e ∈ log, e.1.groupKind = m.groupKind → e.1 = m) {kind shared : Family Float}
  (hkind : ShowsLeft (m.families.collector role) (log.through m role) kind)
  (hshared : ShowsLeft (f.collector role) (log.seen f role) shared)

include hm hf hscoped hkinds hkind hshared

/-- Gauges that hold what is left of their operations. -/
theorem gaugeMirror
    (hvalue : ∀ t, kind.value? t = replay (m.families.collector role) (log.through m role) t)
    (hvalue' : ∀ u, shared.value? u = replay (f.collector role) (log.seen f role) u) :
    GaugeMirror m.groupKind (writesOn role (log.through m role)) kind.labelled
      shared.labelled where
  series := sameSeries hm hf hscoped hkinds hkind hshared
  latest := by
    rw [aboutKind_labelled hm hf hshared, erased_labelled hm hkind]
    intro s hs
    obtain ⟨⟨u, v⟩, hu, rfl⟩ := List.mem_map.mp hs
    obtain ⟨hu, hof⟩ := List.mem_filter.mp hu
    have hleft := (hshared.mem_series u v).mp hu
    -- the shared value is what the last write to the stem left
    rw [hvalue', replay_shared hm hf hscoped hkinds (hshared.full hu) (of_decide_eq_true hof)]
      at hleft
    refine ⟨find?_writesOn hleft, ?_⟩
    obtain ⟨t, hstem, ht⟩ :=
      stem_of_replay hm.projection (hm.kind role) (fun _ => hscoped.through) hleft
    refine List.mem_map.mpr ⟨(t, v), (hkind.mem_series t v).mpr ((hvalue t).trans ht), ?_⟩
    show (role.names.zip _, v) = (role.names.zip _, v)
    rw [hstem]

end Gauges

end StatusWatch.Metrics
