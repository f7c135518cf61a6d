import StatusWatch.Proofs.Finalizers
import StatusWatch.Proofs.GrowingFamilies
import StatusWatch.Proofs.Presence
import StatusWatch.Proofs.ResourceGauges

/-!
# Tracked episodes

A resource is tracked from the step that finds it until the step that finds it gone. What
is remembered in between is merged from poll to poll: the deletion time that was seen
first stays, everything else is what was seen last. At the end the episode is closed: its
termination is sampled, the finalizers that are left are announced, and its series go.

- `Family.find?_labelled`, `Family.record_exact_iff`: one more entry, in terms of what is
  exposed.
- `terminationSurfaces`: the surfaces with the labels of their terminations.
- `since_run`: the deletion time that is remembered.
- `Episode`, `episode_snapshot`: an episode, and what is remembered when it ends.
- `gone_run`: after the end no gauge shows the resource.
- `Accounted`, `episode_accounted`: an episode is accounted for exactly once.
-/

namespace StatusWatch

open Metrics (Collector ConditionFamilies ConditionMetrics Family Fresh Histogram LabelTuple
  Registry Role bucketBounds durationBounds)

namespace Metrics

/-! ## One more entry -/

namespace Family

variable {α : Type} {f : Family α} (h : f.WellFormed)

include h

/-- Exposed series, looked up by their labels. -/
theorem find?_labelled {labels : List (String × String)}
    (hnames : labels.map (·.1) = f.index.labelNames) :
    OrderedMap.find? labels f.labelled = f.value? (labels.map (·.2)) := by
  have hlabels : f.index.labelNames.zip (labels.map (·.2)) = labels := by
    rw [← hnames, ← List.unzip_fst, ← List.unzip_snd, List.zip_unzip]
  have hfind : ∀ l : List (LabelTuple × α), (∀ s ∈ l, s.1.length = f.index.labelNames.length) →
      OrderedMap.find? labels (l.map fun s => (f.index.labelNames.zip s.1, s.2)) =
        OrderedMap.find? (labels.map (·.2)) l := by
    intro l
    induction l with
    | nil => exact fun _ => rfl
    | cons s l ih =>
      intro hlength
      rw [List.map_cons, OrderedMap.find?, OrderedMap.find?,
        ih fun s' hs' => hlength s' (List.mem_cons_of_mem _ hs')]
      have hsame : f.index.labelNames.zip s.1 = labels ↔ s.1 = labels.map (·.2) := by
        constructor
        · intro heq
          rw [← heq, List.map_snd_zip (Nat.le_of_eq (hlength s List.mem_cons_self))]
        · intro heq
          rw [heq, hlabels]
      simp only [hsame]
  exact hfind f.vec.series fun s hs => length_of_shown h hs

/-- Nothing is exposed under other names. -/
theorem find?_labelled_of_ne {labels : List (String × String)}
    (hnames : labels.map (·.1) ≠ f.index.labelNames) :
    OrderedMap.find? labels f.labelled = none := by
  refine OrderedMap.find?_eq_none_of_forall fun e he heq => hnames ?_
  obtain ⟨s, hs, rfl⟩ := List.mem_map.mp he
  rw [← heq]
  exact List.map_fst_zip (Nat.le_of_eq (length_of_shown h hs).symm)

/-- One more entry changes the series of its labels, and no other, exactly if its tuple runs
together with that of no other series. -/
theorem record_exact_iff {labels : Labels} {pairs : List (String × String)}
    (hnames : pairs.map (·.1) = f.index.labelNames)
    (htuple : f.index.tuple labels = pairs.map (·.2)) (step : Option α → α) :
    (∀ l, OrderedMap.find? l (f.record labels step).labelled =
        if l = pairs then some (step (OrderedMap.find? pairs f.labelled))
        else OrderedMap.find? l f.labelled) ↔
      ∀ e ∈ f.labelled, LabelTuple.joined (e.1.map (·.2)) = LabelTuple.joined (pairs.map (·.2)) →
        e.1 = pairs := by
  have hnext : (f.record labels step).index.labelNames = f.index.labelNames :=
    labelNames_record f labels step
  constructor
  · -- the entry would be shown under the labels of another series
    intro hexact e he hjoined
    by_contra hne
    obtain ⟨s, hs, rfl⟩ := List.mem_map.mp he
    rw [List.map_snd_zip (Nat.le_of_eq (length_of_shown h hs)), ← htuple] at hjoined
    have hother : s.1 ≠ f.index.tuple labels := by
      intro heq
      refine hne ?_
      rw [heq, htuple, ← hnames, ← List.unzip_fst, ← List.unzip_snd, List.zip_unzip]
    have hmissing := value?_record_of_runTogether h labels step
      (find?_isSome_iff.mpr (List.mem_map_of_mem hs)) hjoined hother
    have hshown := hexact pairs
    rw [if_pos rfl, find?_labelled (h.record labels step) (hnames.trans hnext.symm), ← htuple,
      hmissing] at hshown
    cases hshown
  · intro hclear l
    -- a series that is shown with the text of the new tuple is the series recorded to
    have hapart : ∀ t, (f.value? t).isSome → t.joined = (f.index.tuple labels).joined →
        t = f.index.tuple labels := by
      intro t ht hjoined
      obtain ⟨s, hs, rfl⟩ := List.mem_map.mp (find?_isSome_iff.mp ht)
      have hlength := length_of_shown h hs
      have hsame := hclear (f.index.labelNames.zip s.1, s.2) (List.mem_map_of_mem hs) (by
        rw [List.map_snd_zip (Nat.le_of_eq hlength), hjoined, htuple])
      rw [htuple, ← hsame, List.map_snd_zip (Nat.le_of_eq hlength)]
    by_cases hl : l.map (·.1) = f.index.labelNames
    · rw [find?_labelled (h.record labels step) (hl.trans hnext.symm), find?_labelled h hl,
        find?_labelled h hnames, value?_record h labels step hapart, htuple]
      refine if_congr ⟨fun heq => ?_, fun heq => by rw [heq]⟩ rfl rfl
      have hzip : ∀ l : List (String × String), (l.map (·.1)).zip (l.map (·.2)) = l := by
        intro l
        rw [← List.unzip_fst, ← List.unzip_snd, List.zip_unzip]
      rw [← hzip l, ← hzip pairs, hl, hnames, heq]
    · have hother : l ≠ pairs := fun heq => hl (heq ▸ hnames)
      rw [if_neg hother, find?_labelled_of_ne h hl,
        find?_labelled_of_ne (h.record labels step) (by rwa [hnext])]

end Family

/-! ## Surfaces -/

/-- The surfaces of a handle with the labels of their terminations, by resource labels. -/
def ConditionMetrics.terminationSurfaces (m : ConditionMetrics) :
    List (ConditionFamilies × (Labels → List (String × String))) :=
  (m.families, m.projection.values) ::
    (m.legacy.map fun f =>
      (f, fun _ => [(groupLabel, m.groupKind.group), (kindLabel, m.groupKind.kind)])).toList

/-- Every surface reads these labels off what is written. -/
theorem Fresh.terminationLabels {m : ConditionMetrics} {r : Registry} (h : Fresh m r)
    {surface : ConditionFamilies × (Labels → List (String × String))}
    (hs : surface ∈ m.terminationSurfaces) (labels : Labels) :
    surface.1 ∈ m.surfaces ∧
      (surface.2 labels).map (·.1) = surface.1.terminationDurationSeconds.descriptor.labelNames ∧
      ∀ e ∈ surface.2 labels, (m.labelSet none labels []).get? e.1 = some e.2 := by
  have hget : ∀ e ∈ m.fixedLabels none [] ++ m.projection.values labels,
      (m.labelSet none labels []).get? e.1 = some e.2 := by
    have hnames : [groupLabel, kindLabel].Nodup ∧
        ∀ n ∈ [groupLabel, kindLabel], isProjectedName n = false := by decide
    intro e he
    refine ConditionMetrics.get?_labelSet_of_mem h.projection ?_ ?_ labels he
    · exact hnames.1
    · exact fun e he => hnames.2 e.1 (List.mem_map_of_mem (f := (·.1)) he)
  rcases List.mem_cons.mp hs with rfl | hs
  · refine ⟨List.mem_cons_self, ?_, fun e he => hget e (List.mem_append_right _ he)⟩
    rw [LabelProjection.map_fst_values]
    exact (h.kind .terminations).symm
  · obtain ⟨f, hf, rfl⟩ := Option.map_eq_some_iff.mp (Option.mem_toList.mp hs)
    refine ⟨ConditionMetrics.mem_surfaces_of_legacy hf, ?_, ?_⟩
    · exact (h.shared f hf .terminations).symm
    · exact fun e he => hget e (List.mem_append_left _ he)

end Metrics

namespace Watch

/-! ## What is remembered -/

/-- The deletion time that a run sees first of a resource. -/
def firstDeletion (key : ResourceKey) (steps : List Step) : Option Instant :=
  (observations key steps).findSome? fun found => found.bind (·.metadata.deleted)

/-- The deletion time that was seen first is remembered while the resource is there. -/
theorem since_run {w : Watch} {key : ResourceKey} (h : w.observer.snapshots.get? key = none)
    (steps : List Step) (hthere : ∀ s ∈ steps, s.sees key ≠ some none) :
    ((w.run steps).1.observer.snapshots.get? key).bind (·.terminatingSince) =
      firstDeletion key steps := by
  rw [get?_run, h]
  induction steps using List.reverseRecOn with
  | nil => rfl
  | append_singleton steps s ih =>
    have ih := ih fun s' hs' => hthere s' (List.mem_append_left _ hs')
    unfold firstDeletion at ih ⊢
    rw [observations_concat, List.foldl_append, List.foldl_cons, List.foldl_nil, Step.recall,
      List.findSome?_append, ← ih]
    rcases hs : s.sees key with _ | _ | resource
    · exact (Option.or_none).symm
    · exact absurd hs (hthere s (by simp))
    · show Option.or _ (resource.bind s.now).metadata.deleted = _
      rw [Resource.metadata_bind]
      cases hd : resource.metadata.deleted <;> simp [hd]

/-- A tracked episode of a resource: after some steps it is not tracked, a step finds it, and so
do all later ones that see it, up to the step that finds it gone. -/
structure Episode (w : Watch) (key : ResourceKey) (before : List Step) (first : Step)
    (during : List Step) (last : Step) : Prop where
  untracked : (w.run before).1.observer.snapshots.get? key = none
  begins : ∃ resource, first.sees key = some (some resource)
  there : ∀ s ∈ during, s.sees key ≠ some none
  ends : last.sees key = some none

section Episode

variable {w : Watch} {key : ResourceKey} {before during : List Step} {first last : Step}
  (he : Episode w key before first during last)

include he

theorem Episode.all_there : ∀ s ∈ first :: during, s.sees key ≠ some none := by
  intro s hs
  rcases List.mem_cons.mp hs with rfl | hs
  · obtain ⟨resource, hfirst⟩ := he.begins
    rw [hfirst]
    exact fun heq => nomatch heq
  · exact he.there s hs

/-- What is remembered when an episode ends. -/
theorem episode_snapshot : ∃ p resource,
    (w.run (before ++ first :: during)).1.observer.snapshots.get? key = some p ∧
      (observations key (first :: during)).getLast? = some (some resource) ∧
      p.labels = resource.metadata.labels ∧
      p.terminatingSince = firstDeletion key (first :: during) := by
  obtain ⟨begun, hfirst⟩ := he.begins
  have hne : observations key (first :: during) ≠ [] := by
    unfold observations
    rw [List.filterMap_cons_some hfirst]
    exact List.cons_ne_nil _ _
  -- the last observation found something, as all of them did
  have hlast : ∃ resource,
      (observations key (first :: during)).getLast? = some (some resource) := by
    obtain ⟨found, hfound⟩ := Option.isSome_iff_exists.mp (List.getLast?_isSome.mpr hne)
    obtain ⟨s, hs, hsees⟩ := List.mem_filterMap.mp (List.mem_of_getLast? hfound)
    cases found with
    | none => exact absurd hsees (he.all_there s hs)
    | some resource => exact ⟨resource, hfound⟩
  obtain ⟨resource, hresource⟩ := hlast
  have hremembered := finalizers_run he.untracked (first :: during)
  have hsince := since_run he.untracked (first :: during) he.all_there
  have hrun : (w.run (before ++ first :: during)).1 =
      ((w.run before).1.run (first :: during)).1 := by
    rw [run_append]
  rw [hresource, ← hrun] at hremembered
  rw [← hrun] at hsince
  obtain ⟨p, hp, heq⟩ := Option.map_eq_some_iff.mp hremembered
  rw [hp] at hsince
  exact ⟨p, resource, hp, hresource, (Prod.mk.inj heq).2, hsince⟩

/-- The termination that the end of an episode samples: there is one if a deletion was seen. -/
theorem episode_termination : ∃ resource,
    (observations key (first :: during)).getLast? = some (some resource) ∧
      last.termination (w.run (before ++ first :: during)).1.observer =
        (firstDeletion key (first :: during)).map fun since =>
          (resource.metadata.labels, secondsBetween last.now since) := by
  obtain ⟨p, resource, hp, hresource, hlabels, hsince⟩ := episode_snapshot he
  obtain ⟨hkey, hfetched⟩ := key_of_sees he.ends
  refine ⟨resource, hresource, ?_⟩
  unfold Step.termination
  rw [hfetched, hkey, hp, ← hsince, ← hlabels]
  rfl

end Episode

/-! ## Series of terminations -/

/-- The series of terminations that a surface shows after a run. -/
def terminations (w : Watch) (f : ConditionFamilies) (steps : List Step) :
    List (List (String × String) × Histogram) :=
  (w.run steps).1.registry.histogramSeries f.terminationDurationSeconds

/-- One value was added to the histogram with the given labels, and nothing else happened. -/
def Sampled (labels : List (String × String)) (value : Float)
    (before after : List (List (String × String) × Histogram)) : Prop :=
  ∀ l, OrderedMap.find? l after =
    if l = labels then
      some (Metrics.sample (bucketBounds durationBounds) value (OrderedMap.find? labels before))
    else OrderedMap.find? l before

/-- No other series has values that run together to the same text. -/
def Clear (labels : List (String × String))
    (series : List (List (String × String) × Histogram)) : Prop :=
  ∀ e ∈ series, LabelTuple.joined (e.1.map (·.2)) = LabelTuple.joined (labels.map (·.2)) →
    e.1 = labels

section Fresh

variable {w : Watch} (hfresh : Fresh w.observer.metrics w.registry)

include hfresh

theorem terminations_eq {f : ConditionFamilies} (hf : f ∈ w.observer.metrics.surfaces)
    (steps : List Step) :
    w.terminations f steps =
      ((Family.new f.terminationDurationSeconds.descriptor).accumulate
        (Metrics.sample (bucketBounds durationBounds))
        (w.entriesOn .terminations steps)).labelled := by
  have hafter : (w.run steps).1.registry.histograms[f.terminationDurationSeconds.index]? = _ :=
    histogram_run hfresh hf steps .terminations
  unfold terminations Registry.histogramSeries
  rw [hafter]
  rfl

/-- A step that ends no termination samples none. -/
theorem terminations_of_none {f : ConditionFamilies} (hf : f ∈ w.observer.metrics.surfaces)
    {steps : List Step} {s : Step} (h : s.termination (w.run steps).1.observer = none) :
    w.terminations f (steps ++ [s]) = w.terminations f steps := by
  rw [terminations_eq hfresh hf, terminations_eq hfresh hf, terminations_concat, h]
  simp

/-- A step that ends a termination samples it: one sample more, whatever the labels are, and it
is shown under the labels of the resource exactly if these are clear. -/
theorem terminations_of_some {surface : ConditionFamilies × (Labels → List (String × String))}
    (hs : surface ∈ w.observer.metrics.terminationSurfaces) {steps : List Step} {s : Step}
    {labels : Labels} {value : Float}
    (h : s.termination (w.run steps).1.observer = some (labels, value)) :
    ((w.terminations surface.1 (steps ++ [s])).map (·.2.count)).sum =
        ((w.terminations surface.1 steps).map (·.2.count)).sum + 1 ∧
      (Sampled (surface.2 labels) value (w.terminations surface.1 steps)
          (w.terminations surface.1 (steps ++ [s])) ↔
        Clear (surface.2 labels) (w.terminations surface.1 steps)) := by
  obtain ⟨hf, hnames, hget⟩ := hfresh.terminationLabels hs labels
  rw [terminations_eq hfresh hf, terminations_eq hfresh hf, terminations_concat, h]
  have hwf : ((Family.new surface.1.terminationDurationSeconds.descriptor).accumulate
      (Metrics.sample (bucketBounds durationBounds))
      (w.entriesOn .terminations steps)).WellFormed :=
    (Metrics.Family.wellFormed_new _).accumulate _ _
  have hdeclared : (surface.2 labels).map (·.1) =
      ((Family.new surface.1.terminationDurationSeconds.descriptor).accumulate
        (Metrics.sample (bucketBounds durationBounds))
        (w.entriesOn .terminations steps)).index.labelNames := by
    rw [Metrics.Family.labelNames_accumulate, hnames]
    rfl
  constructor
  · rw [Metrics.Family.accumulate_append]
    exact Metrics.Family.sum_samples _ hwf [_]
  · rw [Option.map_some, Option.toList_some, Metrics.Family.accumulate_concat]
    exact Metrics.Family.record_exact_iff hwf hdeclared
      (Metrics.tuple_eq hdeclared.symm hget) _

/-! ## Gauges of a resource that is gone -/

/-- After the step that finds a resource gone no gauge of a surface shows it. -/
theorem gone_run {f : ConditionFamilies} (hf : f ∈ w.observer.metrics.surfaces)
    (g : ResourceGauge) {key : ResourceKey} {last : Step} (hends : last.sees key = some none)
    (steps : List Step) :
    ∀ e ∈ (w.run (steps ++ [last])).1.registry.gaugeSeries (g.ref f),
      ¬ ((Metrics.namespaceLabel, key.ns) ∈ e.1 ∧ (Metrics.nameLabel, key.name) ∈ e.1) := by
  rintro e he ⟨hns, hname⟩
  obtain ⟨hkey, hfetched⟩ := key_of_sees hends
  obtain ⟨fam, hfam, hreplayed, -⟩ := gauge_run hfresh hf g (steps ++ [last])
  unfold Registry.gaugeSeries at he
  rw [hfam] at he
  obtain ⟨s, hs, rfl⟩ := List.mem_map.mp he
  have hlength := Metrics.Family.length_of_shown hreplayed.wellFormed hs
  have hheld := (hreplayed.live s.1).mp (hreplayed.wellFormed.indexed s.1
    (Metrics.find?_isSome_iff.mpr (List.mem_map_of_mem hs)))
  -- the tuple belongs to some key, which its labels tell to be this one
  have howner := Metrics.ConditionMetrics.exists_owner hfresh.projection
    (fun _ he => about_of_mem_outputs he) hheld
  obtain ⟨key', howns⟩ := howner
  rw [hreplayed.names] at hlength hns hname
  have hnodup := hfresh.toLaid.nodup_names hf g.role
  rw [g.collector_role] at hnodup
  obtain rfl := (howns.mem_zip_iff hfresh.projection (hfresh.identity hf g) hnodup hlength key).mp
    ⟨hns, hname⟩
  -- and nothing is held under the tuples of a key that was just forgotten
  have hround : (last.roundOf (w.run steps).1.observer g).ops =
      [.delete (w.observer.metrics.resourceSet key [])] := by
    unfold Step.roundOf Step.round
    rw [hfetched, hkey, observer_run]
    cases g <;> rfl
  rw [opsOn_concat, on_calls_round, hround, Metrics.replay_concat] at hheld
  have hnone : ∀ v, (Metrics.SeriesOp.delete (w.observer.metrics.resourceSet key [])).effect
      (.gauge (g.ref f)) s.1 v = none := fun v => if_pos howns
  rw [hnone] at hheld
  cases hheld

end Fresh

/-! ## Accounting -/

/-- An episode is accounted for exactly once: after some steps come those of the episode and the
one that ends it. -/
structure Accounted (w : Watch) (key : ResourceKey) (before steps : List Step) (last : Step) :
    Prop where
  /-- No step of the episode samples a termination before it ends. -/
  silent : ∀ earlier s, earlier ++ [s] <+: steps → s.key = key →
    ∀ surface ∈ w.observer.metrics.terminationSurfaces,
      w.terminations surface.1 (before ++ earlier ++ [s]) =
        w.terminations surface.1 (before ++ earlier)
  /-- Nor does its end, if no deletion was seen. -/
  unsampled : firstDeletion key steps = none →
    ∀ surface ∈ w.observer.metrics.terminationSurfaces,
      w.terminations surface.1 (before ++ steps ++ [last]) =
        w.terminations surface.1 (before ++ steps)
  /-- If one was, its end adds one sample on every surface: the time since the deletion that was
  seen first. It is shown under the labels of the resource as it was seen last exactly if no
  other series runs together with them. -/
  sampled : ∀ since, firstDeletion key steps = some since → ∃ resource,
    (observations key steps).getLast? = some (some resource) ∧
      ∀ surface ∈ w.observer.metrics.terminationSurfaces,
        let labels := surface.2 resource.metadata.labels
        let shown := w.terminations surface.1 (before ++ steps)
        let added := w.terminations surface.1 (before ++ steps ++ [last])
        (added.map (·.2.count)).sum = (shown.map (·.2.count)).sum + 1 ∧
          (Sampled labels (secondsBetween last.now since) shown added ↔ Clear labels shown)
  /-- A finalizer is announced as often as it disappeared between two observations, the last of
  which finds nothing. -/
  finalized : (∀ resource, some resource ∈ observations key steps →
      resource.metadata.finalizers.Nodup) → ∀ f,
    ((w.run before).1.events (steps ++ [last])).countP
        (fun e => e.isFinalizedOf f && e.involved.key = key) =
      falls ((observations key (steps ++ [last])).map (present f))
  /-- In the end no gauge shows the resource. -/
  forgotten : ∀ f ∈ w.observer.metrics.surfaces, ∀ g : ResourceGauge,
    ∀ e ∈ (w.run (before ++ steps ++ [last])).1.registry.gaugeSeries (g.ref f),
      ¬ ((Metrics.namespaceLabel, key.ns) ∈ e.1 ∧ (Metrics.nameLabel, key.name) ∈ e.1)
  /-- And it is not tracked. -/
  untracked : (w.run (before ++ steps ++ [last])).1.observer.snapshots.get? key = none

/-- Every tracked episode is accounted for exactly once. -/
theorem episode_accounted {scope : String} {g : GroupKind} {settings : ObserverSettings}
    {r : Registry} {o : Observer}
    (h : Observer.create (Registry.new scope) g settings = (r, .ok o)) {key : ResourceKey}
    {before during : List Step} {first last : Step}
    (he : Episode ⟨o, r⟩ key before first during last) :
    Accounted ⟨o, r⟩ key before (first :: during) last := by
  obtain ⟨hfresh, -⟩ := Observer.fresh_create h
  obtain ⟨resource, hresource, htermination⟩ := episode_termination he
  obtain ⟨hkey, hfetched⟩ := key_of_sees he.ends
  have hsurface : ∀ {surface : ConditionFamilies × (Labels → List (String × String))},
      surface ∈ (⟨o, r⟩ : Watch).observer.metrics.terminationSurfaces →
        surface.1 ∈ (⟨o, r⟩ : Watch).observer.metrics.surfaces :=
    fun hs => (hfresh.terminationLabels hs ∅).1
  refine { silent := ?_, unsampled := ?_, sampled := ?_, finalized := ?_, forgotten := ?_,
           untracked := ?_ }
  · intro earlier s hbegins hs surface hsurface'
    refine terminations_of_none hfresh (hsurface hsurface') ?_
    -- nothing ends before the last step, as the resource is there at all others
    have hthere := he.all_there s (hbegins.subset (by simp))
    unfold Step.termination
    match hf : s.fetched with
    | .error _ => rfl
    | .ok none => exact absurd (sees_of_fetched hs hf) hthere
    | .ok (some _) => rfl
  · intro hnone surface hs
    refine terminations_of_none hfresh (hsurface hs) ?_
    rw [htermination, hnone]
    rfl
  · intro since hsince
    refine ⟨resource, hresource, fun surface hs => ?_⟩
    refine terminations_of_some hfresh hs ?_
    rw [htermination, hsince]
    rfl
  · intro hdistinct f
    refine finalized_run he.untracked f ((first :: during) ++ [last]) fun resource hmem => ?_
    rw [observations_concat, he.ends, Option.toList_some, List.mem_append] at hmem
    exact hmem.elim (hdistinct resource) fun hlast => nomatch List.mem_singleton.mp hlast
  · exact fun f hf g => gone_run hfresh hf g he.ends (before ++ first :: during)
  · rw [get?_run, List.foldl_append, List.foldl_cons, List.foldl_nil, Step.recall, he.ends]
    rfl

/-- A resource whose deletion was requested, with a label and finalizers. -/
def leaving (name label : String) (finalizers : List String) : Resource :=
  Resource.ofObject
    { metadata := { ObjectMeta.of .epoch "" name with
        deleted := some .epoch, finalizers, labels := (∅ : Labels).insert label "x" }
      groupKind := ⟨"apps", "Deployment"⟩
      conditionTypes := .of "Ready" []
      conditions := [.of .epoch "Ready" .true] }

/-- A fetch for a resource. -/
def fetch (name : String) (fetched : Fetched) : Step := ⟨.epoch, ⟨"", name⟩, fetched⟩

/-- A resource with a label is seen leaving, and gone. -/
def departed (name label : String) : List Step :=
  [fetch name (.ok (some (leaving name label []))), fetch name (.ok none)]

/-- A resource with a finalizer is seen, not reached, and seen without the finalizer. -/
def departure : List Step :=
  [fetch "n" (.ok (some (leaving "n" "team" ["f"]))), fetch "n" (.error .cancelled),
    fetch "n" (.ok (some (leaving "n" "team" [])))]

/-- Another resource with the same label left before, so a series with its labels is shown. -/
theorem clear_departure : ∀ surface ∈ (launched projecting).observer.metrics.terminationSurfaces,
    Clear (surface.2 (leaving "n" "team" []).metadata.labels)
      ((launched projecting).terminations surface.1 (departed "m" "team" ++ departure)) := by
  unfold Clear
  decide +kernel

theorem untracked_departed {o : Observer} (h : o.snapshots = ∅) (r : Registry) {name other : String}
    (label : String) (hne : name ≠ other) :
    ((⟨o, r⟩ : Watch).run (departed name label)).1.observer.snapshots.get? ⟨"", other⟩ = none := by
  have hnone : ∀ s ∈ departed name label, s.sees ⟨"", other⟩ = none := by
    intro s hs
    have hkey : s.key = ⟨"", name⟩ := by
      rcases List.mem_pair.mp hs with rfl | rfl <;> rfl
    refine if_neg fun heq => hne ?_
    rw [hkey] at heq
    exact congrArg ResourceKey.name heq
  rw [get?_run_of_not_seen hnone]
  exact congrArg (·.get? ⟨"", other⟩) h

/-- Its episode, when it is gone. -/
theorem episode_accounted_leaving : ∃ r o,
    Observer.create (Registry.new "operator") ⟨"apps", "Deployment"⟩ projecting = (r, .ok o) ∧
      Episode ⟨o, r⟩ ⟨"", "n"⟩ (departed "m" "team")
        (fetch "n" (.ok (some (leaving "n" "team" ["f"])))) departure.tail
        (fetch "n" (.ok none)) ∧
      firstDeletion ⟨"", "n"⟩ departure = some .epoch ∧
      (∀ surface ∈ (⟨o, r⟩ : Watch).observer.metrics.terminationSurfaces,
        Clear (surface.2 (leaving "n" "team" []).metadata.labels)
          ((⟨o, r⟩ : Watch).terminations surface.1 (departed "m" "team" ++ departure))) ∧
      Accounted ⟨o, r⟩ ⟨"", "n"⟩ (departed "m" "team") departure (fetch "n" (.ok none)) := by
  obtain ⟨r, o, h⟩ := create_projecting
  obtain ⟨-, hempty, -⟩ := Observer.fresh_create h
  have he : Episode ⟨o, r⟩ ⟨"", "n"⟩ (departed "m" "team")
      (fetch "n" (.ok (some (leaving "n" "team" ["f"])))) departure.tail
      (fetch "n" (.ok none)) := by
    refine ⟨untracked_departed hempty r "team" (by decide), ⟨_, rfl⟩, fun s hs => ?_, rfl⟩
    rcases List.mem_pair.mp hs with rfl | rfl
    · exact fun heq => nomatch heq
    · exact fun heq => nomatch heq
  refine ⟨r, o, h, he, rfl, ?_, episode_accounted h he⟩
  rw [← launched_eq h]
  exact clear_departure

/-! ## Labels that run together -/

/-- Settings with two projected labels. -/
def zoning : ObserverSettings :=
  { (default : ObserverSettings) with metrics := ⟨"operator", false, ["team", "zone"]⟩ }

/-- A resource that has the zone that is the team of another one. -/
def inZone : Resource := leaving "b" "zone" []

theorem missing_inZone :
    (OrderedMap.find? ((launched zoning).observer.metrics.projection.values inZone.metadata.labels)
      ((launched zoning).terminations (launched zoning).observer.metrics.families
        (departed "a" "team" ++ [fetch "b" (.ok (some inZone))] ++
          [fetch "b" (.ok none)]))).isSome = false := by
  decide +kernel

/-- When it goes after the other one, its termination is not shown under its labels. -/
theorem not_sampled_inZone : ∃ r o,
    Observer.create (Registry.new "operator") ⟨"apps", "Deployment"⟩ zoning = (r, .ok o) ∧
      Episode ⟨o, r⟩ ⟨"", "b"⟩ (departed "a" "team") (fetch "b" (.ok (some inZone))) []
        (fetch "b" (.ok none)) ∧
      firstDeletion ⟨"", "b"⟩ [fetch "b" (.ok (some inZone))] = some .epoch ∧
      ¬ Sampled (o.metrics.projection.values inZone.metadata.labels) (secondsBetween .epoch .epoch)
        ((⟨o, r⟩ : Watch).terminations o.metrics.families
          (departed "a" "team" ++ [fetch "b" (.ok (some inZone))]))
        ((⟨o, r⟩ : Watch).terminations o.metrics.families
          (departed "a" "team" ++ [fetch "b" (.ok (some inZone))] ++ [fetch "b" (.ok none)])) := by
  obtain ⟨r, o, h⟩ := exists_create ⟨"apps", "Deployment"⟩ zoning (by decide +kernel)
  obtain ⟨-, hempty, -⟩ := Observer.fresh_create h
  have hmissing := missing_inZone
  rw [launched_eq h] at hmissing
  refine ⟨r, o, h, ⟨untracked_departed hempty r "team" (by decide), ⟨_, rfl⟩,
    fun s hs => (nomatch hs), rfl⟩, rfl, fun hsampled => ?_⟩
  have hshown := hsampled (o.metrics.projection.values inZone.metadata.labels)
  rw [if_pos rfl] at hshown
  rw [hshown] at hmissing
  cases hmissing

end Watch

end StatusWatch
