import StatusWatch.Proofs.GrowingFamilies
import StatusWatch.Proofs.Presence
import StatusWatch.Proofs.ResourceGauges

/-!
# Reconciles of different keys

Reconciles of different keys may be interleaved in any way. What is remembered and announced
of a key depends on its own steps only. A gauge shows under each tuple what the steps of one
key leave there, and counters and histograms add up, in whatever order. Both need that the
tuples that are written are apart: of two tuples that run together, the one that comes first
is shown.

- `Reordered`: runs with the same steps of each key.
- `total_perm`, `Family.accumulate_perm`: families that grow, written in another order.
- `Family.perm_labelled_of_value?`: families that hold the same.
- `perm_outputs`: what reordered runs put out.
- `gaugeSeries_reordered`, `counterSeries_reordered`, `histogramSeries_reordered`: what they
  show.
- `Inert`: failed steps do nothing but answer their errors.
- `Alike`, `interleaving_indifferent`: all of it, for an observer that was just created.
-/

namespace StatusWatch

open Metrics (Apart Collector ConditionFamilies Family Fresh Histogram LabelTuple Role SeriesIndex
  SeriesOp bucketBounds durationBounds total)

/-- Lists that have the same elements of each key, in the same order, have the same elements. -/
theorem perm_of_filter_eq {β κ : Type} [DecidableEq κ] {keyOf : β → κ} {l l' : List β}
    (h : ∀ k, l'.filter (keyOf · = k) = l.filter (keyOf · = k)) : l'.Perm l := by
  classical
  refine List.perm_iff_count.mpr fun b => ?_
  -- an element occurs as often as it does among those of its key
  have hown : ∀ l : List β, (l.filter (keyOf · = keyOf b)).count b = l.count b := fun l =>
    List.count_filter (decide_eq_true rfl)
  rw [← hown l', h, hown]

namespace Metrics

/-! ## Adding up in another order -/

/-- Totals do not depend on the order of the entries, seen through a view in which it does not
matter which of two entries is added first. -/
theorem total_perm {α β γ κ : Type} [DecidableEq κ] {step : β → Option α → α} {view : α → γ}
    {add : β → Option γ → γ} (hview : ∀ e a, view (step e a) = add e (a.map view))
    (hcomm : ∀ e e' c, add e (some (add e' c)) = add e' (some (add e c)))
    {entries entries' : List (κ × β)} (h : entries'.Perm entries) (k : κ) :
    (total step entries' k).map view = (total step entries k).map view := by
  -- what the view shows of a total is itself a total, of steps that commute
  have hadd : ∀ entries : List (κ × β), (total step entries k).map view = total add entries k := by
    intro entries
    induction entries using List.reverseRecOn with
    | nil => rfl
    | append_singleton entries e ih =>
      rw [total_concat, total_concat]
      split
      · rw [Option.map_some, hview, ih]
      · exact ih
  rw [hadd, hadd]
  exact (h.filter _).foldl_eq' (fun e _ e' _ c => congrArg some (hcomm e'.2 e.2 c)) none

namespace Family

variable {α β γ : Type}

/-- Families that hold the same under each tuple expose the same series, in some order. -/
theorem perm_labelled_of_value? (view : α → γ) {f f' : Family α} (h : f.WellFormed)
    (h' : f'.WellFormed) (hnames : f'.index.labelNames = f.index.labelNames)
    (hvalue : ∀ t, (f'.value? t).map view = (f.value? t).map view) :
    (f'.labelled.map fun s => (s.1, view s.2)).Perm (f.labelled.map fun s => (s.1, view s.2)) := by
  -- seen through the view, the series are what lookups find, each once
  have hmem : ∀ {f : Family α}, f.WellFormed → ∀ t c,
      (t, c) ∈ (f.vec.series.map fun s => (s.1, view s.2)) ↔ (f.value? t).map view = some c := by
    intro f h t c
    simp only [List.mem_map, Option.map_eq_some_iff, value?]
    constructor
    · rintro ⟨s, hs, heq⟩
      cases heq
      exact ⟨s.2, (mem_iff_find? h.tuples s.1 s.2).mp hs, rfl⟩
    · rintro ⟨a, ha, rfl⟩
      exact ⟨(t, a), (mem_iff_find? h.tuples t a).mpr ha, rfl⟩
  have hnodup : ∀ {f : Family α}, f.WellFormed →
      (f.vec.series.map fun s => (s.1, view s.2)).Nodup := by
    intro f h
    refine List.Nodup.of_map (·.1) ?_
    rw [List.map_map]
    exact h.tuples
  have hperm := (List.perm_ext_iff_of_nodup (hnodup h') (hnodup h)).mpr fun s => by
    rw [hmem h', hmem h, hvalue]
  -- both declare the same names, so their series may be compared by tuples
  have hlabels : ∀ f : Family α, (f.labelled.map fun s => (s.1, view s.2)) =
      (f.vec.series.map fun s => (s.1, view s.2)).map
        fun s => (f.index.labelNames.zip s.1, s.2) := by
    intro f
    simp only [labelled, List.map_map, Function.comp_def]
  rw [hlabels, hlabels, hnames]
  exact hperm.map _

/-- An empty family that is written to in another order exposes the same series, in some order,
if the tuples of the entries are apart. -/
theorem accumulate_perm {step : β → Option α → α} (view : α → γ) {add : β → Option γ → γ}
    (hview : ∀ e a, view (step e a) = add e (a.map view))
    (hcomm : ∀ e e' c, add e (some (add e' c)) = add e' (some (add e c)))
    {f : Family α} (h : f.WellFormed) (hempty : f.vec.series = [])
    {entries entries' : List (Labels × β)} (hperm : entries'.Perm entries)
    (hapart : Apart ((tuples f.index entries).map (·.1))) :
    ((f.accumulate step entries').labelled.map fun s => (s.1, view s.2)).Perm
      ((f.accumulate step entries).labelled.map fun s => (s.1, view s.2)) := by
  have htuples : (tuples f.index entries').Perm (tuples f.index entries) := hperm.map _
  have hapart' : Apart ((tuples f.index entries').map (·.1)) :=
    hapart.mono (htuples.map _).subset
  refine perm_labelled_of_value? view (h.accumulate step _) (h.accumulate step _) ?_ fun t => ?_
  · rw [labelNames_accumulate, labelNames_accumulate]
  · rw [value?_accumulate step h hempty _ hapart', value?_accumulate step h hempty _ hapart]
    exact total_perm hview hcomm htuples t

end Family

/-! ## Counts -/

/-- What a histogram counts: the values in each bucket, and all of them. -/
def Histogram.counts (h : Histogram) : List (Float × Nat) × Nat := (h.buckets, h.count)

/-- Count one more value. -/
def countSample (bounds : List Float) (value : Float) (c : Option (List (Float × Nat) × Nat)) :
    List (Float × Nat) × Nat :=
  let c := c.getD (Histogram.empty bounds).counts
  (c.1.map fun b => (b.1, if value ≤ b.1 then b.2 + 1 else b.2), c.2 + 1)

theorem counts_sample (bounds : List Float) (value : Float) (h : Option Histogram) :
    (sample bounds value h).counts = countSample bounds value (h.map Histogram.counts) := by
  cases h <;> rfl

/-- It does not matter which of two values is counted first. -/
theorem countSample_comm (bounds : List Float) (value value' : Float)
    (c : Option (List (Float × Nat) × Nat)) :
    countSample bounds value (some (countSample bounds value' c)) =
      countSample bounds value' (some (countSample bounds value c)) := by
  simp only [countSample, Option.getD_some, List.map_map]
  refine Prod.ext (List.map_congr_left fun b _ => ?_) rfl
  simp only [Function.comp_apply]
  split <;> split <;> rfl

end Metrics

namespace Watch

/-! ## Reordered runs -/

/-- Runs with the same steps of each key, in the same order. -/
def Reordered (steps steps' : List Step) : Prop :=
  ∀ key, stepsOf key steps' = stepsOf key steps

/-- Stretches of a run without a common key may change places. -/
theorem reordered_append_comm {first second : List Step}
    (h : ∀ s ∈ first, ∀ s' ∈ second, s.key ≠ s'.key) :
    Reordered (first ++ second) (second ++ first) := by
  intro key
  unfold stepsOf
  rw [List.filter_append, List.filter_append]
  by_cases hkey : ∃ s ∈ first, s.key = key
  · obtain ⟨s, hs, rfl⟩ := hkey
    have hnone : second.filter (·.key = s.key) = [] := List.filter_eq_nil_iff.mpr fun s' hs' heq =>
      h s hs s' hs' (of_decide_eq_true heq).symm
    rw [hnone, List.append_nil, List.nil_append]
  · have hnone : first.filter (·.key = key) = [] := List.filter_eq_nil_iff.mpr fun s hs heq =>
      hkey ⟨s, hs, of_decide_eq_true heq⟩
    rw [hnone, List.append_nil, List.nil_append]

section Reordered

variable {steps steps' : List Step} (h : Reordered steps steps')

include h

/-- What is put out about each key is the same, so all that is put out is the same. -/
theorem perm_outputs {β : Type} {out : Observer → Step → List β} {keyOf : β → ResourceKey}
    (hout : Keyed out keyOf) (w : Watch) : (w.outputs out steps').Perm (w.outputs out steps) :=
  perm_of_filter_eq fun key => outputs_congr hout (h key)

theorem perm_opsOn (w : Watch) (role : Role) : (w.opsOn role steps').Perm (w.opsOn role steps) :=
  (perm_outputs h (keyed_ops role) w).map _

theorem perm_entriesOn (w : Watch) (role : Role) :
    (w.entriesOn role steps').Perm (w.entriesOn role steps) := (perm_opsOn h w role).filterMap _

theorem ApartOn.reordered {w : Watch} {role : Role} (hapart : w.ApartOn role steps) :
    w.ApartOn role steps' :=
  fun f hf => (hapart f hf).mono ((perm_opsOn h w role).filterMap _).subset

/-- The snapshots are the same. -/
theorem snapshots_reordered (w : Watch) :
    (w.run steps').1.observer.snapshots = (w.run steps).1.observer.snapshots := by
  refine OrderedMap.ext_get? fun key => ?_
  rw [← get?_run_filter (keeps_key key) w steps', ← get?_run_filter (keeps_key key) w steps]
  exact congrArg (fun steps => (w.run steps).1.observer.snapshots.get? key) (h key)

/-- The events about each key are the same, in the same order. -/
theorem events_reordered (w : Watch) (key : ResourceKey) :
    (w.events steps').filter (·.involved.key = key) =
      (w.events steps).filter (·.involved.key = key) := by
  rw [events_eq_outputs, events_eq_outputs]
  exact outputs_congr keyed_published (h key)

end Reordered

/-! ## What is shown -/

/-- The tuples that a run writes to a family that grows are those of its entries. -/
theorem written_of_grows {role : Role} (hrole : role.Grows) (w : Watch) (steps : List Step)
    (c : Collector) :
    (w.opsOn role steps).filterMap (·.written c) =
      (Family.tuples c.index (w.entriesOn role steps)).map (·.1) := by
  rw [opsOn_eq_map hrole, List.filterMap_map, Family.tuples, List.map_map]
  exact congrFun List.filterMap_eq_map _

section Fresh

variable {w : Watch} (hfresh : Fresh w.observer.metrics w.registry) {f : ConditionFamilies}
  (hf : f ∈ w.observer.metrics.surfaces) {steps steps' : List Step} (h : Reordered steps steps')

include hfresh hf h

/-- The operations of reordered runs leave the same under each tuple of a gauge. -/
theorem replay_reordered (g : ResourceGauge) (t : LabelTuple) :
    Metrics.replay (.gauge (g.ref f)) (w.opsOn g.role steps') t =
      Metrics.replay (.gauge (g.ref f)) (w.opsOn g.role steps) t := by
  -- a tuple names at most one key, and reordering leaves the steps on one key in order
  by_cases howner : ∃ key, w.observer.metrics.Owns (.gauge (g.ref f)) key t
  · -- only the operations of the owner matter
    obtain ⟨key, hkey⟩ := howner
    have hidentity := hfresh.identity hf g
    unfold opsOn
    rw [Metrics.ConditionMetrics.replay_of_owner hfresh.projection hidentity
        (fun e he => about_of_mem_outputs he) hkey,
      Metrics.ConditionMetrics.replay_of_owner hfresh.projection hidentity
        (fun e he => about_of_mem_outputs he) hkey,
      outputs_congr (keyed_ops g.role) (h key)]
  · -- nothing was ever written under a tuple of no key
    have hnone : ∀ steps, Metrics.replay (.gauge (g.ref f)) (w.opsOn g.role steps) t = none := by
      intro steps
      rw [← Option.not_isSome_iff_eq_none]
      exact fun hsome => howner (Metrics.ConditionMetrics.exists_owner hfresh.projection
        (fun e he => about_of_mem_outputs he) hsome)
    rw [hnone, hnone]

/-- Gauges show the same series with the same values. -/
theorem gaugeSeries_reordered (g : ResourceGauge) (hapart : w.ApartOn g.role steps) :
    ((w.run steps').1.registry.gaugeSeries (g.ref f)).Perm
      ((w.run steps).1.registry.gaugeSeries (g.ref f)) := by
  obtain ⟨fam, hfam, hreplayed, hexact⟩ := gauge_run hfresh hf g steps
  obtain ⟨fam', hfam', hreplayed', hexact'⟩ := gauge_run hfresh hf g steps'
  unfold Metrics.Registry.gaugeSeries
  rw [hfam, hfam']
  have hperm := Family.perm_labelled_of_value? id hreplayed.wellFormed hreplayed'.wellFormed
    (hreplayed'.names.trans hreplayed.names.symm) fun t => by
      rw [hexact' (hapart.reordered h), hexact hapart, replay_reordered hfresh hf h]
  simpa only [id_eq, List.map_id'] using hperm

/-- The counter shows the same series with the same counts. -/
theorem counterSeries_reordered (hapart : w.ApartOn .transitions steps) :
    ((w.run steps').1.registry.counterSeries f.transitionsTotal).Perm
      ((w.run steps).1.registry.counterSeries f.transitionsTotal) := by
  unfold Metrics.Registry.counterSeries
  rw [counter_run hfresh hf, counter_run hfresh hf]
  have hwritten := hapart f hf
  rw [written_of_grows (Or.inl rfl)] at hwritten
  have hview : ∀ (e : Float) (n : Option Nat),
      id (Metrics.increment e n) = Metrics.increment e (n.map id) := fun e n => by
    rw [Option.map_id]
    rfl
  have hperm := Family.accumulate_perm id hview (fun _ _ _ => rfl) (Family.wellFormed_new _) rfl
    (perm_entriesOn h w .transitions) hwritten
  simp only [id_eq, List.map_id'] at hperm
  exact hperm

/-- A histogram shows the same series with the same counts. -/
theorem histogramSeries_reordered (d : DurationHistogram) (hapart : w.ApartOn d.role steps) :
    (((w.run steps').1.registry.histogramSeries (d.ref f)).map fun s => (s.1, s.2.counts)).Perm
      (((w.run steps).1.registry.histogramSeries (d.ref f)).map fun s => (s.1, s.2.counts)) := by
  unfold Metrics.Registry.histogramSeries
  rw [histogram_run hfresh hf, histogram_run hfresh hf]
  have hwritten := hapart f hf
  rw [written_of_grows d.grows, d.collector_role] at hwritten
  exact Family.accumulate_perm Histogram.counts (Metrics.counts_sample _)
    (Metrics.countSample_comm _)
    (Family.wellFormed_new _) rfl (perm_entriesOn h w d.role) hwritten

/-- However the tuples run together, the counter counts as much in all. -/
theorem sum_counterSeries_reordered :
    (((w.run steps').1.registry.counterSeries f.transitionsTotal).map (·.2)).sum =
      (((w.run steps).1.registry.counterSeries f.transitionsTotal).map (·.2)).sum := by
  unfold Metrics.Registry.counterSeries
  rw [counter_run hfresh hf, counter_run hfresh hf]
  have hsum := fun steps => Family.sum_increments
    (Family.wellFormed_new f.transitionsTotal.descriptor) (w.entriesOn .transitions steps)
  refine (hsum steps').trans ((hsum steps).trans ?_).symm
  rw [(perm_entriesOn h w .transitions).length_eq]

/-- And a histogram as many samples. -/
theorem sum_histogramSeries_reordered (d : DurationHistogram) :
    (((w.run steps').1.registry.histogramSeries (d.ref f)).map (·.2.count)).sum =
      (((w.run steps).1.registry.histogramSeries (d.ref f)).map (·.2.count)).sum := by
  unfold Metrics.Registry.histogramSeries
  rw [histogram_run hfresh hf, histogram_run hfresh hf]
  have hsum := fun steps => Family.sum_samples (bucketBounds durationBounds)
    (Family.wellFormed_new (d.ref f).descriptor) (w.entriesOn d.role steps)
  refine (hsum steps').trans ((hsum steps).trans ?_).symm
  rw [(perm_entriesOn h w d.role).length_eq]

end Fresh

/-! ## Failed steps -/

/-- A document that is no resource makes the fetch fail. -/
theorem fetch_of_rejected {source : DocumentSource} {key : ResourceKey} {payload : Json}
    {cause : AdaptError} (hstore : (source.store.fetch key).2 = .ok none)
    (hpayload : source.documents.get? key = some payload)
    (hrejected : Resource.ofDocument payload source.conditionTypes = .error cause) :
    (source.fetch key).2 = .error (.conversion (.adapt cause)) := by
  simp only [DocumentSource.fetch, hstore, hpayload, hrejected]

/-- Leaving failed steps out changes nothing of what is put out. -/
theorem outputs_succeeding {β : Type} {out : Observer → Step → List β} {keyOf : β → ResourceKey}
    (hout : Keyed out keyOf) (w : Watch) (steps : List Step) :
    w.outputs out (steps.filter Step.succeeds) = w.outputs out steps := by
  induction steps using List.reverseRecOn with
  | nil => rfl
  | append_singleton steps s ih =>
    rw [List.filter_append, outputs_concat, List.filter_singleton]
    cases hs : s.succeeds with
    | true => rw [cond_true, outputs_concat, ih, run_succeeding]
    | false => rw [cond_false, List.append_nil, ih, hout.failed _ _ hs, List.append_nil]

/-- A failed step answers its error. -/
theorem answers_of_failed (steps : List Step) : ∀ w : Watch,
    List.Forall₂ (fun s answer => ∀ e, s.fetched = .error e → answer = ⟨.error e, []⟩)
      steps (w.run steps).2 := by
  induction steps with
  | nil => exact fun _ => .nil
  | cons s steps ih =>
    intro w
    rw [run_cons]
    refine .cons (fun e he => ?_) (ih _)
    rw [he]
    rfl

/-- The failed steps of a run do nothing but answer their errors. -/
structure Inert (w : Watch) (steps : List Step) : Prop where
  /-- The run leads to the same state without them. -/
  state : (w.run (steps.filter Step.succeeds)).1 = (w.run steps).1
  /-- The same events are published without them. -/
  events : w.events (steps.filter Step.succeeds) = w.events steps
  answers : List.Forall₂ (fun s answer => ∀ e, s.fetched = .error e → answer = ⟨.error e, []⟩)
    steps (w.run steps).2
  /-- A step fails whose key has a document that is no resource. -/
  rejected : ∀ s ∈ steps, ∀ (source : DocumentSource) (payload : Json) (cause : AdaptError),
    s.fetched = (source.fetch s.key).2 → (source.store.fetch s.key).2 = .ok none →
      source.documents.get? s.key = some payload →
      Resource.ofDocument payload source.conditionTypes = .error cause →
      s.fetched = .error (.conversion (.adapt cause))

theorem inert_run (w : Watch) (steps : List Step) : w.Inert steps where
  state := run_succeeding w steps
  events := by rw [events_eq_outputs, events_eq_outputs, outputs_succeeding keyed_published]
  answers := answers_of_failed steps w
  rejected _ _ _ _ _ hs hstore hpayload hrejected :=
    hs.trans (fetch_of_rejected hstore hpayload hrejected)

/-! ## All of it -/

/-- What two runs of an observer have in common. -/
structure Alike (w : Watch) (steps steps' : List Step) : Prop where
  snapshots : (w.run steps').1.observer.snapshots = (w.run steps).1.observer.snapshots
  /-- The same is announced of each key, in the same order. -/
  events : ∀ key : ResourceKey, (w.events steps').filter (·.involved.key = key) =
    (w.events steps).filter (·.involved.key = key)
  /-- A gauge shows the same values, if the tuples that are written to it are apart. -/
  gauges : ∀ f ∈ w.observer.metrics.surfaces, ∀ g : ResourceGauge, w.ApartOn g.role steps →
    ((w.run steps').1.registry.gaugeSeries (g.ref f)).Perm
      ((w.run steps).1.registry.gaugeSeries (g.ref f))
  /-- So does the counter. -/
  counters : ∀ f ∈ w.observer.metrics.surfaces, w.ApartOn .transitions steps →
    ((w.run steps').1.registry.counterSeries f.transitionsTotal).Perm
      ((w.run steps).1.registry.counterSeries f.transitionsTotal)
  /-- A histogram shows the same counts, in each bucket and in all. -/
  histograms : ∀ f ∈ w.observer.metrics.surfaces, ∀ d : DurationHistogram, w.ApartOn d.role steps →
    (((w.run steps').1.registry.histogramSeries (d.ref f)).map fun s => (s.1, s.2.counts)).Perm
      (((w.run steps).1.registry.histogramSeries (d.ref f)).map fun s => (s.1, s.2.counts))
  /-- Whatever the tuples are, as many transitions are counted. -/
  counted : ∀ f ∈ w.observer.metrics.surfaces,
    (((w.run steps').1.registry.counterSeries f.transitionsTotal).map (·.2)).sum =
      (((w.run steps).1.registry.counterSeries f.transitionsTotal).map (·.2)).sum
  /-- And as many durations are sampled. -/
  sampled : ∀ f ∈ w.observer.metrics.surfaces, ∀ d : DurationHistogram,
    (((w.run steps').1.registry.histogramSeries (d.ref f)).map (·.2.count)).sum =
      (((w.run steps).1.registry.histogramSeries (d.ref f)).map (·.2.count)).sum

/-- Reconciles of different keys may be interleaved in any way, as far as the tuples that they
write are apart, and failed ones may be left out. -/
theorem interleaving_indifferent {scope : String} {g : GroupKind} {settings : ObserverSettings}
    {r : Metrics.Registry} {o : Observer}
    (h : Observer.create (Metrics.Registry.new scope) g settings = (r, .ok o))
    {steps steps' : List Step} (hsteps : Reordered steps steps') :
    Alike ⟨o, r⟩ steps steps' ∧ Inert ⟨o, r⟩ steps := by
  obtain ⟨hfresh, -⟩ := Observer.fresh_create h
  refine ⟨?_, inert_run _ _⟩
  exact
    { snapshots := snapshots_reordered hsteps _
      events := events_reordered hsteps _
      gauges := fun f hf g hapart => gaugeSeries_reordered hfresh hf hsteps g hapart
      counters := fun f hf hapart => counterSeries_reordered hfresh hf hsteps hapart
      histograms := fun f hf d hapart => histogramSeries_reordered hfresh hf hsteps d hapart
      counted := fun f hf => sum_counterSeries_reordered hfresh hf hsteps
      sampled := fun f hf d => sum_histogramSeries_reordered hfresh hf hsteps d }

/-- The polls of one resource. -/
def polled (name : String) : List Step :=
  [⟨.epoch, ⟨"", name⟩, .ok (some (ready "" name .true))⟩, ⟨.epoch, ⟨"", name⟩, .error .cancelled⟩,
    ⟨.epoch, ⟨"", name⟩, .ok (some (ready "" name .false))⟩, ⟨.epoch, ⟨"", name⟩, .ok none⟩]

theorem key_of_mem_polled {name : String} {s : Step} (hs : s ∈ polled name) :
    s.key = ⟨"", name⟩ := by
  simp only [polled, List.mem_cons, List.not_mem_nil, or_false] at hs
  rcases hs with rfl | rfl | rfl | rfl <;> rfl

/-- What is written about two of them is apart. -/
theorem apart_polled (role : Role) :
    (launched projecting).ApartOn role (polled "n" ++ polled "m") := by
  have hall : ∀ role ∈ [Role.count, .age, .transitions, .stays, .terminating, .terminations],
      (launched projecting).ApartOn role (polled "n" ++ polled "m") := by
    decide +kernel
  exact hall role (by cases role <;> decide)

/-- One resource is polled after another, or the other first. -/
theorem interleaving_indifferent_polled : ∃ r o,
    Observer.create (Metrics.Registry.new "operator") ⟨"apps", "Deployment"⟩ projecting =
        (r, .ok o) ∧
      Reordered (polled "n" ++ polled "m") (polled "m" ++ polled "n") ∧
      (∀ role, (⟨o, r⟩ : Watch).ApartOn role (polled "n" ++ polled "m")) ∧
      Alike ⟨o, r⟩ (polled "n" ++ polled "m") (polled "m" ++ polled "n") ∧
      Inert ⟨o, r⟩ (polled "n" ++ polled "m") := by
  obtain ⟨r, o, h⟩ := create_projecting
  have hreordered : Reordered (polled "n" ++ polled "m") (polled "m" ++ polled "n") := by
    refine reordered_append_comm fun s hs s' hs' => ?_
    rw [key_of_mem_polled hs, key_of_mem_polled hs']
    decide
  refine ⟨r, o, h, hreordered, fun role => ?_, interleaving_indifferent h hreordered⟩
  rw [← launched_eq h]
  exact apart_polled role

/-! ## Names that run together -/

/-- Of two resources whose names run together, the one that is reconciled first is shown. -/
theorem shown_runTogether :
    (∀ s ∈ ((launched default).run runTogether).1.registry.gaugeSeries
          (launched default).observer.metrics.families.count,
        (Metrics.namespaceLabel, "a") ∈ s.1) ∧
      ∃ s ∈ ((launched default).run runTogether.reverse).1.registry.gaugeSeries
          (launched default).observer.metrics.families.count,
        (Metrics.namespaceLabel, "a") ∉ s.1 := by
  decide +kernel

/-- So it matters how they are interleaved. -/
theorem not_indifferent_runTogether : ∃ r o,
    Observer.create (Metrics.Registry.new "operator") ⟨"apps", "Deployment"⟩ default =
        (r, .ok o) ∧
      Reordered runTogether runTogether.reverse ∧
      ¬ (((⟨o, r⟩ : Watch).run runTogether.reverse).1.registry.gaugeSeries
          o.metrics.families.count).Perm
        (((⟨o, r⟩ : Watch).run runTogether).1.registry.gaugeSeries o.metrics.families.count) := by
  obtain ⟨r, o, h⟩ := create_default
  refine ⟨r, o, h, ?_, fun hperm => ?_⟩
  · refine @reordered_append_comm [_] [_] fun s hs s' hs' => ?_
    rw [List.mem_singleton.mp hs, List.mem_singleton.mp hs']
    decide
  · obtain ⟨hfirst, s, hs, hother⟩ := shown_runTogether
    rw [launched_eq h] at hfirst hs
    exact hother (hfirst s (hperm.subset hs))

end Watch

end StatusWatch
