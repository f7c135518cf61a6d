import StatusWatch.Proofs.Mirrors

/-!
# Shared families mirror those of a kind

Counters and histograms only grow, so a shared one counts what the ones of the kind count together.
With the gauges, everything that a handle shares mirrors what it has for itself. This holds of every
run in which the tuples that are written to a family are apart; of two that run together, only the
first is shown.

- `hits_shared`, `sum_hits`: the entries of a stem are those of its tuples; `measure_eq_sum`: so
  what is counted in a shared family is the sum over the kind.
- `shown_gauge`, `shown_grown`: families that hold what they see show what is left.
- `mirrored_of_housed`: the families of a handle mirror each other.
- `shared_mirrors`: the families of a handle after any run.
-/

namespace StatusWatch.Metrics

/-! ## Sums -/

/-- A write, as it is done. -/
def SeriesOp.ofEntry (e : Labels × Float) : SeriesOp := .write e.1 e.2

/-- Of writes alone, every one leaves something. -/
theorem replay_ofEntry (c : Collector) (entries : List (Labels × Float)) (t : LabelTuple) :
    (replay c (entries.map SeriesOp.ofEntry) t).isSome ↔
      t ∈ entries.map fun e => c.index.tuple e.1 := by
  induction entries using List.reverseRecOn with
  | nil => simp [replay]
  | append_singleton entries e ih =>
    rw [List.map_append, List.map_append, List.map_singleton, List.map_singleton, replay_concat,
      List.mem_append, List.mem_singleton, ← ih]
    show (if c.index.tuple e.1 = t then some e.2 else _).isSome ↔ _
    by_cases ht : c.index.tuple e.1 = t
    · simp [ht]
    · simp [ht, Ne.symm ht]

/-- Elements that are counted by classes are all counted. -/
theorem sum_countP {κ : Type} [DecidableEq κ] {l : List κ} (p : κ → Bool) {ks : List κ}
    (hks : ks.Nodup) (hall : ∀ k ∈ l, k ∈ ks) :
    ((ks.filter p).map fun k => l.countP fun k' => decide (k' = k)).sum = l.countP p := by
  have hcount : ∀ k, l.countP (fun k' => decide (k' = k)) = l.count k := fun k =>
    List.countP_congr fun k' _ => by simp
  simp only [hcount, sum_counts l p hks]
  exact List.countP_congr fun k hk => by simp [hall k hk]

section Sums

variable {entries : List (Labels × Float)} (q : Float → Bool)

/-- How often a tuple was written with values of some sort. -/
def hits (c : Collector) (entries : List (Labels × Float)) (t : LabelTuple) : Nat :=
  entries.countP fun e => q e.2 && decide (c.index.tuple e.1 = t)

theorem hits_eq (c : Collector) (t : LabelTuple) : hits q c entries t =
    ((entries.map SeriesOp.ofEntry).filter (·.touches c t)).countP fun op => op.left.any q := by
  unfold hits
  rw [List.countP_filter, List.countP_map]
  rfl

variable {m : ConditionMetrics} (hm : m.Laid) {f : ConditionFamilies} (hf : m.legacy = some f)
  {role : Role} {log : Log} (hscoped : log.Scoped)
  (hkinds : ∀ e ∈ log, e.1.groupKind = m.groupKind → e.1 = m)
  (hentries : log.through m role = entries.map SeriesOp.ofEntry)

include hm hf hscoped hkinds hentries in
/-- A shared tuple of a kind was written as often as its stem. -/
theorem hits_shared {all : List (Labels × Float)}
    (hall : log.seen f role = all.map SeriesOp.ofEntry) {u : LabelTuple}
    (hfull : u.length = (f.collector role).descriptor.labelNames.length)
    (hu : IsOf m.groupKind (f.collector role) u) :
    hits q (f.collector role) all u =
      hits q role.stem entries ((f.collector role).index.values role.names u) := by
  rw [hits_eq, hits_eq, ← hall, ← hentries,
    Log.filter_touches hscoped hf hkinds (hm.shared f hf role) hfull hu]

variable {α : Type} {kind : Family α}
  (hkind : ShowsLeft (m.families.collector role) (log.through m role) kind)

include hm hentries hkind

/-- The tuples of a kind with one stem were written as often as the stem. -/
theorem sum_hits (measure : α → Nat) (hmeasure : ∀ t a, kind.value? t = some a →
      measure a = hits q (m.families.collector role) entries t) {σ : LabelTuple}
    (hσ : σ.length = role.names.length) :
    ((standingFor (role.names.zip σ) kind.labelled).map measure).sum =
      hits q role.stem entries σ := by
  have hwritten : ∀ e ∈ entries,
      (m.families.collector role).index.tuple e.1 ∈ kind.vec.series.map (·.1) := by
    intro e he
    obtain ⟨a, ha⟩ := (hkind.exists_series_iff _).mpr (by
      rw [hentries, replay_ofEntry]
      exact List.mem_map_of_mem (f := fun e => (m.families.collector role).index.tuple e.1) he)
    exact List.mem_map_of_mem (f := (·.1)) ha
  let written := (entries.filter fun e => q e.2).map fun e =>
    (m.families.collector role).index.tuple e.1
  let ofStem := fun t : LabelTuple =>
    decide ((m.families.collector role).index.values role.names t = σ)
  have hall : ∀ t ∈ written, t ∈ kind.vec.series.map (·.1) := by
    intro t ht
    obtain ⟨e, he, rfl⟩ := List.mem_map.mp ht
    exact hwritten e (List.mem_of_mem_filter he)
  -- every series counts how often its tuple was written, and every tuple has one series
  calc ((standingFor (role.names.zip σ) kind.labelled).map measure).sum
      = (((kind.vec.series.map (·.1)).filter ofStem).map fun t =>
          written.countP fun t' => decide (t' = t)).sum := by
        unfold standingFor
        rw [erased_labelled hm hkind, List.filter_map, List.map_map, List.map_map, List.filter_map,
          List.map_map]
        refine congrArg List.sum ?_
        refine (congrArg (List.map _) (List.filter_congr fun s _ => ?_)).trans
          (List.map_congr_left fun s hs => ?_)
        · exact decide_eq_decide.mpr
            ⟨zip_names_inj (List.length_map _) hσ, fun heq => congrArg (role.names.zip ·) heq⟩
        · refine (hmeasure s.1 s.2
            ((hkind.mem_series s.1 s.2).mp (List.mem_of_mem_filter hs))).trans ?_
          unfold hits
          rw [Function.comp_apply, List.countP_map, List.countP_filter]
          exact List.countP_congr fun e _ => by simp [and_comm]
    _ = written.countP ofStem := sum_countP ofStem hkind.wellFormed.tuples hall
    _ = hits q role.stem entries σ := by
        unfold hits
        rw [List.countP_map, List.countP_filter]
        refine List.countP_congr fun e _ => ?_
        have hvalues := values_tuple (names_subset_kind (hm.kind role)) e.1
        simp [ofStem, hvalues, and_comm]

include hf hscoped hkinds in
/-- What a shared series counts is the sum of what is counted by the series that it stands for. -/
theorem measure_eq_sum (measure : α → Nat) {all : List (Labels × Float)}
    (hall : log.seen f role = all.map SeriesOp.ofEntry) {shared : Family α}
    (hshared : ShowsLeft (f.collector role) (log.seen f role) shared)
    (hmeasure : ∀ t a, kind.value? t = some a →
      measure a = hits q (m.families.collector role) entries t)
    (hmeasure' : ∀ u a, shared.value? u = some a → measure a = hits q (f.collector role) all u) :
    ∀ s ∈ aboutKind m.groupKind shared.labelled,
      measure s.2 = ((standingFor s.1 kind.labelled).map measure).sum := by
  rw [aboutKind_labelled hm hf hshared]
  intro s hs
  obtain ⟨⟨u, a⟩, hu, rfl⟩ := List.mem_map.mp hs
  obtain ⟨hu, hof⟩ := List.mem_filter.mp hu
  have hcounted := hmeasure' u a ((hshared.mem_series u a).mp hu)
  rw [hits_shared q hm hf hscoped hkinds hentries hall (hshared.full hu) (of_decide_eq_true hof)]
    at hcounted
  exact hcounted.trans (sum_hits q hm hentries hkind measure hmeasure (List.length_map _)).symm

end Sums

/-! ## Families that hold what they see -/

theorem shown_gauge {c : Collector} {ops : List SeriesOp}
    (hapart : Apart (ops.filterMap (·.written c))) :
    ShowsLeft c ops (ops.foldl (fun f op => op.onGauge c f) (Family.new c.descriptor)) where
  wellFormed := (replayed_foldl c ops).wellFormed
  names := (replayed_foldl c ops).names
  shown t := by rw [value?_foldl c ops hapart t]

section Grown

variable {α : Type} {c : Collector} {entries : List (Labels × Float)}
  (hapart : Apart ((entries.map SeriesOp.ofEntry).filterMap (·.written c)))
  (step : Float → Option α → α)

include hapart

theorem value?_grown (t : LabelTuple) :
    ((Family.new c.descriptor).accumulate step entries).value? t =
      total step (entries.map fun e => (c.index.tuple e.1, e.2)) t := by
  refine Family.value?_accumulate step (Family.wellFormed_new _) rfl entries ?_ t
  refine hapart.mono fun t ht => ?_
  obtain ⟨e', he', rfl⟩ := List.mem_map.mp ht
  obtain ⟨e, he, rfl⟩ := List.mem_map.mp he'
  exact List.mem_filterMap.mpr ⟨_, List.mem_map_of_mem he, rfl⟩

theorem shown_grown : ShowsLeft c (entries.map SeriesOp.ofEntry)
    ((Family.new c.descriptor).accumulate step entries) where
  wellFormed := (Family.wellFormed_new _).accumulate step entries
  names := Family.labelNames_accumulate step _ entries
  shown t := by
    rw [value?_grown hapart, total_isSome_iff, replay_ofEntry, List.map_map]
    rfl

end Grown

/-- A counter counts the writes to its tuple. -/
theorem counter_hits {c : Collector} {entries : List (Labels × Float)}
    (hapart : Apart ((entries.map SeriesOp.ofEntry).filterMap (·.written c))) {t : LabelTuple}
    {n : Nat}
    (h : ((Family.new c.descriptor).accumulate increment entries).value? t = some n) :
    n = hits (fun _ => true) c entries t := by
  rw [value?_grown hapart] at h
  rw [countP_of_total_increment h, List.countP_map]
  unfold hits
  exact List.countP_congr fun e _ => by simp

/-- A histogram counts the writes to its tuple, by bounds. -/
theorem histogram_hits {c : Collector} {bounds : List Float} {entries : List (Labels × Float)}
    (hapart : Apart ((entries.map SeriesOp.ofEntry).filterMap (·.written c))) {t : LabelTuple}
    {h : Histogram}
    (ht : ((Family.new c.descriptor).accumulate (sample bounds) entries).value? t = some h) :
    h.count = hits (fun _ => true) c entries t ∧
      h.buckets = bounds.map fun b => (b, hits (fun v => decide (v ≤ b)) c entries t) := by
  rw [value?_grown hapart] at ht
  have hcounts := counts_of_total_sample bounds
    (entries.map fun e => (c.index.tuple e.1, e.2)) t
  rw [ht, Option.getD_some] at hcounts
  simp only [List.countP_map] at hcounts
  refine ⟨hcounts.1.trans ?_, hcounts.2⟩
  unfold hits
  exact List.countP_congr fun e _ => by simp

/-- A bucket with a count of values counts those that are at most its bound. -/
theorem inBucket_of_hits {bounds : List Float} {c : Collector} {entries : List (Labels × Float)}
    {t : LabelTuple} {b : Histogram}
    (hb : b.buckets =
      bounds.map fun bound => (bound, hits (fun v => decide (v ≤ bound)) c entries t)) (i : Nat) :
    b.inBucket i = hits (fun v => bounds[i]?.any fun bound => decide (v ≤ bound)) c entries t := by
  unfold Histogram.inBucket
  rw [hb, List.getElem?_map]
  cases bounds[i]? with
  | none => exact (List.countP_eq_zero.mpr fun e _ => by simp).symm
  | some bound => rfl

/-- What stands for a series is the value of a series. -/
theorem value?_of_standingFor {α : Type} {fam : Family α} (h : fam.WellFormed)
    {labels : List (String × String)} {a : α} (ha : a ∈ standingFor labels fam.labelled) :
    ∃ t, fam.value? t = some a := by
  obtain ⟨s, hs, rfl⟩ := List.mem_map.mp ha
  obtain ⟨s', hs', rfl⟩ := List.mem_map.mp (List.mem_of_mem_filter hs)
  obtain ⟨s'', hs'', rfl⟩ := List.mem_map.mp hs'
  exact ⟨s''.1, (mem_iff_find? h.tuples _ _).mp hs''⟩

theorem value?_of_aboutKind {α : Type} {fam : Family α} (h : fam.WellFormed) {g : GroupKind}
    {s : List (String × String) × α} (hs : s ∈ aboutKind g fam.labelled) :
    ∃ t, fam.value? t = some s.2 := by
  obtain ⟨s', hs', rfl⟩ := List.mem_map.mp hs
  obtain ⟨s'', hs'', rfl⟩ := List.mem_map.mp (List.mem_of_mem_filter hs')
  exact ⟨s''.1, (mem_iff_find? h.tuples _ _).mp hs''⟩

/-! ## Runs -/

namespace Log

/-- Everything in the log was called through its handle. -/
def Called (log : Log) : Prop := ∀ e ∈ log, ∃ call : Call, e.2 = call.ops e.1

theorem Called.scoped {log : Log} (h : log.Called)
    (hlaid : ∀ e ∈ log, e.1.projection.WellFormed) : log.Scoped := by
  intro e he op hop
  obtain ⟨call, hcall⟩ := h e he
  exact call.scoped (hlaid e he) (hcall ▸ hop)

/-- Nothing is deleted from counters and histograms. -/
theorem Called.writes {log : Log} (h : log.Called) {role : Role}
    (hgauge : ∀ g : ResourceGauge, g.role ≠ role) (p : ConditionMetrics × RoleOps → Bool) :
    ∃ entries : List (Labels × Float),
      (log.filter p).flatMap (fun e => RoleOps.on e.2 role) = entries.map SeriesOp.ofEntry := by
  have hone : ∀ (m : ConditionMetrics) (call : Call), ∃ entries : List (Labels × Float),
      RoleOps.on (call.ops m) role = entries.map SeriesOp.ofEntry := by
    intro m call
    have hcount : Role.count ≠ role := hgauge (.presence .count)
    have hage : Role.age ≠ role := hgauge (.presence .age)
    have hterminating : Role.terminating ≠ role := hgauge .terminating
    cases call with
    | setCondition key labels c now =>
      exact ⟨[], by simp [Call.ops, ConditionMetrics.conditionOps, RoleOps.on, hcount, hage]⟩
    | deleteCondition key c =>
      exact ⟨[], by simp [Call.ops, ConditionMetrics.staleOps, RoleOps.on, hcount, hage]⟩
    | setTermination key labels seconds =>
      exact ⟨[], by simp [Call.ops, ConditionMetrics.terminatingOps, RoleOps.on, hterminating]⟩
    | forget key =>
      exact ⟨[], by
        simp [Call.ops, ConditionMetrics.forgetOps, RoleOps.on, hcount, hage, hterminating]⟩
    | recordTransition labels c =>
      by_cases hr : Role.transitions = role
      · exact ⟨[(m.labelSet none labels (ConditionMetrics.stateOf c), 1.0)], by
          simp [Call.ops, ConditionMetrics.transitionOps, RoleOps.on, hr, SeriesOp.ofEntry]⟩
      · exact ⟨[], by simp [Call.ops, ConditionMetrics.transitionOps, RoleOps.on, hr]⟩
    | observeTransition labels old seconds =>
      by_cases hr : Role.stays = role
      · exact ⟨[(m.stayLabels labels old, seconds)], by
          simp [Call.ops, ConditionMetrics.stayOps, RoleOps.on, hr, SeriesOp.ofEntry]⟩
      · exact ⟨[], by simp [Call.ops, ConditionMetrics.stayOps, RoleOps.on, hr]⟩
    | observeTermination labels seconds =>
      by_cases hr : Role.terminations = role
      · exact ⟨[(m.labelSet none labels [], seconds)], by
          simp [Call.ops, ConditionMetrics.terminationOps, RoleOps.on, hr, SeriesOp.ofEntry]⟩
      · exact ⟨[], by simp [Call.ops, ConditionMetrics.terminationOps, RoleOps.on, hr]⟩
  induction log with
  | nil => exact ⟨[], rfl⟩
  | cons e log ih =>
    obtain ⟨rest, hrest⟩ := ih fun e' he' => h e' (List.mem_cons_of_mem _ he')
    rw [List.filter_cons]
    split
    · obtain ⟨call, hcall⟩ := h e List.mem_cons_self
      obtain ⟨first, hfirst⟩ := hone e.1 call
      refine ⟨first ++ rest, ?_⟩
      rw [List.flatMap_cons, hrest, hcall, hfirst, List.map_append]
    · exact ⟨rest, hrest⟩

end Log

theorem gaugeSeries_of_at? {r : Registry} {ref : GaugeRef} {fam : Family Float}
    (h : r.at? (.gauge ref) = some (.gauge fam)) : r.gaugeSeries ref = fam.labelled := by
  obtain ⟨fam', hfam', heq⟩ := Option.map_eq_some_iff.mp h
  cases heq
  unfold Registry.gaugeSeries
  rw [hfam']

theorem counterSeries_of_at? {r : Registry} {ref : CounterRef} {fam : Family Nat}
    (h : r.at? (.counter ref) = some (.counter fam)) : r.counterSeries ref = fam.labelled := by
  obtain ⟨fam', hfam', heq⟩ := Option.map_eq_some_iff.mp h
  cases heq
  unfold Registry.counterSeries
  rw [hfam']

theorem histogramSeries_of_at? {r : Registry} {ref : HistogramRef} {fam : HistogramFamily}
    (h : r.at? (.histogram ref) = some (.histogram fam)) :
    r.histogramSeries ref = fam.family.labelled := by
  obtain ⟨fam', hfam', heq⟩ := Option.map_eq_some_iff.mp h
  cases heq
  unfold Registry.histogramSeries
  rw [hfam']

section Housed

variable {r : Registry} {ms : List ConditionMetrics} {log : Log} (h : Housed r ms log)
  (hcalled : log.Called)
  (hkinds : ∀ a ∈ ms, ∀ b ∈ ms, a.groupKind = b.groupKind → a = b) {m : ConditionMetrics}
  (hm : m ∈ ms) {f : ConditionFamilies} (hf : m.legacy = some f)

include h

theorem Housed.scoped (hcalled : log.Called) : log.Scoped :=
  hcalled.scoped fun e he => (h.laid e.1 (h.logged e he)).projection

include hm

/-- The families of a kind see what is done through the handle of the kind. -/
theorem Housed.seen_families (role : Role) : log.seen m.families role = log.through m role :=
  Log.seen_eq_through (fun e he hfam => h.own m hm e.1 (h.logged e he) hfam) role

include hcalled hf

include hkinds in
theorem gaugeMirror_of_housed (g : ResourceGauge) (hapart : log.ApartOn m g.role) :
    GaugeMirror m.groupKind (writesOn g.role (log.through m g.role))
      (r.gaugeSeries (g.ref m.families)) (r.gaugeSeries (g.ref f)) := by
  have hmem : f ∈ m.surfaces := ConditionMetrics.mem_surfaces_of_legacy hf
  have hheld : ∀ f ∈ m.surfaces, r.gaugeSeries (g.ref f) = ((log.seen f g.role).foldl
      (fun fam op => op.onGauge (f.collector g.role) fam)
        (Family.new (f.collector g.role).descriptor)).labelled := by
    intro f hf
    have hat := h.holds m hm f hf g.role
    rw [g.collector_role] at hat ⊢
    exact gaugeSeries_of_at? (hat.trans (congrArg some (foldl_onGauge _ _ _)))
  have hapart₁ := hapart m.families List.mem_cons_self
  have hapart₂ := hapart f hmem
  rw [hheld m.families List.mem_cons_self, hheld f hmem]
  rw [h.seen_families hm] at hapart₁ ⊢
  exact gaugeMirror (h.laid m hm) hf (h.scoped hcalled)
    (fun e he => hkinds e.1 (h.logged e he) m hm) (shown_gauge hapart₁) (shown_gauge hapart₂)
    (value?_foldl _ _ hapart₁) (value?_foldl _ _ hapart₂)

/-- Families that are never deleted from, with what was written to them. -/
theorem grown_of_housed {role : Role} (hgauge : ∀ g : ResourceGauge, g.role ≠ role)
    (hapart : log.ApartOn m role) : ∃ own all : List (Labels × Float),
      log.through m role = own.map .ofEntry ∧ log.seen f role = all.map .ofEntry ∧
      Apart ((own.map SeriesOp.ofEntry).filterMap (·.written (m.families.collector role))) ∧
      Apart ((all.map SeriesOp.ofEntry).filterMap (·.written (f.collector role))) ∧
      r.at? (m.families.collector role) = some ((own.map SeriesOp.ofEntry).foldl
        (fun a op => op.apply (m.families.collector role) a) (m.families.collector role).blank) ∧
      r.at? (f.collector role) = some ((all.map SeriesOp.ofEntry).foldl
        (fun a op => op.apply (f.collector role) a) (f.collector role).blank) := by
  have hmem : f ∈ m.surfaces := ConditionMetrics.mem_surfaces_of_legacy hf
  obtain ⟨own, hown⟩ := hcalled.writes hgauge fun e => decide (e.1 = m)
  obtain ⟨all, hall⟩ := hcalled.writes hgauge fun e => decide (f ∈ e.1.surfaces)
  have hown : log.through m role = own.map .ofEntry := hown
  have hall : log.seen f role = all.map .ofEntry := hall
  have hat := h.holds m hm m.families List.mem_cons_self role
  have hat' := h.holds m hm f hmem role
  have hapart₁ := hapart m.families List.mem_cons_self
  have hapart₂ := hapart f hmem
  rw [h.seen_families hm, hown] at hat hapart₁
  rw [hall] at hat' hapart₂
  exact ⟨own, all, hown, hall, hapart₁, hapart₂, hat, hat'⟩

include hkinds

theorem counterMirror_of_housed (hapart : log.ApartOn m .transitions) :
    CounterMirror m.groupKind (r.counterSeries m.families.transitionsTotal)
      (r.counterSeries f.transitionsTotal) := by
  have hgauge : ∀ g : ResourceGauge, g.role ≠ .transitions := by
    rintro (⟨⟨⟩⟩ | _) <;> exact fun heq => nomatch heq
  obtain ⟨own, all, hown, hall, hapart₁, hapart₂, hat, hat'⟩ :=
    grown_of_housed h hcalled hm hf hgauge hapart
  rw [counterSeries_of_at? (hat.trans (congrArg some (foldl_increments _ own _))),
    counterSeries_of_at? (hat'.trans (congrArg some (foldl_increments _ all _)))]
  have hkind := shown_grown hapart₁ (increment (β := Float))
  have hshared := shown_grown hapart₂ (increment (β := Float))
  rw [← hown] at hkind
  rw [← hall] at hshared
  have hothers : ∀ e ∈ log, e.1.groupKind = m.groupKind → e.1 = m :=
    fun e he => hkinds e.1 (h.logged e he) m hm
  refine ⟨sameSeries (h.laid m hm) hf (h.scoped hcalled) hothers hkind hshared, fun s hs => ?_⟩
  have hsum := measure_eq_sum (fun _ => true) (h.laid m hm) hf (h.scoped hcalled) hothers hown hkind
    id hall hshared (fun _ _ => counter_hits hapart₁) (fun _ _ => counter_hits hapart₂) s hs
  rwa [List.map_id] at hsum

theorem histogramMirror_of_housed {role : Role} (hgauge : ∀ g : ResourceGauge, g.role ≠ role)
    (hapart : log.ApartOn m role) {ref ref' : HistogramRef}
    (href : m.families.collector role = .histogram ref)
    (href' : f.collector role = .histogram ref') :
    HistogramMirror m.groupKind (r.histogramSeries ref) (r.histogramSeries ref') := by
  obtain ⟨own, all, hown, hall, hapart₁, hapart₂, hat, hat'⟩ :=
    grown_of_housed h hcalled hm hf hgauge hapart
  let bounds := bucketBounds durationBounds
  have hheld : r.at? (.histogram ref) = some (.histogram ⟨bounds,
      (Family.new (m.families.collector role).descriptor).accumulate (sample bounds) own⟩) := by
    rw [href] at hat ⊢
    exact hat.trans (congrArg some (foldl_samples _ own _))
  have hheld' : r.at? (.histogram ref') = some (.histogram ⟨bounds,
      (Family.new (f.collector role).descriptor).accumulate (sample bounds) all⟩) := by
    rw [href'] at hat' ⊢
    exact hat'.trans (congrArg some (foldl_samples _ all _))
  rw [histogramSeries_of_at? hheld, histogramSeries_of_at? hheld']
  have hkind := shown_grown hapart₁ (sample bounds)
  have hshared := shown_grown hapart₂ (sample bounds)
  have hcounts := @histogram_hits _ bounds own hapart₁
  have hcounts' := @histogram_hits _ bounds all hapart₂
  rw [← hown] at hkind
  rw [← hall] at hshared
  have hothers : ∀ e ∈ log, e.1.groupKind = m.groupKind → e.1 = m :=
    fun e he => hkinds e.1 (h.logged e he) m hm
  have hsum := fun (q : Float → Bool) (measure : Histogram → Nat) =>
    measure_eq_sum q (h.laid m hm) hf (h.scoped hcalled) hothers hown hkind measure hall hshared
  refine { series := sameSeries (h.laid m hm) hf (h.scoped hcalled) hothers hkind hshared,
           samples := ?_, buckets := fun s hs => ⟨fun b hb => ?_, fun i => ?_⟩ }
  · exact hsum (fun _ => true) (·.count) (fun _ _ ht => (hcounts ht).1)
      (fun _ _ ht => (hcounts' ht).1)
  · -- all histograms have the bounds that they were made with
    obtain ⟨u, hu⟩ := value?_of_aboutKind hshared.wellFormed hs
    obtain ⟨t, ht⟩ := value?_of_standingFor hkind.wellFormed hb
    rw [(hcounts ht).2, (hcounts' hu).2, List.map_map, List.map_map]
    rfl
  · exact hsum _ (·.inBucket i) (fun _ _ ht => inBucket_of_hits (hcounts ht).2 i)
      (fun _ _ hu => inBucket_of_hits (hcounts' hu).2 i) s hs

/-- The shared families of a handle mirror those of its kind, role by role. -/
theorem mirrored_of_housed (role : Role) (hapart : log.ApartOn m role) :
    Mirrored m f log r role := by
  cases role with
  | count => exact gaugeMirror_of_housed h hcalled hkinds hm hf (.presence .count) hapart
  | age => exact gaugeMirror_of_housed h hcalled hkinds hm hf (.presence .age) hapart
  | transitions => exact counterMirror_of_housed h hcalled hkinds hm hf hapart
  | stays =>
    refine histogramMirror_of_housed h hcalled hkinds hm hf ?_ hapart rfl rfl
    rintro (⟨⟨⟩⟩ | _) <;> exact fun heq => nomatch heq
  | terminating => exact gaugeMirror_of_housed h hcalled hkinds hm hf .terminating hapart
  | terminations =>
    refine histogramMirror_of_housed h hcalled hkinds hm hf ?_ hapart rfl rfl
    rintro (⟨⟨⟩⟩ | _) <;> exact fun heq => nomatch heq

end Housed

namespace Roster

theorem called_log (steps : List Use) : ∀ s : Roster, (s.log steps).Called := by
  induction steps with
  | nil => exact fun _ _ he => nomatch he
  | cons step steps ih =>
    intro s e he
    rcases List.mem_append.mp he with he | he
    · cases step with
      | create g legacy keys => cases he
      | unregister i => cases he
      | call i call =>
        unfold loggedBy at he
        simp only at he
        split at he
        · cases he
        · rw [List.mem_singleton.mp he]
          exact ⟨call, rfl⟩
    · exact ih _ e he

/-- Whatever handles of different kinds are made, used and given back in a registry: the families
that one of them shares mirror the families of its kind, each of them in which the tuples that were
written are apart. -/
theorem shared_mirrors (scope : String) (own : List OwnerStep) (steps : List Use)
    (hkinds : (((start scope own).made steps).map (·.groupKind)).Nodup) {m : ConditionMetrics}
    (hm : m ∈ ((start scope own).run steps).live) {f : ConditionFamilies} (hf : m.legacy = some f)
    (role : Role) (hapart : ((start scope own).log steps).ApartOn m role) :
    Mirrored m f ((start scope own).log steps) ((start scope own).run steps).registry role := by
  obtain ⟨hhoused, hlive⟩ := housed_start scope own steps
  exact mirrored_of_housed hhoused (called_log steps _)
    (fun _ ha _ hb heq => List.inj_on_of_nodup_map hkinds ha hb heq) (hlive hm) hf role hapart

/-- A resource of one kind with two values of a projected label, one of another kind. -/
def twoKinds : List Use :=
  let ready := Condition.of .epoch "Ready" .true
  let team := fun value : String => (∅ : Labels).insert "team" value
  [.create ⟨"apps", "Deployment"⟩ true ["team"], .create ⟨"batch", "Job"⟩ true [],
    .call 0 (.setCondition ⟨"prod", "web"⟩ (team "a") ready .epoch),
    .call 1 (.setCondition ⟨"prod", "web"⟩ (team "a") ready .epoch),
    .call 0 (.setCondition ⟨"prod", "web"⟩ (team "b") ready .epoch)]

/-- A shared gauge mirrors the two series of a kind that it stands for. -/
theorem shared_mirrors_twoKinds :
    ∃ m ∈ ((start "operator" []).run twoKinds).live, ∃ f, m.legacy = some f ∧
      (((start "operator" []).made twoKinds).map (·.groupKind)).Nodup ∧
      ((start "operator" []).log twoKinds).ApartOn m .count ∧
      Mirrored m f ((start "operator" []).log twoKinds)
        ((start "operator" []).run twoKinds).registry .count := by
  have hkinds : (((start "operator" []).made twoKinds).map (·.groupKind)).Nodup := by
    decide +kernel
  obtain ⟨m, hm, hshares, hapart⟩ : ∃ m ∈ ((start "operator" []).run twoKinds).live,
      m.legacyEnabled = true ∧ ((start "operator" []).log twoKinds).ApartOn m .count := by
    decide +kernel
  obtain ⟨f, hf⟩ := Option.isSome_iff_exists.mp hshares
  exact ⟨m, hm, f, hf, hkinds, hapart,
    shared_mirrors "operator" [] twoKinds hkinds hm hf .count hapart⟩

/-- Two kinds whose groups and names run together to one text. -/
def kindsTogether : List Use :=
  let ready := Condition.of .epoch "Ready" .true
  [.create ⟨"a", "bC"⟩ true [], .create ⟨"ab", "C"⟩ true [],
    .call 0 (.setCondition ⟨"", "n"⟩ ∅ ready .epoch),
    .call 1 (.setCondition ⟨"", "n"⟩ ∅ ready .epoch)]

/-- The second kind is not shown in the shared families. -/
theorem not_mirrored_kindsTogether :
    ∃ m ∈ ((start "operator" []).run kindsTogether).live, ∃ f, m.legacy = some f ∧
      (((start "operator" []).made kindsTogether).map (·.groupKind)).Nodup ∧
      ¬ Mirrored m f ((start "operator" []).log kindsTogether)
        ((start "operator" []).run kindsTogether).registry .count := by
  have hkinds : (((start "operator" []).made kindsTogether).map (·.groupKind)).Nodup := by
    decide +kernel
  obtain ⟨m, hm, f, hf, hmissing⟩ : ∃ m ∈ ((start "operator" []).run kindsTogether).live,
      ∃ f ∈ m.legacy, (aboutKind m.groupKind
          (((start "operator" []).run kindsTogether).registry.gaugeSeries f.count)).length = 0 ∧
        (erased (((start "operator" []).run kindsTogether).registry.gaugeSeries
          m.families.count)).length = 1 := by
    decide +kernel
  refine ⟨m, hm, f, hf, hkinds, fun hmirrored => ?_⟩
  obtain ⟨s, hs⟩ := List.exists_mem_of_length_pos (hmissing.2 ▸ Nat.one_pos)
  have hshown := (hmirrored.series.same s.1).mpr (List.mem_map_of_mem hs)
  rw [List.length_eq_zero_iff.mp hmissing.1] at hshown
  cases hshown

end Roster

end StatusWatch.Metrics
