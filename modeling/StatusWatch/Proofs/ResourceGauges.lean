import StatusWatch.Proofs.Creation
import StatusWatch.Proofs.Keys
import StatusWatch.Proofs.PresenceRounds

/-!
# Gauges of resources

Three gauges of a surface carry the namespace and the name of a resource in their labels.
What such a gauge holds under a tuple of label values is found by replaying the operations
on it with that tuple in mind; and since every tuple belongs to one key, only the steps on
that key matter.

- `SeriesOp.effect`, `replay`: what operations leave under one tuple.
- `Replayed`, `replayed_foldl`: the index of a gauge is what its operations leave.
- `value?_foldl`: and so are its series, if the tuples that were written are apart.
- `Owns`: a tuple belongs to a key; `owner_unique`: to one at most.
- `ResourceGauge`: the three gauges; `gauge_run`: one of them after a run.
- `replay_of_owner`: under a tuple of a key, the operations of other keys have no effect.
-/

namespace StatusWatch

open Metrics (AnyFamily Apart Collector ConditionFamilies ConditionMetrics Family Fresh GaugeRef
  LabelTuple Registry Role RoleOps Round SeriesIndex SeriesOp)

namespace Metrics

/-! ## One tuple -/

/-- The label names that a collector declares, as an index without tuples. -/
def Collector.index (c : Collector) : SeriesIndex := ⟨c.descriptor.labelNames, []⟩

@[simp] theorem Collector.labelNames_index (c : Collector) :
    c.index.labelNames = c.descriptor.labelNames := rfl

namespace SeriesOp

/-- What an operation on a gauge makes of the value under a tuple. -/
def effect (c : Collector) (t : LabelTuple) (v : Option Float) : SeriesOp → Option Float
  | write labels x => if c.index.tuple labels = t then some x else v
  | delete labels => if c.index.agrees (c.declared labels) t then none else v

/-- The tuple that an operation writes. -/
def written (c : Collector) : SeriesOp → Option LabelTuple
  | write labels _ => some (c.index.tuple labels)
  | delete _ => none

/-- An operation that leaves a value either leaves the one that was there or writes it. -/
theorem effect_isSome {c : Collector} {t : LabelTuple} {v : Option Float} {op : SeriesOp}
    (h : (op.effect c t v).isSome) : v.isSome ∨ op.written c = some t := by
  cases op with
  | write labels x =>
    simp only [effect] at h
    split at h
    · rename_i ht
      exact Or.inr (congrArg some ht)
    · exact Or.inl h
  | delete labels =>
    simp only [effect] at h
    split at h
    · cases h
    · exact Or.inl h

end SeriesOp

/-- What operations leave under a tuple of an empty gauge. -/
def replay (c : Collector) (ops : List SeriesOp) (t : LabelTuple) : Option Float :=
  ops.foldl (fun v op => op.effect c t v) none

theorem replay_concat (c : Collector) (ops : List SeriesOp) (op : SeriesOp) (t : LabelTuple) :
    replay c (ops ++ [op]) t = op.effect c t (replay c ops t) :=
  List.foldl_append

/-- Only what is written can be left. -/
theorem mem_written_of_replay {c : Collector} {ops : List SeriesOp} {t : LabelTuple}
    (h : (replay c ops t).isSome) : t ∈ ops.filterMap (·.written c) := by
  induction ops using List.reverseRecOn with
  | nil => cases h
  | append_singleton ops op ih =>
    rw [replay_concat] at h
    rw [List.filterMap_append, List.mem_append]
    rcases SeriesOp.effect_isSome h with hold | hnew
    · exact Or.inl (ih hold)
    · exact Or.inr (List.mem_filterMap.mpr ⟨op, List.mem_singleton_self op, hnew⟩)

/-! ## Families -/

/-- A gauge whose index holds exactly the tuples under which some operations leave a value. -/
structure Replayed (c : Collector) (ops : List SeriesOp) (f : Family Float) : Prop where
  wellFormed : f.WellFormed
  names : f.index.labelNames = c.descriptor.labelNames
  live : ∀ t, t ∈ f.index.live ↔ (replay c ops t).isSome

theorem replayed_new (c : Collector) : Replayed c [] (Family.new c.descriptor) where
  wellFormed := Family.wellFormed_new _
  names := rfl
  live _ := ⟨fun h => (nomatch h), fun h => (nomatch h)⟩

section Replayed

variable {c : Collector} {ops : List SeriesOp} {f : Family Float} (h : Replayed c ops f)

include h

theorem Replayed.tuple_eq : f.index.tuple = c.index.tuple := SeriesIndex.tuple_congr h.names

theorem Replayed.agrees_eq : f.index.agrees = c.index.agrees := SeriesIndex.agrees_congr h.names

/-- One more operation. -/
theorem Replayed.concat (op : SeriesOp) : Replayed c (ops ++ [op]) (op.onGauge c f) := by
  cases op with
  | write labels x =>
    refine ⟨h.wellFormed.record labels _, (Family.labelNames_record f labels _).trans h.names, ?_⟩
    intro t
    rw [replay_concat]
    show t ∈ (f.record labels fun _ => x).index.live ↔ _
    rw [Family.live_record, h.tuple_eq, h.live, SeriesOp.effect]
    by_cases ht : c.index.tuple labels = t
    · simp [ht]
    · simp [ht, Ne.symm ht]
  | delete labels =>
    refine ⟨h.wellFormed.deleteMatching _,
      (Family.labelNames_deleteMatching h.wellFormed _).trans h.names, ?_⟩
    intro t
    rw [replay_concat]
    show t ∈ (f.deleteMatching (c.declared labels)).1.index.live ↔ _
    rw [Family.live_deleteMatching h.wellFormed, h.agrees_eq, h.live, SeriesOp.effect]
    cases c.index.agrees (c.declared labels) t <;> simp

theorem Replayed.mem_written {t : LabelTuple} (ht : t ∈ f.index.live) :
    t ∈ ops.filterMap (·.written c) := mem_written_of_replay ((h.live t).mp ht)

/-- One more operation, if the tuples that were written stay apart. -/
theorem Replayed.value?_concat (hv : ∀ t, f.value? t = replay c ops t) (op : SeriesOp)
    (hapart : Apart ((ops ++ [op]).filterMap (·.written c))) (t : LabelTuple) :
    (op.onGauge c f).value? t = replay c (ops ++ [op]) t := by
  rw [replay_concat, ← hv]
  cases op with
  | write labels x =>
    show (f.record labels fun _ => x).value? t = _
    rw [Family.value?_record h.wellFormed, h.tuple_eq, SeriesOp.effect]
    · simp only [eq_comm]
    · -- what is shown was written before
      intro t' ht' hj
      have hlive := h.mem_written (h.wellFormed.indexed t' ht')
      rw [h.tuple_eq] at hj ⊢
      refine hapart t' ?_ _ ?_ hj
      · rw [List.filterMap_append]
        exact List.mem_append_left _ hlive
      · rw [List.filterMap_append]
        exact List.mem_append_right _ (List.mem_singleton_self _)
  | delete labels =>
    have hm : f.Mirrors := fun t => by rw [h.live, hv]
    show (f.deleteMatching (c.declared labels)).1.value? t = _
    rw [Family.value?_deleteMatching h.wellFormed _ hm, h.agrees_eq]
    rfl

end Replayed

/-- A gauge that starts empty is what its operations leave: its index always is. -/
theorem replayed_foldl (c : Collector) (ops : List SeriesOp) :
    Replayed c ops (ops.foldl (fun f op => op.onGauge c f) (Family.new c.descriptor)) := by
  induction ops using List.reverseRecOn with
  | nil => exact replayed_new c
  | append_singleton ops op ih =>
    rw [List.foldl_append]
    exact ih.concat op

/-- Its series are, if the tuples that were written are apart. -/
theorem value?_foldl (c : Collector) (ops : List SeriesOp) :
    Apart (ops.filterMap (·.written c)) →
      ∀ t, (ops.foldl (fun f op => op.onGauge c f) (Family.new c.descriptor)).value? t =
        replay c ops t := by
  induction ops using List.reverseRecOn with
  | nil => exact fun _ _ => rfl
  | append_singleton ops op ih =>
    intro hapart t
    have hearlier : Apart (ops.filterMap (·.written c)) := hapart.mono fun t ht => by
      rw [List.filterMap_append]
      exact List.mem_append_left _ ht
    rw [List.foldl_append]
    exact (replayed_foldl c ops).value?_concat (ih hearlier) op hapart t

theorem foldl_onGauge (c : Collector) (ops : List SeriesOp) : ∀ f : Family Float,
    ops.foldl (fun a op => op.apply c a) (.gauge f) =
      .gauge (ops.foldl (fun f op => op.onGauge c f) f) := by
  induction ops with
  | nil => exact fun _ => rfl
  | cons op ops ih => exact fun f => ih _

/-! ## Owners of tuples -/

/-- A tuple that is made name by name has its values under these names. -/
theorem SeriesIndex.valueOf?_map (i : SeriesIndex) (value : String → String) {name : String}
    (hname : name ∈ i.labelNames) :
    i.valueOf? (i.labelNames.map value) name = some (value name) := by
  unfold valueOf?
  generalize i.labelNames = names at hname
  induction names with
  | nil => cases hname
  | cons n names ih =>
    rw [List.map_cons, List.zip_cons_cons, OrderedMap.find?]
    split
    · rename_i heq
      rw [← heq]
    · rename_i hne
      exact ih ((List.mem_cons.mp hname).resolve_left fun heq => hne heq.symm)

/-- A label that is declared has the value that the label map gives it. -/
theorem SeriesIndex.valueOf?_tuple (i : SeriesIndex) (labels : Labels) {name : String}
    (hname : name ∈ i.labelNames) :
    i.valueOf? (i.tuple labels) name = some ((labels.get? name).getD "") :=
  i.valueOf?_map (fun name => (labels.get? name).getD "") hname

theorem SeriesIndex.agrees_iff_valueOf? (i : SeriesIndex) (labels : Labels) (t : LabelTuple) :
    i.agrees labels t = true ↔
      ∀ name value, labels.get? name = some value → i.valueOf? t name = some value := by
  simp only [agrees, List.all_eq_true, decide_eq_true_eq]
  constructor
  · exact fun h name value hv => h (name, value) ((labels.mem_entries_iff name value).mpr hv)
  · exact fun h e he => h e.1 e.2 ((labels.mem_entries_iff e.1 e.2).mp he)

namespace ConditionMetrics

/-- The further labels of what is written or deleted about a resource: those of a condition
state, or none. -/
def IsState (extra : List (String × String)) : Prop := extra = [] ∨ ∃ d, extra = stateOf d

/-- An operation about a resource. -/
inductive About (m : ConditionMetrics) (key : ResourceKey) : SeriesOp → Prop
  | write {extra : List (String × String)} (h : IsState extra) (labels : Labels) (v : Float) :
      About m key (.write (m.labelSet (some key) labels extra) v)
  | delete {extra : List (String × String)} (h : IsState extra) :
      About m key (.delete (m.resourceSet key extra))

/-- A tuple belongs to a key: it has all labels of the resource that are declared. -/
def Owns (m : ConditionMetrics) (c : Collector) (key : ResourceKey) (t : LabelTuple) : Prop :=
  c.index.agrees (c.declared (m.resourceSet key [])) t = true

section Owners

variable {m : ConditionMetrics} (h : m.projection.WellFormed) {c : Collector} {key : ResourceKey}

theorem IsState.fixed {extra : List (String × String)} (he : IsState extra) (m : ConditionMetrics)
    (key : ResourceKey) :
    ((m.fixedLabels (some key) extra).map (·.1)).Nodup ∧
      ∀ e ∈ m.fixedLabels (some key) extra, isProjectedName e.1 = false := by
  rcases he with rfl | ⟨d, rfl⟩
  · exact ⟨m.distinct_fixedLabels key, m.not_projected_fixedLabels key⟩
  · exact ⟨m.distinct_fixedLabels_state key d, m.not_projected_fixedLabels_state key d⟩

include h

/-- A tuple is covered if it has all fixed labels that are declared. -/
theorem covers_iff {extra : List (String × String)} (he : IsState extra) (t : LabelTuple) :
    c.index.agrees (c.declared (m.resourceSet key extra)) t = true ↔
      ∀ e ∈ m.fixedLabels (some key) extra, e.1 ∈ c.descriptor.labelNames →
        c.index.valueOf? t e.1 = some e.2 := by
  -- names are distinct, so that looking up a label finds the pair itself
  obtain ⟨hd, hfixed⟩ := he.fixed m key
  rw [SeriesIndex.agrees_iff_valueOf?]
  simp only [resourceSet, get?_declared, get?_withoutProjection h hd hfixed]
  constructor
  · intro hall e he hmem
    refine hall e.1 e.2 ?_
    rw [if_pos hmem]
    exact (mem_iff_find? hd e.1 e.2).mp he
  · intro hall name value hv
    split at hv
    · rename_i hmem
      exact hall (name, value) ((mem_iff_find? hd name value).mpr hv) hmem
    · cases hv

/-- What is written about a resource belongs to it. -/
theorem owns_tuple {extra : List (String × String)} (he : IsState extra) (labels : Labels) :
    m.Owns c key (c.index.tuple (m.labelSet (some key) labels extra)) := by
  refine (covers_iff h (Or.inl rfl) _).mpr fun e hmem hname => ?_
  obtain ⟨hd, hfixed⟩ := he.fixed m key
  have hmem : e ∈ m.fixedLabels (some key) extra := by
    unfold fixedLabels at hmem ⊢
    rw [List.append_nil] at hmem
    exact List.mem_append_left _ hmem
  rw [SeriesIndex.valueOf?_tuple c.index _ hname,
    get?_labelSet_of_mem h hd hfixed labels (List.mem_append_left _ hmem)]
  rfl

/-- What is deleted about a resource belongs to it. -/
theorem owns_of_covers {extra : List (String × String)} (he : IsState extra) {t : LabelTuple}
    (ht : c.index.agrees (c.declared (m.resourceSet key extra)) t = true) : m.Owns c key t := by
  refine (covers_iff h (Or.inl rfl) t).mpr fun e hmem hname => ?_
  refine (covers_iff h he t).mp ht e ?_ hname
  unfold fixedLabels at hmem ⊢
  rw [List.append_nil] at hmem
  exact List.mem_append_left _ hmem

/-- An operation about a resource has no effect under tuples of others. -/
theorem About.effect_of_not_owns {op : SeriesOp} (ha : About m key op) {t : LabelTuple}
    (ht : ¬ m.Owns c key t) (v : Option Float) : op.effect c t v = v := by
  cases ha with
  | write he labels x =>
    refine if_neg fun heq => ht ?_
    rw [← heq]
    exact owns_tuple h he labels
  | delete he => exact if_neg fun hagrees => ht (owns_of_covers h he hagrees)

variable (hc : identityLabels ⊆ c.descriptor.labelNames)

include hc

/-- The owner of a tuple can be read off it. -/
theorem Owns.identity {t : LabelTuple} (ht : m.Owns c key t) :
    c.index.valueOf? t namespaceLabel = some key.ns ∧
      c.index.valueOf? t nameLabel = some key.name := by
  have hfixed := (covers_iff h (Or.inl rfl) t).mp ht
  exact ⟨hfixed (namespaceLabel, key.ns) List.mem_cons_self (hc List.mem_cons_self),
    hfixed (nameLabel, key.name) (List.mem_cons_of_mem _ List.mem_cons_self)
      (hc (List.mem_cons_of_mem _ List.mem_cons_self))⟩

theorem owner_unique {key' : ResourceKey} {t : LabelTuple} (ht : m.Owns c key t)
    (ht' : m.Owns c key' t) : key = key' := by
  obtain ⟨hns, hname⟩ := ht.identity h hc
  obtain ⟨hns', hname'⟩ := ht'.identity h hc
  rw [hns] at hns'
  rw [hname] at hname'
  exact ResourceKey.eq_iff.mpr ⟨Option.some.inj hns', Option.some.inj hname'⟩

/-- A full tuple has the labels of its owner and of no other resource. -/
theorem Owns.mem_zip_iff (hnodup : c.descriptor.labelNames.Nodup) {t : LabelTuple}
    (hfull : t.length = c.descriptor.labelNames.length) (ht : m.Owns c key t) (key' : ResourceKey) :
    ((namespaceLabel, key'.ns) ∈ c.descriptor.labelNames.zip t ∧
      (nameLabel, key'.name) ∈ c.descriptor.labelNames.zip t) ↔ key' = key := by
  obtain ⟨hns, hname⟩ := ht.identity h hc
  have hlabel := SeriesIndex.mem_zip_iff (i := c.index) hnodup hfull
  simp only [Collector.labelNames_index] at hlabel
  rw [hlabel, hlabel, hns, hname, ResourceKey.eq_iff, Option.some_inj, Option.some_inj]
  exact and_congr eq_comm eq_comm

end Owners

/-- The families of a handle declare no name twice. -/
theorem Laid.nodup_names {m : ConditionMetrics} (h : m.Laid) {f : ConditionFamilies}
    (hf : f ∈ m.surfaces) (role : Role) : (f.collector role).descriptor.labelNames.Nodup := by
  rcases List.mem_cons.mp hf with rfl | hf
  · have hfixed : (role.plan.head ++ role.plan.tail).Nodup ∧
        ∀ name ∈ role.plan.head ++ role.plan.tail, isProjectedName name = false := by
      cases role <;> decide
    rw [h.kind role]
    refine List.nodup_append.mpr ⟨hfixed.1, h.projection.distinct, fun a ha b hb heq => ?_⟩
    have hprojected := h.projection.projected b hb
    rw [← heq, hfixed.2 a ha] at hprojected
    cases hprojected
  · rw [h.shared f (Option.mem_toList.mp hf) role]
    cases role <;> decide

/-! ## Operations by key -/

section Replay

variable {m : ConditionMetrics} (h : m.projection.WellFormed) {c : Collector}
  (hc : identityLabels ⊆ c.descriptor.labelNames) {ops : List (ResourceKey × SeriesOp)}
  (hops : ∀ e ∈ ops, m.About e.1 e.2)

include h hc hops

/-- Under a tuple of a key, the operations of other keys have no effect. -/
theorem replay_of_owner {key : ResourceKey} {t : LabelTuple} (ht : m.Owns c key t) :
    replay c (ops.map (·.2)) t = replay c ((ops.filter (·.1 = key)).map (·.2)) t := by
  unfold replay
  generalize (none : Option Float) = v
  induction ops generalizing v with
  | nil => rfl
  | cons e ops ih =>
    have ih := ih fun e' he' => hops e' (List.mem_cons_of_mem _ he')
    rw [List.map_cons, List.foldl_cons, List.filter_cons]
    split
    · rw [ih]
      rfl
    · rename_i hother
      have hnot : ¬ m.Owns c e.1 t := fun howns =>
        hother (decide_eq_true (owner_unique h hc howns ht))
      rw [(hops e List.mem_cons_self).effect_of_not_owns h hnot, ih]

omit hc in
/-- A tuple under which something is left belongs to a key. -/
theorem exists_owner {t : LabelTuple} (ht : (replay c (ops.map (·.2)) t).isSome) :
    ∃ key, m.Owns c key t := by
  obtain ⟨op, hop, hwritten⟩ := List.mem_filterMap.mp (mem_written_of_replay ht)
  obtain ⟨e, he, rfl⟩ := List.mem_map.mp hop
  obtain ⟨key, op⟩ := e
  have habout : m.About key op := hops _ he
  cases habout with
  | write hstate labels v =>
    cases hwritten
    exact ⟨key, owns_tuple h hstate labels⟩
  | delete hstate => cases hwritten

end Replay

end ConditionMetrics

end Metrics

/-! ## The gauges -/

/-- The gauges whose labels identify a resource. -/
inductive ResourceGauge where
  | presence (g : PresenceGauge)
  /-- For how many seconds a resource has been terminating. -/
  | terminating

namespace ResourceGauge

def role : ResourceGauge → Role
  | presence g => g.role
  | terminating => .terminating

/-- The gauge of a surface. -/
def ref (f : ConditionFamilies) : ResourceGauge → GaugeRef
  | presence g => g.ref f
  | terminating => f.terminationCurrentSeconds

@[simp] theorem collector_role (f : ConditionFamilies) (g : ResourceGauge) :
    f.collector g.role = .gauge (g.ref f) := by
  cases g with
  | presence g => exact g.collector_role f
  | terminating => rfl

/-- Every gauge of a surface is one of them. -/
theorem exists_of_role (f : ConditionFamilies) (role : Role) :
    (∃ g : ResourceGauge, g.role = role) ∨ ∀ ref, f.collector role ≠ .gauge ref := by
  cases role with
  | count => exact Or.inl ⟨.presence .count, rfl⟩
  | age => exact Or.inl ⟨.presence .age, rfl⟩
  | terminating => exact Or.inl ⟨.terminating, rfl⟩
  | transitions => exact Or.inr fun _ h => nomatch h
  | stays => exact Or.inr fun _ h => nomatch h
  | terminations => exact Or.inr fun _ h => nomatch h

end ResourceGauge

namespace Metrics

/-- The gauges of a surface declare namespace and name. -/
theorem ConditionMetrics.Laid.identity {m : ConditionMetrics} (h : m.Laid) {f : ConditionFamilies}
    (hf : f ∈ m.surfaces) (g : ResourceGauge) :
    identityLabels ⊆ (Collector.gauge (g.ref f)).descriptor.labelNames := by
  have hhead : g.role.plan.head = identityLabels := by
    cases g with
    | presence g => cases g <;> rfl
    | terminating => rfl
  rw [← g.collector_role]
  rcases List.mem_cons.mp hf with rfl | hf
  · rw [h.kind g.role, hhead, List.append_assoc]
    exact List.subset_append_left _ _
  · rw [h.shared f (Option.mem_toList.mp hf) g.role, hhead, List.append_assoc]
    exact List.subset_append_left _ _

theorem Fresh.identity {m : ConditionMetrics} {r : Registry} (h : Fresh m r)
    {f : ConditionFamilies} (hf : f ∈ m.surfaces) (g : ResourceGauge) :
    identityLabels ⊆ (Collector.gauge (g.ref f)).descriptor.labelNames := h.toLaid.identity hf g

end Metrics

namespace Watch

/-! ## Rounds -/

/-- The round of a resource that is there, for the gauge of terminations. -/
def terminatingRound (m : ConditionMetrics) (now : Instant) (key : ResourceKey)
    (previous : Option Snapshot) (current : Snapshot) : Round Float :=
  { forgotten := if relabelled m previous current then [m.resourceSet key []] else []
    writes := (current.terminatingSince.map fun deleted =>
      (m.labelSet (some key) current.labels [], secondsBetween now deleted)).toList
    stale := [] }

/-- The round that a step is for a gauge of resources. -/
def Step.roundOf (o : Observer) (s : Step) : ResourceGauge → Round Float
  | .presence g => s.round o g
  | .terminating =>
    match s.fetched with
    | .error _ => { forgotten := [], writes := [], stale := [] }
    | .ok none => goneRound o.metrics s.key
    | .ok (some resource) =>
      terminatingRound o.metrics s.now s.key (o.snapshots.get? s.key) (observe s.now resource)

/-- Of what a step writes, the gauge of terminations sees its round. -/
theorem on_calls_terminating (o : Observer) (s : Step) :
    RoleOps.on (s.calls o).flatten .terminating = (s.roundOf o .terminating).ops := by
  rw [Metrics.RoleOps.on_flatten]
  unfold Step.calls Step.roundOf
  match s.fetched with
  | .error _ => rfl
  | .ok none =>
    -- the histogram of finished terminations is another one
    have hends := on_terminationCalls o.metrics .terminating (by decide) s.now
      (o.snapshots.get? s.key)
    simp only [removalCalls, List.flatMap_cons, hends]
    rfl
  | .ok (some resource) =>
    -- of all that a comparison does, only its first two parts write this gauge
    have hconditions : ((observe s.now resource).conditions.map fun c =>
        o.metrics.conditionOps s.key (observe s.now resource).labels c s.now).flatMap
          (fun ops => RoleOps.on ops .terminating) = [] :=
      List.flatMap_eq_nil_iff.mpr fun ops h => by
        obtain ⟨c, -, rfl⟩ := List.mem_map.mp h
        rfl
    have hstale : ((staleConditions (o.snapshots.get? s.key) (observe s.now resource)).map
        (o.metrics.staleOps s.key)).flatMap (fun ops => RoleOps.on ops .terminating) = [] :=
      List.flatMap_eq_nil_iff.mpr fun ops h => by
        obtain ⟨c, -, rfl⟩ := List.mem_map.mp h
        rfl
    have hmoves := on_moveCalls o.metrics (observe s.now resource).labels .terminating
      (by decide) (by decide) (moves (o.snapshots.get? s.key) (observe s.now resource))
    simp only [comparisonCalls, List.flatMap_append, hconditions, hstale, hmoves, List.append_nil]
    unfold Metrics.Round.ops terminatingRound
    split <;> cases (observe s.now resource).terminatingSince <;> rfl

theorem on_calls_round (o : Observer) (s : Step) (g : ResourceGauge) :
    RoleOps.on (s.calls o).flatten g.role = (s.roundOf o g).ops := by
  cases g with
  | presence g => exact on_calls o g s
  | terminating => exact on_calls_terminating o s

theorem ops_eq_round (o : Observer) (s : Step) (g : ResourceGauge) :
    s.ops g.role o = (s.roundOf o g).ops.map fun op => (s.key, op) := by
  rw [Step.ops, on_calls_round]

/-- A gauge of resources after a step. -/
theorem gauge_reconcile {w : Watch} (h : w.observer.metrics.Separate) {f : ConditionFamilies}
    (hf : f ∈ w.observer.metrics.surfaces) (g : ResourceGauge) (s : Step) {fam : Family Float}
    (hfam : w.registry.gauges[(g.ref f).index]? = some fam) :
    (w.reconcile s.now s.key s.fetched).1.registry.gauges[(g.ref f).index]? =
      some (fam.after ((s.roundOf w.observer g).declared (.gauge (g.ref f)))) := by
  have hat : w.registry.at? (f.collector g.role) = some (.gauge fam) := by
    rw [g.collector_role]
    show (w.registry.gauges[(g.ref f).index]?).map AnyFamily.gauge = _
    rw [hfam]
    rfl
  have hnext :=
    Metrics.ConditionMetrics.at?_performCalls h hf g.role (s.calls w.observer) w.registry
  rw [hat, Option.map_some, on_calls_round, Metrics.foldl_ops, g.collector_role] at hnext
  rw [reconcile_eq]
  obtain ⟨fam', hfam', heq⟩ := Option.map_eq_some_iff.mp hnext
  cases heq
  exact hfam'

/-- The operations of a round are about the resource of the step. -/
theorem about_of_mem_round {o : Observer} {s : Step} {g : ResourceGauge} {op : SeriesOp}
    (h : op ∈ (s.roundOf o g).ops) : o.metrics.About s.key op := by
  have hforgotten : ∀ b : Bool, ∀ l ∈ (if b then [o.metrics.resourceSet s.key []] else []),
      o.metrics.About s.key (.delete l) := by
    intro b l hl
    cases b with
    | false => cases hl
    | true =>
      obtain rfl := List.mem_singleton.mp hl
      exact .delete (Or.inl rfl)
  unfold Metrics.Round.ops at h
  simp only [List.mem_append, List.mem_map] at h
  unfold Step.roundOf Step.round at h
  match hf : s.fetched with
  | .error _ =>
    rw [hf] at h
    cases g <;> rcases h with (⟨l, hl, -⟩ | ⟨e, he, -⟩) | ⟨l, hl, -⟩ <;> first | cases hl | cases he
  | .ok none =>
    rw [hf] at h
    have hgone : ∀ l ∈ (goneRound o.metrics s.key).forgotten, o.metrics.About s.key (.delete l) :=
      hforgotten true
    cases g <;> rcases h with (⟨l, hl, rfl⟩ | ⟨e, he, -⟩) | ⟨l, hl, -⟩ <;>
      first | exact hgone l hl | cases hl | cases he
  | .ok (some resource) =>
    rw [hf] at h
    cases g with
    | presence g =>
      rcases h with (⟨l, hl, rfl⟩ | ⟨e, he, rfl⟩) | ⟨l, hl, rfl⟩
      · exact hforgotten _ l hl
      · obtain ⟨c, -, rfl⟩ := List.mem_map.mp he
        exact .write (Or.inr ⟨c, rfl⟩) _ _
      · obtain ⟨old, -, rfl⟩ := List.mem_map.mp hl
        exact .delete (Or.inr ⟨old, rfl⟩)
    | terminating =>
      rcases h with (⟨l, hl, rfl⟩ | ⟨e, he, rfl⟩) | ⟨l, hl, -⟩
      · exact hforgotten _ l hl
      · obtain ⟨deleted, -, rfl⟩ := Option.map_eq_some_iff.mp (Option.mem_toList.mp he)
        exact .write (Or.inl rfl) _ _
      · cases hl

/-! ## Runs -/

/-- What a run writes to the gauges of resources is about the keys of its steps. -/
theorem about_of_mem_outputs {w : Watch} {steps : List Step} {g : ResourceGauge}
    {e : ResourceKey × SeriesOp} (he : e ∈ w.outputs (Step.ops g.role) steps) :
    w.observer.metrics.About e.1 e.2 := by
  unfold outputs at he
  obtain ⟨p, -, hp⟩ := List.mem_flatMap.mp he
  rw [ops_eq_round] at hp
  obtain ⟨op, hop, rfl⟩ := List.mem_map.mp hp
  have habout := about_of_mem_round hop
  rwa [observer_run] at habout

/-- The tuples that a run writes to the families with a role are apart. -/
def ApartOn (w : Watch) (role : Role) (steps : List Step) : Prop :=
  ∀ f ∈ w.observer.metrics.surfaces,
    Apart ((w.opsOn role steps).filterMap (·.written (f.collector role)))

instance (w : Watch) (role : Role) (steps : List Step) : Decidable (w.ApartOn role steps) :=
  inferInstanceAs (Decidable (∀ f ∈ w.observer.metrics.surfaces, _))

section Fresh

variable {w : Watch} (hfresh : Fresh w.observer.metrics w.registry) {f : ConditionFamilies}
  (hf : f ∈ w.observer.metrics.surfaces) (g : ResourceGauge) (steps : List Step)

include hfresh hf

/-- A gauge of a surface after a run: its index holds what the operations of the run leave, and
so do its series if the tuples that were written are apart. -/
theorem gauge_run : ∃ fam, (w.run steps).1.registry.gauges[(g.ref f).index]? = some fam ∧
    Metrics.Replayed (.gauge (g.ref f)) (w.opsOn g.role steps) fam ∧
    (w.ApartOn g.role steps →
      ∀ t, fam.value? t = Metrics.replay (.gauge (g.ref f)) (w.opsOn g.role steps) t) := by
  have hafter := at?_run hfresh.separate hf g.role steps
  rw [hfresh.blank f hf, g.collector_role, Option.map_some] at hafter
  have hfold := Metrics.foldl_onGauge (.gauge (g.ref f)) (w.opsOn g.role steps)
    (Family.new (g.ref f).descriptor)
  obtain ⟨fam, hfam, heq⟩ := Option.map_eq_some_iff.mp (hafter.trans (congrArg some hfold))
  cases heq
  refine ⟨_, hfam, Metrics.replayed_foldl _ _, fun hapart => ?_⟩
  refine Metrics.value?_foldl (.gauge (g.ref f)) _ ?_
  rw [← g.collector_role]
  exact hapart f hf

end Fresh

end Watch

end StatusWatch
