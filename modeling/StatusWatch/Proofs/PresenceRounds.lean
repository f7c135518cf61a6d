import StatusWatch.Proofs.ConditionSets
import StatusWatch.Proofs.PresenceLabels
import StatusWatch.Proofs.Reconcile
import StatusWatch.Proofs.Round

/-!
# Rounds of presence gauges

Two gauges of a surface tell which conditions are present and since when. A reconcile
does one round to each of them. This module states what such a gauge has to show, given
the snapshots, and carries it through a round.

- `PresenceGauge`: the two gauges; `Watch.Step.round`: what a step does to them.
- `Shows`: the series that the snapshots call for.
- `Tracks`: the index of a gauge holds exactly the tuples that are called for.
- `Exact`: the gauge shows exactly the series that are called for.
- `Tracks.found`, `exact_found_iff`: a resource that is there; the index always follows,
  the shown series do if and only if the tuples in flight are apart.
- `Tracks.gone`, `Exact.gone`: a resource that is gone.
-/

namespace StatusWatch

open Metrics (AnyFamily Apart Collector ConditionFamilies ConditionMetrics Family GaugeRef
  LabelTuple Registry Role RoleOps Round SeriesIndex SeriesOp)
open Metrics.ConditionMetrics (Layout PresenceLabels stateOf tupleOf)
open Condition (Distinct)

/-! ## Presence and age -/

/-- The gauges that tell which conditions are present. -/
inductive PresenceGauge where
  /-- Whether a condition is present. -/
  | count
  /-- For how many seconds it has had its status. -/
  | age

namespace PresenceGauge

def role : PresenceGauge → Role
  | count => .count
  | age => .age

/-- The gauge of a surface. -/
def ref (f : ConditionFamilies) : PresenceGauge → GaugeRef
  | count => f.count
  | age => f.currentStatusSeconds

/-- What is shown of a condition in a snapshot. -/
def value (s : Snapshot) (c : Condition) : PresenceGauge → Float
  | count => 1.0
  | age => secondsBetween s.observedAt c.lastTransition

@[simp] theorem collector_role (f : ConditionFamilies) (g : PresenceGauge) :
    f.collector g.role = .gauge (g.ref f) := by
  cases g <;> rfl

end PresenceGauge

/-! ## Rounds as operations -/

namespace Metrics

/-- The operations of a round. -/
def Round.ops (r : Round Float) : List SeriesOp :=
  r.forgotten.map .delete ++ r.writes.map (fun w => .write w.1 w.2) ++ r.stale.map .delete

/-- A round with the label maps that a family of some collector looks at. -/
def Round.declared (c : Collector) (r : Round Float) : Round Float :=
  { r with forgotten := r.forgotten.map c.declared, stale := r.stale.map c.declared }

@[simp] theorem Round.writes_declared (c : Collector) (r : Round Float) :
    (r.declared c).writes = r.writes := rfl

theorem foldl_delete (c : Collector) (ls : List Labels) : ∀ f : Family Float,
    (ls.map SeriesOp.delete).foldl (fun a op => op.apply c a) (.gauge f) =
      .gauge (f.deleteAll (ls.map c.declared)) := by
  induction ls with
  | nil => exact fun _ => rfl
  | cons l ls ih => exact fun f => ih _

theorem foldl_write_gauge (c : Collector) (ws : List (Labels × Float)) : ∀ f : Family Float,
    (ws.map fun w => SeriesOp.write w.1 w.2).foldl (fun a op => op.apply c a) (.gauge f) =
      .gauge (f.writeAll ws) := by
  induction ws with
  | nil => exact fun _ => rfl
  | cons w ws ih => exact fun f => ih _

/-- Carrying out the operations of a round is the round. -/
theorem foldl_ops (c : Collector) (r : Round Float) (f : Family Float) :
    r.ops.foldl (fun a op => op.apply c a) (.gauge f) = .gauge (f.after (r.declared c)) := by
  unfold Round.ops
  rw [List.foldl_append, List.foldl_append, foldl_delete, foldl_write_gauge, foldl_delete]
  rfl

end Metrics

namespace Watch

/-- The round of a resource that is gone. -/
def goneRound (m : ConditionMetrics) (key : ResourceKey) : Round Float :=
  { forgotten := [m.resourceSet key []], writes := [], stale := [] }

/-- The round of a resource that is there. -/
def foundRound (m : ConditionMetrics) (g : PresenceGauge) (key : ResourceKey)
    (previous : Option Snapshot) (current : Snapshot) : Round Float :=
  { forgotten := if relabelled m previous current then [m.resourceSet key []] else []
    writes := current.conditions.map fun c =>
      (m.labelSet (some key) current.labels (stateOf c), g.value current c)
    stale := (staleConditions previous current).map fun old => m.resourceSet key (stateOf old) }

/-- The round that a step is for a presence gauge. -/
def Step.round (o : Observer) (g : PresenceGauge) (s : Step) : Round Float :=
  match s.fetched with
  | .error _ => { forgotten := [], writes := [], stale := [] }
  | .ok none => goneRound o.metrics s.key
  | .ok (some resource) =>
    foundRound o.metrics g s.key (o.snapshots.get? s.key) (observe s.now resource)

section Calls

variable (m : ConditionMetrics) (g : PresenceGauge) (key : ResourceKey) (labels : Labels)

theorem on_forgetOps :
    RoleOps.on (m.forgetOps key) g.role = [.delete (m.resourceSet key [])] := by
  cases g <;> rfl

theorem on_staleOps (old : Condition) :
    RoleOps.on (m.staleOps key old) g.role = [.delete (m.resourceSet key (stateOf old))] := by
  cases g <;> rfl

theorem on_conditionOps (current : Snapshot) (c : Condition) :
    RoleOps.on (m.conditionOps key labels c current.observedAt) g.role =
      [.write (m.labelSet (some key) labels (stateOf c)) (g.value current c)] := by
  cases g <;> rfl

/-- The sample of a finished termination goes to a family of its own. -/
theorem on_terminationCalls (role : Role) (hrole : role ≠ .terminations) (now : Instant)
    (previous : Option Snapshot) :
    (previous.bind fun p => p.terminatingSince.map fun since =>
      m.terminationOps p.labels (secondsBetween now since)).toList.flatMap
        (fun ops => RoleOps.on ops role) = [] := by
  refine List.flatMap_eq_nil_iff.mpr fun ops hops => ?_
  obtain ⟨p, -, hp⟩ := Option.bind_eq_some_iff.mp (Option.mem_toList.mp hops)
  obtain ⟨since, -, rfl⟩ := Option.map_eq_some_iff.mp hp
  cases role <;> first | rfl | exact absurd rfl hrole

/-- Moves are counted and sampled, and go to no other family. -/
theorem on_moveCalls (role : Role) (hcounter : role ≠ .transitions) (hstays : role ≠ .stays)
    (mvs : List Move) :
    (mvs.flatMap (Move.calls m labels)).flatMap (fun ops => RoleOps.on ops role) = [] := by
  rw [List.flatMap_assoc]
  refine List.flatMap_eq_nil_iff.mpr fun ⟨c, old⟩ _ => ?_
  cases role <;> cases old <;>
    first | rfl | exact absurd rfl hcounter | exact absurd rfl hstays

end Calls

/-- Of what a step writes, a presence gauge sees its round. -/
theorem on_calls (o : Observer) (g : PresenceGauge) (s : Step) :
    RoleOps.on (s.calls o).flatten g.role = (s.round o g).ops := by
  rw [Metrics.RoleOps.on_flatten]
  unfold Step.calls Step.round
  match s.fetched with
  | .error e => rfl
  | .ok none =>
    have hends := on_terminationCalls o.metrics g.role (by cases g <;> decide) s.now
      (o.snapshots.get? s.key)
    simp only [removalCalls, List.flatMap_cons, on_forgetOps, hends]
    rfl
  | .ok (some resource) =>
    have hforget : ∀ b : Bool, (if b then [o.metrics.forgetOps s.key] else []).flatMap
        (fun ops => RoleOps.on ops g.role) =
          (if b then [o.metrics.resourceSet s.key []] else []).map SeriesOp.delete := by
      intro b
      cases b
      · rfl
      · simp [on_forgetOps]
    have hterminating : ((observe s.now resource).terminatingSince.map fun deleted =>
        o.metrics.terminatingOps s.key (observe s.now resource).labels
          (secondsBetween s.now deleted)).toList.flatMap
            (fun ops => RoleOps.on ops g.role) = [] := by
      cases (observe s.now resource).terminatingSince <;> cases g <;> rfl
    have hwrites : ((observe s.now resource).conditions.map fun c => o.metrics.conditionOps s.key
        (observe s.now resource).labels c s.now).flatMap (fun ops => RoleOps.on ops g.role) =
          (observe s.now resource).conditions.map fun c => SeriesOp.write
            (o.metrics.labelSet (some s.key) (observe s.now resource).labels (stateOf c))
            (g.value (observe s.now resource) c) :=
      Metrics.RoleOps.flatMap_on_map (fun c => on_conditionOps o.metrics g s.key
        (observe s.now resource).labels (observe s.now resource) c) _
    have hstale := Metrics.RoleOps.flatMap_on_map (fun old => on_staleOps o.metrics g s.key old)
      (staleConditions (o.snapshots.get? s.key) (observe s.now resource))
    have hmoves := on_moveCalls o.metrics (observe s.now resource).labels g.role
      (by cases g <;> decide) (by cases g <;> decide)
      (moves (o.snapshots.get? s.key) (observe s.now resource))
    -- forgetting, writing and removing stale states, in this order, is the round
    simp only [comparisonCalls, List.flatMap_append, hforget, hterminating, hwrites, hstale,
      hmoves, List.append_nil]
    unfold Metrics.Round.ops foundRound
    simp only [List.map_map, Function.comp_def]

/-- A presence gauge after a step. -/
theorem at?_reconcile {w : Watch} (h : w.observer.metrics.Separate) {f : ConditionFamilies}
    (hf : f ∈ w.observer.metrics.surfaces) (g : PresenceGauge) (s : Step) {fam : Family Float}
    (hfam : w.registry.gauges[(g.ref f).index]? = some fam) :
    (w.reconcile s.now s.key s.fetched).1.registry.gauges[(g.ref f).index]? =
      some (fam.after ((s.round w.observer g).declared (.gauge (g.ref f)))) := by
  have hat : w.registry.at? (f.collector g.role) = some (.gauge fam) := by
    rw [g.collector_role]
    show (w.registry.gauges[(g.ref f).index]?).map AnyFamily.gauge = _
    rw [hfam]
    rfl
  have hnext :=
    Metrics.ConditionMetrics.at?_performCalls h hf g.role (s.calls w.observer) w.registry
  rw [hat, Option.map_some, on_calls, Metrics.foldl_ops, g.collector_role] at hnext
  rw [reconcile_eq]
  obtain ⟨fam', hfam', heq⟩ := Option.map_eq_some_iff.mp hnext
  cases heq
  exact hfam'

end Watch

/-! ## What is to be shown -/

/-- The snapshots call for a series with this tuple and this value. -/
def Shows (pairs : PresenceLabels) (g : PresenceGauge) (store : SnapshotStore) (t : LabelTuple)
    (v : Float) : Prop :=
  ∃ k s d, store.get? k = some s ∧ d ∈ s.conditions ∧ tupleOf (pairs k s.labels d) = t ∧
    g.value s d = v

/-- A snapshot calls for such a series under its key. -/
def ShowsOf (pairs : PresenceLabels) (g : PresenceGauge) (k : ResourceKey) (s : Snapshot)
    (t : LabelTuple) (v : Float) : Prop :=
  ∃ d ∈ s.conditions, tupleOf (pairs k s.labels d) = t ∧ g.value s d = v

section Shows

variable {pairs : PresenceLabels} {g : PresenceGauge} {store : SnapshotStore} {t : LabelTuple}
  {v : Float}

/-- What is called for under one key, and under the others. -/
theorem shows_iff (key : ResourceKey) : Shows pairs g store t v ↔
    (∃ s, store.get? key = some s ∧ ShowsOf pairs g key s t v) ∨
      Shows pairs g (store.erase key) t v := by
  constructor
  · rintro ⟨k, s, d, hs, hd, ht, hv⟩
    by_cases hk : key = k
    · subst hk
      exact Or.inl ⟨s, hs, d, hd, ht, hv⟩
    · refine Or.inr ⟨k, s, d, ?_, hd, ht, hv⟩
      rw [OrderedMap.get?_erase, if_neg hk, hs]
  · rintro (⟨s, hs, d, hd, ht, hv⟩ | ⟨k, s, d, hs, hd, ht, hv⟩)
    · exact ⟨key, s, d, hs, hd, ht, hv⟩
    · rw [OrderedMap.get?_erase] at hs
      split at hs
      · cases hs
      · exact ⟨k, s, d, hs, hd, ht, hv⟩

theorem shows_insert (key : ResourceKey) (s : Snapshot) :
    Shows pairs g (store.insert key s) t v ↔
      ShowsOf pairs g key s t v ∨ Shows pairs g (store.erase key) t v := by
  have hothers : (store.insert key s).erase key = store.erase key :=
    OrderedMap.ext_get? fun k => by
      simp only [OrderedMap.get?_erase, OrderedMap.get?_insert]
      split <;> rfl
  rw [shows_iff key, hothers, OrderedMap.get?_insert, if_pos rfl]
  constructor
  · rintro (⟨s', hs', h⟩ | h)
    · cases hs'
      exact Or.inl h
    · exact Or.inr h
  · rintro (h | h)
    · exact Or.inl ⟨s, rfl, h⟩
    · exact Or.inr h

/-- Series under the other keys belong to other keys. -/
theorem key_of_shows_erase {key : ResourceKey} (h : Shows pairs g (store.erase key) t v) :
    ∃ k l d, k ≠ key ∧ t = tupleOf (pairs k l d) := by
  obtain ⟨k, s, d, hs, -, ht, -⟩ := h
  rw [OrderedMap.get?_erase] at hs
  split at hs
  · cases hs
  · rename_i hk
    exact ⟨k, s.labels, d, Ne.symm hk, ht.symm⟩

/-- The deletion time that is remembered is not shown. -/
theorem showsOf_remembered (k : ResourceKey) (current : Snapshot) (previous : Option Snapshot) :
    ShowsOf pairs g k (Watch.remembered current previous) t v ↔
      ShowsOf pairs g k current t v := by
  cases g <;> exact Iff.rfl

end Shows

/-- The index of a gauge holds exactly the tuples that are called for. -/
structure Tracks (pairs : PresenceLabels) (g : PresenceGauge) (c : Collector)
    (store : SnapshotStore) (f : Family Float) : Prop where
  wellFormed : f.WellFormed
  names : f.index.labelNames = c.descriptor.labelNames
  live : ∀ t, t ∈ f.index.live ↔ ∃ v, Shows pairs g store t v

/-- A gauge shows exactly the series that are called for. -/
def Exact (pairs : PresenceLabels) (g : PresenceGauge) (store : SnapshotStore)
    (f : Family Float) : Prop :=
  ∀ t v, f.value? t = some v ↔ Shows pairs g store t v

theorem Tracks.mirrors {pairs : PresenceLabels} {g : PresenceGauge} {c : Collector}
    {store : SnapshotStore} {f : Family Float} (h : Tracks pairs g c store f)
    (he : Exact pairs g store f) : f.Mirrors := by
  intro t
  rw [h.live, Option.isSome_iff_exists]
  exact exists_congr fun v => (he t v).symm

/-! ## Rounds and what is to be shown -/

namespace Watch

/-- The tuples that are live once a resource that is there has been written, before the
stale ones are removed. -/
def inflightOf (m : ConditionMetrics) (pairs : PresenceLabels) (store : SnapshotStore)
    (key : ResourceKey) (current : Snapshot) : List LabelTuple :=
  let kept := if relabelled m (store.get? key) current then store.erase key else store
  current.conditions.map (fun d => tupleOf (pairs key current.labels d)) ++
    kept.entries.flatMap fun e => e.2.conditions.map fun d => tupleOf (pairs e.1 e.2.labels d)

theorem mem_tuples_iff {pairs : PresenceLabels} (g : PresenceGauge) {store : SnapshotStore}
    {t : LabelTuple} :
    t ∈ (store.entries.flatMap fun e => e.2.conditions.map fun d =>
        tupleOf (pairs e.1 e.2.labels d)) ↔ ∃ v, Shows pairs g store t v := by
  rw [List.mem_flatMap]
  constructor
  · rintro ⟨⟨k, s⟩, he, ht⟩
    obtain ⟨d, hd, rfl⟩ := List.mem_map.mp ht
    exact ⟨g.value s d, k, s, d, (store.mem_entries_iff k s).mp he, hd, rfl, rfl⟩
  · rintro ⟨v, k, s, d, hs, hd, rfl, -⟩
    exact ⟨(k, s), (store.mem_entries_iff k s).mpr hs, List.mem_map_of_mem hd⟩

theorem mem_staleConditions {previous : Option Snapshot} {current : Snapshot} {old : Condition} :
    old ∈ staleConditions previous current ↔
      ∃ p, previous = some p ∧ old ∈ p.conditions ∧ Observer.isStale current old = true := by
  cases previous with
  | none => simp [staleConditions]
  | some p => simp [staleConditions, List.mem_filter]

/-- A state that still holds. -/
theorem isStale_eq_false {current : Snapshot} {old : Condition} :
    Observer.isStale current old = false ↔
      ∃ c, current.get? old.type = some c ∧ c.status = old.status ∧ c.reason = old.reason := by
  unfold Observer.isStale
  cases current.get? old.type with
  | none => simp
  | some c => simp

end Watch

section Rounds

variable {m : ConditionMetrics} {c : Collector} {pairs : PresenceLabels} (hl : m.Layout c pairs)
  {g : PresenceGauge} {store : SnapshotStore} {f : Family Float} (key : ResourceKey)
  {current : Snapshot}

include hl

/-- Deleting a resource covers the tuples of its key. -/
theorem covered_forgotten (hnames : f.index.labelNames = c.descriptor.labelNames)
    (k : ResourceKey) (l : Labels) (d : Condition) :
    Family.covered f.index ([m.resourceSet key []].map c.declared) (tupleOf (pairs k l d)) = true ↔
      k = key := by
  simp only [Family.covered, List.map_cons, List.map_nil, List.any_cons, List.any_nil,
    Bool.or_false]
  exact hl.forgotten f.index hnames key k l d

/-- Deleting stale states covers their tuples. -/
theorem covered_stale (hnames : f.index.labelNames = c.descriptor.labelNames)
    (olds : List Condition) (k : ResourceKey) (l : Labels) (d : Condition) :
    Family.covered f.index ((olds.map fun old => m.resourceSet key (stateOf old)).map c.declared)
        (tupleOf (pairs k l d)) = true ↔
      k = key ∧
        ∃ old ∈ olds, d.type = old.type ∧ d.status = old.status ∧ d.reason = old.reason := by
  simp only [Family.covered, List.any_eq_true, List.mem_map]
  constructor
  · rintro ⟨-, ⟨-, ⟨old, hold, rfl⟩, rfl⟩, hagrees⟩
    obtain ⟨hk, hstate⟩ := (hl.stale f.index hnames key old k l d).mp hagrees
    exact ⟨hk, old, hold, hstate⟩
  · rintro ⟨hk, old, hold, hstate⟩
    exact ⟨_, ⟨_, ⟨old, hold, rfl⟩, rfl⟩, (hl.stale f.index hnames key old k l d).mpr ⟨hk, hstate⟩⟩

/-- The states that were just seen are not stale. -/
theorem not_covered_current (hnames : f.index.labelNames = c.descriptor.labelNames)
    (hdistinct : Distinct current.conditions) (previous : Option Snapshot) (k : ResourceKey)
    (l : Labels) {d : Condition} (hd : d ∈ current.conditions) :
    Family.covered f.index
      (((Watch.staleConditions previous current).map fun old =>
        m.resourceSet key (stateOf old)).map c.declared) (tupleOf (pairs k l d)) = false := by
  rw [Bool.eq_false_iff]
  intro hcovered
  obtain ⟨-, old, hold, htype, hstatus, hreason⟩ :=
    (covered_stale hl key hnames _ k l d).mp hcovered
  obtain ⟨-, -, -, hstale⟩ := Watch.mem_staleConditions.mp hold
  have hget : current.get? old.type = some d := htype ▸ hdistinct.mem_iff.mp hd
  have hfresh := Watch.isStale_eq_false.mpr ⟨d, hget, hstatus, hreason⟩
  rw [hstale] at hfresh
  cases hfresh

/-- What was shown of a resource and is neither forgotten nor stale is shown again. -/
theorem current_of_previous (hnames : f.index.labelNames = c.descriptor.labelNames)
    {p : Snapshot} (hsame : Watch.relabelled m (some p) current = false) {d : Condition}
    (hd : d ∈ p.conditions)
    (hcovered : Family.covered f.index
      (((Watch.staleConditions (some p) current).map fun old =>
        m.resourceSet key (stateOf old)).map c.declared) (tupleOf (pairs key p.labels d)) = false) :
    ∃ d' ∈ current.conditions, pairs key current.labels d' = pairs key p.labels d := by
  have hfresh : Observer.isStale current d = false := by
    rw [Bool.eq_false_iff]
    intro hstale
    rw [Bool.eq_false_iff] at hcovered
    exact hcovered ((covered_stale hl key hnames _ key p.labels d).mpr
      ⟨rfl, d, Watch.mem_staleConditions.mpr ⟨p, rfl, hd, hstale⟩, rfl, rfl, rfl⟩)
  obtain ⟨d', hget, hstatus, hreason⟩ := Watch.isStale_eq_false.mp hfresh
  refine ⟨d', Condition.mem_of_find? hget, ?_⟩
  have hlabels : m.projectionChanged p.labels current.labels = false := hsame
  rw [← hl.unchanged _ _ hlabels key d']
  exact hl.state key p.labels d' d (Condition.type_of_find? hget) hstatus hreason

/-- The tuples and values of the writes. -/
theorem written_found (hnames : f.index.labelNames = c.descriptor.labelNames)
    (previous : Option Snapshot) :
    Family.written f.index (Watch.foundRound m g key previous current).writes =
      current.conditions.map fun d =>
        (tupleOf (pairs key current.labels d), g.value current d) := by
  unfold Family.written Watch.foundRound
  rw [List.map_map]
  refine List.map_congr_left fun d _ => ?_
  have htuple : f.index.tuple (m.labelSet (some key) current.labels (stateOf d)) =
      tupleOf (pairs key current.labels d) :=
    Metrics.tuple_eq (hnames.trans (hl.names key current.labels d).symm)
      (hl.written key current.labels d)
  simp only [Function.comp_apply, htuple]

theorem nodup_tuples (hdistinct : Distinct current.conditions) :
    (current.conditions.map fun d => tupleOf (pairs key current.labels d)).Nodup := by
  unfold Distinct List.Nodup at hdistinct
  rw [List.pairwise_map] at hdistinct
  refine List.pairwise_map.mpr (hdistinct.imp fun hne heq => hne ?_)
  exact (hl.injective heq).2.1

/-- What is kept when the writes of a round begin, and is not stale after them, belongs to another
key or is a state that still holds. -/
theorem kept_cases (hnames : f.index.labelNames = c.descriptor.labelNames) {t : LabelTuple}
    {v : Float}
    (hshows : Shows pairs g (if Watch.relabelled m (store.get? key) current then store.erase key
      else store) t v)
    (hcovered : Family.covered f.index
      (((Watch.staleConditions (store.get? key) current).map fun old =>
        m.resourceSet key (stateOf old)).map c.declared) t = false) :
    Shows pairs g (store.erase key) t v ∨
      ∃ d ∈ current.conditions, tupleOf (pairs key current.labels d) = t := by
  split at hshows
  · exact Or.inl hshows
  · rename_i hsame
    rw [Bool.not_eq_true] at hsame
    rcases (shows_iff key).mp hshows with ⟨p, hp, d, hd, rfl, -⟩ | hshows
    · rw [hp] at hsame hcovered
      obtain ⟨d', hd', heq⟩ := current_of_previous hl key hnames hsame hd hcovered
      exact Or.inr ⟨d', hd', congrArg tupleOf heq⟩
    · exact Or.inl hshows

omit hl in
/-- What belongs to another key is kept. -/
theorem kept_of_besides {t : LabelTuple} {v : Float}
    (hshows : Shows pairs g (store.erase key) t v) :
    Shows pairs g (if Watch.relabelled m (store.get? key) current then store.erase key
      else store) t v := by
  split
  · exact hshows
  · exact (shows_iff key).mpr (Or.inr hshows)

/-- What is live without the tuples of a key is what the other keys call for. -/
theorem live_besides (h : Tracks pairs g c store f) (t : LabelTuple) :
    (t ∈ f.index.live ∧
      Family.covered f.index ([m.resourceSet key []].map c.declared) t = false) ↔
        ∃ v, Shows pairs g (store.erase key) t v := by
  rw [h.live]
  constructor
  · rintro ⟨⟨v, hv⟩, hcovered⟩
    rw [Bool.eq_false_iff] at hcovered
    rcases (shows_iff key).mp hv with ⟨s, hs, d, hd, rfl, -⟩ | hv
    · exact absurd ((covered_forgotten hl key h.names key s.labels d).mpr rfl) hcovered
    · exact ⟨v, hv⟩
  · rintro ⟨v, hv⟩
    refine ⟨⟨v, (shows_iff key).mpr (Or.inr hv)⟩, ?_⟩
    obtain ⟨k, l, d, hk, rfl⟩ := key_of_shows_erase hv
    rw [Bool.eq_false_iff]
    exact fun hcovered => hk ((covered_forgotten hl key h.names k l d).mp hcovered)

/-- The tuples that are live during a round. -/
theorem mem_inflight (h : Tracks pairs g c store f) (t : LabelTuple) :
    t ∈ f.inflight ((Watch.foundRound m g key (store.get? key) current).declared c) ↔
      t ∈ Watch.inflightOf m pairs store key current := by
  unfold Family.inflight Watch.inflightOf
  simp only [Metrics.Round.declared]
  rw [written_found hl key h.names, List.map_map, List.mem_append, List.mem_append,
    Watch.mem_tuples_iff g, List.mem_filter, Bool.not_eq_true']
  refine or_congr Iff.rfl ?_
  unfold Watch.foundRound
  split
  · exact live_besides hl key h t
  · rw [h.live]
    simp [Family.covered]

/-- Deleting stale states leaves the other keys alone. -/
theorem not_covered_besides (hnames : f.index.labelNames = c.descriptor.labelNames)
    (olds : List Condition) {t : LabelTuple} {v : Float}
    (hv : Shows pairs g (store.erase key) t v) :
    Family.covered f.index
      ((olds.map fun old => m.resourceSet key (stateOf old)).map c.declared) t = false := by
  obtain ⟨k, l, d, hk, rfl⟩ := key_of_shows_erase hv
  rw [Bool.eq_false_iff]
  exact fun hcovered => hk ((covered_stale hl key hnames olds k l d).mp hcovered).1

/-- Forgetting a resource that is gone. -/
theorem Tracks.gone (h : Tracks pairs g c store f) :
    Tracks pairs g c (store.erase key) (f.after ((Watch.goneRound m key).declared c)) where
  wellFormed := h.wellFormed.after _
  names := (Metrics.Family.labelNames_after h.wellFormed _).trans h.names
  live t := by
    rw [Metrics.Family.live_after h.wellFormed]
    simp only [Family.inflight, Watch.goneRound, Metrics.Round.declared, Family.written,
      List.map_nil, List.nil_append, List.mem_filter, Bool.not_eq_true', Family.covered,
      List.any_nil, and_true]
    exact live_besides hl key h t

/-- A round of a resource that is there: the index follows, whatever the tuples are. -/
theorem Tracks.found (h : Tracks pairs g c store f) (hdistinct : Distinct current.conditions) :
    Tracks pairs g c (store.insert key (Watch.remembered current (store.get? key)))
      (f.after ((Watch.foundRound m g key (store.get? key) current).declared c)) where
  wellFormed := h.wellFormed.after _
  names := (Metrics.Family.labelNames_after h.wellFormed _).trans h.names
  live t := by
    rw [Metrics.Family.live_after h.wellFormed, mem_inflight hl key h]
    simp only [shows_insert, showsOf_remembered]
    unfold Watch.inflightOf
    rw [List.mem_append, Watch.mem_tuples_iff g]
    constructor
    · rintro ⟨hmem | ⟨v, hv⟩, hcovered⟩
      · obtain ⟨d, hd, rfl⟩ := List.mem_map.mp hmem
        exact ⟨_, Or.inl ⟨d, hd, rfl, rfl⟩⟩
      · rcases kept_cases hl key h.names hv hcovered with hv | ⟨d, hd, htuple⟩
        · exact ⟨v, Or.inr hv⟩
        · exact ⟨_, Or.inl ⟨d, hd, htuple, rfl⟩⟩
    · rintro ⟨v, ⟨d, hd, rfl, -⟩ | hv⟩
      · exact ⟨Or.inl (List.mem_map_of_mem hd),
          not_covered_current hl key h.names hdistinct _ key current.labels hd⟩
      · exact ⟨Or.inr ⟨v, kept_of_besides key hv⟩, not_covered_besides hl key h.names _ hv⟩

/-- What is shown without the series of a key is what the other keys call for. -/
theorem value?_besides (h : Tracks pairs g c store f) (he : Exact pairs g store f)
    (t : LabelTuple) (v : Float) :
    (if Family.covered f.index ([m.resourceSet key []].map c.declared) t then none
      else f.value? t) = some v ↔ Shows pairs g (store.erase key) t v := by
  constructor
  · intro hv
    split at hv
    · cases hv
    · rename_i hcovered
      rcases (shows_iff key).mp ((he t v).mp hv) with ⟨s, hs, d, hd, rfl, -⟩ | hv
      · exact absurd ((covered_forgotten hl key h.names key s.labels d).mpr rfl) hcovered
      · exact hv
  · intro hv
    obtain ⟨k, l, d, hk, rfl⟩ := key_of_shows_erase hv
    rw [if_neg fun hcovered => hk ((covered_forgotten hl key h.names k l d).mp hcovered)]
    exact (he _ v).mpr ((shows_iff key).mpr (Or.inr hv))

theorem Exact.gone (h : Tracks pairs g c store f) (he : Exact pairs g store f) :
    Exact pairs g (store.erase key) (f.after ((Watch.goneRound m key).declared c)) := by
  intro t v
  have hround : f.after ((Watch.goneRound m key).declared c) =
      f.deleteAll ([m.resourceSet key []].map c.declared) := rfl
  rw [hround, (Metrics.Family.deleteAll_of_mirrors _ h.wellFormed (h.mirrors he)).2 t]
  exact value?_besides hl key h he t v

theorem nodup_written (hnames : f.index.labelNames = c.descriptor.labelNames)
    (hdistinct : Distinct current.conditions) (previous : Option Snapshot) :
    ((Family.written f.index (Watch.foundRound m g key previous current).writes).map
      (·.1)).Nodup := by
  rw [written_found hl key hnames, List.map_map]
  exact nodup_tuples hl key hdistinct

/-- The writes are what the new snapshot calls for. -/
theorem find?_written (hnames : f.index.labelNames = c.descriptor.labelNames)
    (hdistinct : Distinct current.conditions) (previous : Option Snapshot) (t : LabelTuple)
    (v : Float) :
    OrderedMap.find? t (Family.written f.index
        (Watch.foundRound m g key previous current).writes) = some v ↔
      ShowsOf pairs g key current t v := by
  rw [← Metrics.mem_iff_find? (nodup_written hl key hnames hdistinct previous),
    written_found hl key hnames, List.mem_map]
  simp only [Prod.mk.injEq]
  exact Iff.rfl

variable (current) in
/-- What is shown when the writes of a round begin. -/
theorem value?_kept (h : Tracks pairs g c store f) (he : Exact pairs g store f)
    (t : LabelTuple) (v : Float) :
    (if Family.covered f.index
        ((Watch.foundRound m g key (store.get? key) current).declared c).forgotten t then none
      else f.value? t) = some v ↔
      Shows pairs g (if Watch.relabelled m (store.get? key) current then store.erase key
        else store) t v := by
  unfold Watch.foundRound Metrics.Round.declared
  cases hsame : Watch.relabelled m (store.get? key) current with
  | true => exact value?_besides hl key h he t v
  | false => simpa [Family.covered] using he t v

/-- What belongs to another key is not written. -/
theorem find?_written_besides (hnames : f.index.labelNames = c.descriptor.labelNames)
    (hdistinct : Distinct current.conditions) (previous : Option Snapshot) {t : LabelTuple}
    {v : Float} (hshows : Shows pairs g (store.erase key) t v) :
    OrderedMap.find? t (Family.written f.index
      (Watch.foundRound m g key previous current).writes) = none := by
  by_contra hsome
  obtain ⟨v', hv'⟩ := Option.ne_none_iff_exists'.mp hsome
  obtain ⟨d, -, ht, -⟩ := (find?_written hl key hnames hdistinct previous t v').mp hv'
  obtain ⟨k, l, d', hk, ht'⟩ := key_of_shows_erase hshows
  exact hk (hl.injective (ht.trans ht')).1.symm

/-- What a round without stale states shows is written or belongs to another key. -/
theorem shown_found (h : Tracks pairs g c store f) (he : Exact pairs g store f)
    (hdistinct : Distinct current.conditions) {t : LabelTuple} {v : Float}
    (hcovered : Family.covered f.index
      ((Watch.foundRound m g key (store.get? key) current).declared c).stale t = false) :
    ((OrderedMap.find? t (Family.written f.index
        (Watch.foundRound m g key (store.get? key) current).writes)).or
      (if Family.covered f.index
          ((Watch.foundRound m g key (store.get? key) current).declared c).forgotten t then none
        else f.value? t)) = some v ↔
      ShowsOf pairs g key current t v ∨ Shows pairs g (store.erase key) t v := by
  have hwritten := find?_written hl key h.names hdistinct (store.get? key) t (g := g)
  have hkept := value?_kept hl key current h he t v
  constructor
  · intro hv
    rcases Option.or_eq_some_iff.mp hv with hv | ⟨hnone, hv⟩
    · exact Or.inl ((hwritten v).mp hv)
    · rcases kept_cases hl key h.names (hkept.mp hv) hcovered with hshows | ⟨d, hd, htuple⟩
      · exact Or.inr hshows
      · -- a state that still holds was written again, so it is not read from before
        rw [(hwritten _).mpr ⟨d, hd, htuple, rfl⟩] at hnone
        cases hnone
  · rintro (hshows | hshows)
    · rw [(hwritten v).mpr hshows, Option.some_or]
    · rw [find?_written_besides hl key h.names hdistinct _ hshows, Option.none_or, hkept]
      exact kept_of_besides key hshows

/-- A round whose tuples are apart shows what the new snapshots call for. -/
theorem Exact.found (h : Tracks pairs g c store f) (he : Exact pairs g store f)
    (hdistinct : Distinct current.conditions)
    (hapart : Apart (Watch.inflightOf m pairs store key current)) :
    Exact pairs g (store.insert key (Watch.remembered current (store.get? key)))
      (f.after ((Watch.foundRound m g key (store.get? key) current).declared c)) := by
  intro t v
  have hapart' : Apart (f.inflight
      ((Watch.foundRound m g key (store.get? key) current).declared c)) :=
    hapart.mono fun t ht => (mem_inflight hl key h t).mp ht
  rw [Metrics.Family.value?_after h.wellFormed
    ((Watch.foundRound m g key (store.get? key) current).declared c) (h.mirrors he)
    (nodup_written hl key h.names hdistinct (store.get? key)) hapart',
    Metrics.Round.writes_declared, shows_insert, showsOf_remembered]
  -- a tuple is either taken away as stale or shown by a write or from before
  split
  · -- a stale state belongs to the key, and nothing that was just seen is stale
    rename_i hcovered
    refine iff_of_false (by simp) ?_
    rintro (⟨d, hd, rfl, -⟩ | hshows)
    · have hfresh :=
        not_covered_current hl key h.names hdistinct (store.get? key) key current.labels hd
      exact Bool.eq_false_iff.mp hfresh hcovered
    · exact Bool.eq_false_iff.mp (not_covered_besides hl key h.names _ hshows) hcovered
  · rename_i hcovered
    rw [Bool.not_eq_true] at hcovered
    exact shown_found hl key h he hdistinct hcovered

/-- A round shows what the new snapshots call for exactly if its tuples are apart. -/
theorem exact_found_iff (h : Tracks pairs g c store f) (he : Exact pairs g store f)
    (hdistinct : Distinct current.conditions) :
    Exact pairs g (store.insert key (Watch.remembered current (store.get? key)))
      (f.after ((Watch.foundRound m g key (store.get? key) current).declared c)) ↔
      Apart (Watch.inflightOf m pairs store key current) := by
  constructor
  · intro hexact
    by_contra hnot
    have hnot' : ¬ Apart (f.inflight
        ((Watch.foundRound m g key (store.get? key) current).declared c)) := fun hapart =>
      hnot (hapart.mono fun t ht => (mem_inflight hl key h t).mpr ht)
    obtain ⟨t, ht, hnone⟩ := Metrics.Family.exists_missing_of_not_apart h.wellFormed
      ((Watch.foundRound m g key (store.get? key) current).declared c) (h.mirrors he)
      (nodup_written hl key h.names hdistinct (store.get? key)) hnot'
    -- a tuple that was written is called for, but has no series
    obtain ⟨v, hv⟩ := Option.isSome_iff_exists.mp (Metrics.find?_isSome_iff.mpr ht)
    have hshows := (find?_written hl key h.names hdistinct (store.get? key) t v).mp hv
    have := (hexact t v).mpr ((shows_insert key _).mpr
      (Or.inl ((showsOf_remembered key current _).mpr hshows)))
    rw [hnone] at this
    cases this
  · exact Exact.found hl key h he hdistinct

end Rounds

end StatusWatch
