import StatusWatch.Proofs.Stems

/-!
# Observers that share a registry

Any number of observers may write to one registry, start to watch and shut down. Each of them
writes through the handle of its kind, so what was shown of handles that share a registry holds of
observers too. What an observer left in a gauge belongs to a resource that it still tracks.

- `Fleet`: a registry with the observers that are live in it; `Fleet.run`: what happens to it.
- `exists_call`: what a reconcile writes are calls through the handle.
- `Observer.Accounts`: an observer tracks every resource of which it left something in a gauge;
  `Observer.Accounts.remember`: a reconcile keeps it so.
- `Fleet.Kept`: the invariant; `kept_step`, `kept_run`.
-/

namespace StatusWatch

open Metrics (Call ConditionMetrics Enrolled Housed Log Registry RoleOps SeriesOp replay)

/-! ## Fleets -/

/-- A registry with the observers that are live in it. -/
structure Fleet where
  registry : Registry
  observers : List Observer

namespace Fleet

/-- What happens to a fleet. -/
inductive Event where
  | create (g : GroupKind) (settings : ObserverSettings)
  | reconcile (i : Nat) (s : Watch.Step)
  | shutdown (i : Nat)

def step (w : Fleet) : Event → Fleet
  | .create g settings =>
    match Observer.create w.registry g settings with
    | (r, .ok o) => ⟨r, w.observers ++ [o]⟩
    | (r, .error _) => ⟨r, w.observers⟩
  | .reconcile i s =>
    match w.observers[i]? with
    | none => w
    | some o =>
      let next := ((⟨o, w.registry⟩ : Watch).reconcile s.now s.key s.fetched).1
      ⟨next.registry, w.observers.set i next.observer⟩
  | .shutdown i =>
    match w.observers[i]? with
    | none => w
    | some o => ⟨o.shutdown w.registry, w.observers.eraseIdx i⟩

def run (w : Fleet) (events : List Event) : Fleet := events.foldl step w

/-- A registry without observers. -/
def start (scope : String) : Fleet := ⟨Registry.new scope, []⟩

/-- The handle that an event makes. -/
def madeBy (w : Fleet) : Event → List ConditionMetrics
  | .create g settings =>
    match Observer.create w.registry g settings with
    | (_, .ok o) => [o.metrics]
    | (_, .error _) => []
  | .reconcile _ _ => []
  | .shutdown _ => []

/-- The handles of all observers that a run makes. -/
def made (w : Fleet) : List Event → List ConditionMetrics
  | [] => []
  | e :: events => w.madeBy e ++ (w.step e).made events

end Fleet

/-! ## Reconciles as calls -/

namespace Watch

/-- What a reconcile writes are calls through the handle of the observer. -/
theorem exists_call {o : Observer} {s : Step} {ops : RoleOps} (h : ops ∈ s.calls o) :
    ∃ call : Call, ops = call.ops o.metrics := by
  unfold Step.calls at h
  split at h
  · cases h
  · rcases List.mem_cons.mp h with rfl | h
    · exact ⟨.forget s.key, rfl⟩
    · obtain ⟨p, -, hp⟩ := Option.bind_eq_some_iff.mp (Option.mem_toList.mp h)
      obtain ⟨since, -, rfl⟩ := Option.map_eq_some_iff.mp hp
      exact ⟨.observeTermination p.labels (secondsBetween s.now since), rfl⟩
  · rcases mem_comparisonCalls h with ⟨-, rfl⟩ | ⟨deleted, -, rfl⟩ | ⟨c, -, rfl⟩ | ⟨old, -, rfl⟩ |
      ⟨mv, -, rfl | ⟨old, -, rfl⟩⟩
    · exact ⟨.forget s.key, rfl⟩
    · exact ⟨.setTermination s.key _ (secondsBetween s.now deleted), rfl⟩
    · exact ⟨.setCondition s.key _ c s.now, rfl⟩
    · exact ⟨.deleteCondition s.key old, rfl⟩
    · exact ⟨.recordTransition _ mv.current, rfl⟩
    · exact ⟨.observeTransition _ old _, rfl⟩

theorem scoped_calls {o : Observer} (h : o.metrics.projection.WellFormed) {s : Step} {ops : RoleOps}
    (hops : ops ∈ s.calls o) : ∀ op ∈ ops, o.metrics.Scoped op.2 := by
  obtain ⟨call, rfl⟩ := exists_call hops
  exact fun op hop => call.scoped h hop

end Watch

namespace Metrics.Log

/-- Calls through one handle are seen as such by that handle and by no other. -/
theorem through_calls (log : Log) (m m' : ConditionMetrics) (calls : List RoleOps) (role : Role) :
    through (log ++ calls.map fun ops => (m', ops)) m role =
      log.through m role ++ if m' = m then RoleOps.on calls.flatten role else [] := by
  unfold through
  rw [List.filter_append, List.flatMap_append, List.filter_map, List.flatMap_map]
  by_cases h : m' = m
  · simp [h, RoleOps.on_flatten, Function.comp_def]
  · simp [h, Function.comp_def]

end Metrics.Log

/-! ## What observers left -/

/-- Operations about one resource leave the tuples of the others alone. -/
theorem Metrics.ConditionMetrics.replay_append_of_not_owns {m : ConditionMetrics}
    (h : m.projection.WellFormed) {c : Metrics.Collector} {key : ResourceKey}
    {t : Metrics.LabelTuple} (ht : ¬ m.Owns c key t) {before ops : List SeriesOp}
    (hops : ∀ op ∈ ops, m.About key op) : replay c (before ++ ops) t = replay c before t := by
  induction ops using List.reverseRecOn with
  | nil => rw [List.append_nil]
  | append_singleton ops op ih =>
    have habout := hops op (List.mem_append_right _ (List.mem_singleton_self op))
    rw [← List.append_assoc, Metrics.replay_concat, habout.effect_of_not_owns h ht,
      ih fun op hop => hops op (List.mem_append_left _ hop)]

namespace Observer

/-- An observer tracks every resource of which it left something in a gauge. -/
def Accounts (o : Observer) (log : Log) : Prop :=
  ∀ f ∈ o.metrics.surfaces, ∀ (g : ResourceGauge) (t : Metrics.LabelTuple),
    (replay (f.collector g.role) (log.through o.metrics g.role) t).isSome →
      ∃ key, o.metrics.Owns (f.collector g.role) key t ∧ (o.snapshots.get? key).isSome

/-- A reconcile leaves something of its resource only if the resource is there, and then it is
tracked. -/
theorem Accounts.remember {o : Observer} {log : Log} (h : o.Accounts log)
    (hp : o.metrics.projection.WellFormed) (s : Watch.Step) :
    ({ o with snapshots := s.remember o.snapshots } : Observer).Accounts
      (log ++ (s.calls o).map fun ops => (o.metrics, ops)) := by
  intro f hf g t ht
  simp only [Metrics.Log.through_calls, if_true, Watch.on_calls_round] at ht
  -- what is left of the resource is accounted for by what the step remembers, all else as before
  by_cases howns : o.metrics.Owns (f.collector g.role) s.key t
  · match hfetched : s.fetched with
    | .error e =>
      -- a failed fetch does nothing
      have hround : (s.roundOf o g).ops = [] := by
        unfold Watch.Step.roundOf Watch.Step.round
        rw [hfetched]
        cases g <;> rfl
      rw [hround, List.append_nil] at ht
      obtain ⟨key, hkey, htracked⟩ := h f hf g t ht
      refine ⟨key, hkey, ?_⟩
      unfold Watch.Step.remember
      rw [hfetched]
      exact htracked
    | .ok none =>
      -- all that was left of the resource is deleted
      have hround : (s.roundOf o g).ops = [.delete (o.metrics.resourceSet s.key [])] := by
        unfold Watch.Step.roundOf Watch.Step.round
        rw [hfetched]
        cases g <;> rfl
      rw [hround, Metrics.replay_concat, SeriesOp.effect] at ht
      split at ht
      · cases ht
      · rename_i hnot
        exact absurd howns hnot
    | .ok (some resource) =>
      refine ⟨s.key, howns, ?_⟩
      unfold Watch.Step.remember
      simp [hfetched]
  · -- what is left of other resources is what it was
    rw [Metrics.ConditionMetrics.replay_append_of_not_owns hp howns
      fun op hop => Watch.about_of_mem_round hop] at ht
    obtain ⟨key, hkey, htracked⟩ := h f hf g t ht
    refine ⟨key, hkey, ?_⟩
    have hunseen : s.sees key = none := if_neg fun heq : s.key = key => howns (heq ▸ hkey)
    show ((s.remember o.snapshots).get? key).isSome
    rw [Watch.get?_remember, Watch.Step.recall, hunseen]
    exact htracked

/-- Calls through other handles leave nothing of an observer. -/
theorem Accounts.congr {o : Observer} {log log' : Log} (h : o.Accounts log)
    (hsame : ∀ role, log'.through o.metrics role = log.through o.metrics role) :
    o.Accounts log' := by
  intro f hf g t ht
  rw [hsame] at ht
  exact h f hf g t ht

end Observer

/-! ## The invariant -/

namespace Fleet

/-- How a fleet stands with the handles that were made in it and what was done through them. -/
structure Kept (w : Fleet) (ms : List ConditionMetrics) (log : Log) : Prop where
  housed : Housed w.registry ms log
  enrolled : Enrolled [] w.registry (w.observers.map (·.metrics))
  made : (w.observers.map (·.metrics)).Sublist ms
  scope : log.Scoped
  kinds : ∀ o ∈ w.observers, o.metrics.groupKind = o.groupKind
  accounts : ∀ o ∈ w.observers, o.Accounts log

theorem create_ok {r r' : Registry} {g : GroupKind} {settings : ObserverSettings} {o : Observer}
    (h : Observer.create r g settings = (r', .ok o)) :
    ConditionMetrics.create r g settings.metrics.legacyMetrics
        (.of settings.metrics.labelProjection) = (r', .ok o.metrics) ∧
      o.groupKind = g ∧ o.snapshots = ∅ := by
  unfold Observer.create at h
  cases hm : ConditionMetrics.create r g settings.metrics.legacyMetrics
      (.of settings.metrics.labelProjection) with
  | mk r₁ result =>
  simp only [hm] at h
  cases result with
  | error e => cases h
  | ok m =>
    cases h
    exact ⟨rfl, rfl, rfl⟩

theorem create_error {r r' : Registry} {g : GroupKind} {settings : ObserverSettings}
    {e : Metrics.MetricError} (h : Observer.create r g settings = (r', .error e)) :
    ConditionMetrics.create r g settings.metrics.legacyMetrics
        (.of settings.metrics.labelProjection) = (r', .error e) := by
  unfold Observer.create at h
  cases hm : ConditionMetrics.create r g settings.metrics.legacyMetrics
      (.of settings.metrics.labelProjection) with
  | mk r₁ result =>
  simp only [hm] at h
  cases result with
  | ok m => cases h
  | error e =>
    cases h
    rfl

theorem enrolled_performCalls {own : List Metrics.Collector} {live : List ConditionMetrics}
    (m : ConditionMetrics) (calls : List RoleOps) :
    ∀ {r : Registry}, Enrolled own r live → Enrolled own (m.performCalls r calls) live := by
  induction calls with
  | nil => exact fun h => h
  | cons ops calls ih => exact fun h => ih (h.performAll m ops)

/-- An element of a list, with those before and behind it. -/
theorem split_at {α : Type} {l : List α} {i : Nat} {a : α} (h : l[i]? = some a) :
    ∃ front back, l = front ++ a :: back ∧ ∀ b, l.set i b = front ++ b :: back := by
  obtain ⟨hlt, rfl⟩ := List.getElem?_eq_some_iff.mp h
  refine ⟨l.take i, l.drop (i + 1), ?_, fun b => ?_⟩
  · rw [← List.drop_eq_getElem_cons hlt, List.take_append_drop]
  · rw [List.set_eq_take_append_cons_drop, if_pos hlt]

section Step

variable {w : Fleet} {ms : List ConditionMetrics} {log : Log} (h : w.Kept ms log)

include h

theorem kept_create {g : GroupKind} {settings : ObserverSettings} {r : Registry} {o : Observer}
    (hc : Observer.create w.registry g settings = (r, .ok o))
    (hkinds : ((ms ++ [o.metrics]).map (·.groupKind)).Nodup) :
    (⟨r, w.observers ++ [o]⟩ : Fleet).Kept (ms ++ [o.metrics]) log := by
  obtain ⟨hm, hgroup, hempty⟩ := create_ok hc
  have hcreated := (ConditionMetrics.create_cases hm).1
  -- its kind is none of those before, so the handle is new
  have hnew : o.metrics ∉ ms := by
    rw [List.map_append, List.map_singleton] at hkinds
    exact fun hmem => (List.nodup_append.mp hkinds).2.2 _
      (List.mem_map_of_mem (f := (·.groupKind)) hmem) _ (List.mem_singleton_self _) rfl
  refine { housed := h.housed.create (LabelProjection.wellFormed_of _) hm, enrolled := ?_,
           made := ?_, scope := h.scope, kinds := ?_, accounts := ?_ }
  · rw [List.map_append, List.map_singleton]
    exact h.enrolled.create hm
  · rw [List.map_append, List.map_singleton]
    exact h.made.append (List.Sublist.refl _)
  · intro o' ho'
    rcases List.mem_append.mp ho' with ho' | ho'
    · exact h.kinds o' ho'
    · obtain rfl := List.mem_singleton.mp ho'
      exact hcreated.trans hgroup.symm
  · intro o' ho'
    rcases List.mem_append.mp ho' with ho' | ho'
    · exact h.accounts o' ho'
    · -- nothing was done yet through a handle that is new
      obtain rfl := List.mem_singleton.mp ho'
      intro f hf gauge t ht
      have hnone : log.through o'.metrics gauge.role = [] := by
        unfold Log.through
        rw [List.filter_eq_nil_iff.mpr fun e he heq => ?_, List.flatMap_nil]
        exact hnew (of_decide_eq_true heq ▸ h.housed.logged e he)
      rw [hnone] at ht
      cases ht

theorem kept_create_error {g : GroupKind} {settings : ObserverSettings} {r : Registry}
    {e : Metrics.MetricError} (hc : Observer.create w.registry g settings = (r, .error e)) :
    (⟨r, w.observers⟩ : Fleet).Kept ms log := by
  have hm := create_error hc
  exact { housed := h.housed.create_error hm, enrolled := h.enrolled.create_error hm,
          made := h.made, scope := h.scope, kinds := h.kinds, accounts := h.accounts }

theorem kept_reconcile (hkinds : (ms.map (·.groupKind)).Nodup) {i : Nat} {o : Observer}
    (hi : w.observers[i]? = some o) (s : Watch.Step) :
    let next := ((⟨o, w.registry⟩ : Watch).reconcile s.now s.key s.fetched).1
    (⟨next.registry, w.observers.set i next.observer⟩ : Fleet).Kept ms
      (log ++ (s.calls o).map fun ops => (o.metrics, ops)) := by
  obtain ⟨front, back, hsplit, hset⟩ := split_at hi
  -- only the snapshots of one observer change, so the handles stay in their order
  have hmetrics : ∀ store : SnapshotStore,
      (front ++ { o with snapshots := store } :: back).map (·.metrics) =
        w.observers.map (·.metrics) := fun _ => by
    rw [hsplit, List.map_append, List.map_append]
    rfl
  have hmem : o ∈ w.observers := List.mem_of_getElem? hi
  have hmade : o.metrics ∈ ms := h.made.subset (List.mem_map_of_mem hmem)
  have hp := (h.housed.laid _ hmade).projection
  have hperm : ∀ o' : Observer, (front ++ o' :: back).Perm (o' :: (front ++ back)) :=
    fun _ => List.perm_middle
  -- kinds are distinct, so what is done through this handle is done through no other
  have hothers : ∀ o' ∈ front ++ back, o' ∈ w.observers ∧ o.metrics ≠ o'.metrics := by
    intro o' ho'
    have hdistinct := (List.Nodup.of_map _ hkinds).sublist h.made
    rw [hsplit, ((hperm o).map _).nodup_iff] at hdistinct
    rw [List.map_cons, List.nodup_cons] at hdistinct
    refine ⟨?_, fun heq => hdistinct.1 (heq ▸ List.mem_map_of_mem ho')⟩
    rw [hsplit, (hperm o).mem_iff]
    exact List.mem_cons_of_mem _ ho'
  simp only [Watch.reconcile_eq, hset]
  refine { housed := h.housed.performCalls hmade (s.calls o), enrolled := ?_, made := ?_,
           scope := ?_, kinds := ?_, accounts := ?_ }
  · rw [hmetrics]
    exact enrolled_performCalls _ _ h.enrolled
  · rw [hmetrics]
    exact h.made
  · intro e he
    rcases List.mem_append.mp he with he | he
    · exact h.scope e he
    · obtain ⟨ops, hops, rfl⟩ := List.mem_map.mp he
      exact Watch.scoped_calls hp hops
  · intro o' ho'
    rcases List.mem_cons.mp ((hperm _).mem_iff.mp ho') with rfl | ho'
    · exact h.kinds o hmem
    · exact h.kinds o' (hothers o' ho').1
  · intro o' ho'
    rcases List.mem_cons.mp ((hperm _).mem_iff.mp ho') with rfl | ho'
    · exact (h.accounts o hmem).remember hp s
    · -- the log of the other handles has not grown
      refine (h.accounts o' (hothers o' ho').1).congr fun role => ?_
      rw [Metrics.Log.through_calls, if_neg (hothers o' ho').2, List.append_nil]

theorem kept_shutdown {i : Nat} {o : Observer} (hi : w.observers[i]? = some o) :
    (⟨o.shutdown w.registry, w.observers.eraseIdx i⟩ : Fleet).Kept ms log := by
  have hsub := List.eraseIdx_sublist w.observers i
  refine { housed := h.housed.unregister _, enrolled := ?_, made := (hsub.map _).trans h.made,
           scope := h.scope, kinds := fun o ho => h.kinds o (hsub.subset ho),
           accounts := fun o ho => h.accounts o (hsub.subset ho) }
  have henrolled := h.enrolled.unregister_at (i := i) (m := o.metrics) (by simp [hi])
  rwa [List.eraseIdx_map] at henrolled

theorem kept_step (e : Event) (hkinds : ((ms ++ w.madeBy e).map (·.groupKind)).Nodup) :
    ∃ log', (w.step e).Kept (ms ++ w.madeBy e) log' := by
  cases e with
  | create g settings =>
    unfold Fleet.step
    unfold madeBy at hkinds ⊢
    simp only at hkinds ⊢
    cases hc : Observer.create w.registry g settings with
    | mk r result =>
    cases result with
    | ok o =>
      rw [hc] at hkinds
      exact ⟨log, kept_create h hc hkinds⟩
    | error e =>
      simp only [List.append_nil]
      exact ⟨log, kept_create_error h hc⟩
  | reconcile i s =>
    unfold Fleet.step
    simp only [madeBy, List.append_nil] at hkinds ⊢
    cases hi : w.observers[i]? with
    | none => exact ⟨log, h⟩
    | some o => exact ⟨_, kept_reconcile h hkinds hi s⟩
  | shutdown i =>
    unfold Fleet.step
    simp only [madeBy, List.append_nil]
    cases hi : w.observers[i]? with
    | none => exact ⟨log, h⟩
    | some o => exact ⟨log, kept_shutdown h hi⟩

end Step

theorem kept_run (events : List Event) : ∀ {w : Fleet} {ms : List ConditionMetrics} {log : Log},
    w.Kept ms log → ((ms ++ w.made events).map (·.groupKind)).Nodup →
      ∃ log', (w.run events).Kept (ms ++ w.made events) log' := by
  induction events with
  | nil =>
    intro w ms log h _
    rw [made, List.append_nil]
    exact ⟨log, h⟩
  | cons e events ih =>
    intro w ms log h hkinds
    rw [made, ← List.append_assoc] at hkinds ⊢
    obtain ⟨log', h'⟩ := kept_step h e (hkinds.sublist ((List.sublist_append_left _ _).map _))
    exact ih h' hkinds

theorem kept_start (scope : String) (events : List Event)
    (hkinds : (((start scope).made events).map (·.groupKind)).Nodup) :
    ∃ log, ((start scope).run events).Kept ((start scope).made events) log := by
  have hstart : (start scope).Kept [] [] := by
    refine { housed := Housed.nil rfl, enrolled := ?_, made := List.Sublist.slnil,
             scope := fun _ he => (nomatch he), kinds := fun _ ho => (nomatch ho),
             accounts := fun _ ho => (nomatch ho) }
    exact Metrics.Roster.enrolled_start scope []
  exact kept_run events hstart hkinds

end Fleet

end StatusWatch
