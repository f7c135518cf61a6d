import Mathlib.Data.List.Induction
import StatusWatch.Proofs.Transitions

/-!
# Runs, key by key

A step is about one key, and it reads nothing of the observer but the handle and the
snapshot of that key. So whatever a run has to say about a key, it says because of the
steps that see the key, in their order, and the other steps could as well be left out.

- `Step.sees`: what a step sees of a resource; `Step.recall`: what it makes of its snapshot.
- `Keeps`: a selection of steps that leaves out none that sees a key.
- `AlikeAt`: observers that a step on a key cannot tell apart.
- `outputs`, `Keyed`: what the steps of a run put out, and when it goes by keys.
- `outputs_filter`: what is put out about a key is the same for every selection that keeps
  its steps.
- `events_eq_outputs`, `Step.ops`, `opsOn`: events and operations on families as outputs.
- `at?_run`: a family after a run.
- `Repeated`: a resource that is observed twice, with nothing seen of it in between.
-/

namespace StatusWatch

open Metrics (ConditionFamilies ConditionMetrics RoleOps Role SeriesOp)

namespace Watch

/-! ## What is seen of a key -/

/-- What a step sees of a resource: nothing if it is about another one or its fetch fails,
otherwise what was fetched. -/
def Step.sees (key : ResourceKey) (s : Step) : Option (Option Resource) :=
  if s.key = key then s.fetched.toOption else none

/-- The snapshot of a resource after a step, given the one before. -/
def Step.recall (key : ResourceKey) (previous : Option Snapshot) (s : Step) : Option Snapshot :=
  match s.sees key with
  | none => previous
  | some found => found.map fun resource => remembered (observe s.now resource) previous

/-- Whether the fetch of a step succeeded. -/
def Step.succeeds (s : Step) : Bool := s.fetched.toOption.isSome

theorem key_of_sees {key : ResourceKey} {s : Step} {found : Option Resource}
    (h : s.sees key = some found) : s.key = key ∧ s.fetched = .ok found := by
  unfold Step.sees at h
  split at h
  · rename_i hkey
    refine ⟨hkey, ?_⟩
    cases hf : s.fetched with
    | error e =>
      rw [hf] at h
      cases h
    | ok found' =>
      rw [hf] at h
      cases h
      rfl
  · cases h

theorem sees_of_fetched {key : ResourceKey} {s : Step} {found : Option Resource}
    (hkey : s.key = key) (hf : s.fetched = .ok found) : s.sees key = some found := by
  rw [Step.sees, if_pos hkey, hf]
  rfl

theorem get?_remember (store : SnapshotStore) (s : Step) (key : ResourceKey) :
    (s.remember store).get? key = s.recall key (store.get? key) := by
  unfold Step.remember Step.recall Step.sees
  by_cases hkey : s.key = key
  · subst hkey
    rw [if_pos rfl]
    match s.fetched with
    | .error e => rfl
    | .ok none => simp [Except.toOption]
    | .ok (some resource) => simp [Except.toOption]
  · rw [if_neg hkey]
    match s.fetched with
    | .error e => rfl
    | .ok none => simp [hkey]
    | .ok (some resource) => simp [hkey]

/-- The snapshot of a key after a run. -/
theorem get?_run (w : Watch) (steps : List Step) (key : ResourceKey) :
    (w.run steps).1.observer.snapshots.get? key =
      steps.foldl (Step.recall key) (w.observer.snapshots.get? key) := by
  rw [observer_run]
  show (steps.foldl Step.remember w.observer.snapshots).get? key = _
  generalize w.observer.snapshots = store
  induction steps generalizing store with
  | nil => rfl
  | cons s steps ih => rw [List.foldl_cons, ih, get?_remember, List.foldl_cons]

/-! ## Selections of steps -/

/-- A selection of steps that leaves out none that sees a key. -/
def Keeps (key : ResourceKey) (p : Step → Bool) : Prop := ∀ s, p s = false → s.sees key = none

/-- The steps of a run that are about a key. -/
def stepsOf (key : ResourceKey) (steps : List Step) : List Step := steps.filter (·.key = key)

theorem keeps_key (key : ResourceKey) : Keeps key (fun s => s.key = key) :=
  fun _ hs => if_neg (of_decide_eq_false hs)

theorem recall_of_not_seen {key : ResourceKey} {s : Step} (h : s.sees key = none)
    (previous : Option Snapshot) : s.recall key previous = previous := by
  rw [Step.recall, h]

theorem foldl_recall_filter {key : ResourceKey} {p : Step → Bool} (hp : Keeps key p)
    (steps : List Step) : ∀ previous : Option Snapshot,
    (steps.filter p).foldl (Step.recall key) previous = steps.foldl (Step.recall key) previous := by
  induction steps with
  | nil => exact fun _ => rfl
  | cons s steps ih =>
    intro previous
    rw [List.filter_cons]
    split
    · rw [List.foldl_cons, List.foldl_cons, ih]
    · rename_i hs
      rw [ih, List.foldl_cons, recall_of_not_seen (hp s (Bool.eq_false_iff.mpr hs))]

/-- Steps that do not see a key leave its snapshot alone. -/
theorem get?_run_filter {key : ResourceKey} {p : Step → Bool} (hp : Keeps key p) (w : Watch)
    (steps : List Step) :
    (w.run (steps.filter p)).1.observer.snapshots.get? key =
      (w.run steps).1.observer.snapshots.get? key := by
  rw [get?_run, get?_run, foldl_recall_filter hp]

/-! ## Observers that are alike at a key -/

/-- Observers that a step on a key cannot tell apart. -/
structure AlikeAt (key : ResourceKey) (o o' : Observer) : Prop where
  metrics : o'.metrics = o.metrics
  groupKind : o'.groupKind = o.groupKind
  snapshot : o'.snapshots.get? key = o.snapshots.get? key

theorem AlikeAt.calls {s : Step} {o o' : Observer} (h : AlikeAt s.key o o') :
    s.calls o' = s.calls o := by
  unfold Step.calls
  rw [h.metrics, h.snapshot]

theorem AlikeAt.published {s : Step} {o o' : Observer} (h : AlikeAt s.key o o') :
    s.published o' = s.published o := by
  unfold Step.published Observer.reference
  rw [h.groupKind, h.snapshot]

/-- A run leads to observers that are alike at a key, whatever selection that keeps its steps
is run. -/
theorem alikeAt_run_filter {key : ResourceKey} {p : Step → Bool} (hp : Keeps key p) (w : Watch)
    (steps : List Step) :
    AlikeAt key (w.run steps).1.observer (w.run (steps.filter p)).1.observer where
  metrics := by rw [observer_run, observer_run]
  groupKind := by rw [observer_run, observer_run]
  snapshot := get?_run_filter hp w steps

/-! ## What a run puts out -/

section Outputs

variable {β : Type} (out : Observer → Step → List β)

/-- What the steps of a run put out, each given the observer by then. -/
def outputs (w : Watch) (steps : List Step) : List β :=
  (occasions [] steps).flatMap fun p => out (w.run p.1).1.observer p.2

theorem outputs_concat (w : Watch) (steps : List Step) (s : Step) :
    w.outputs out (steps ++ [s]) = w.outputs out steps ++ out (w.run steps).1.observer s := by
  simp [outputs, occasions_concat]

theorem outputs_append (w : Watch) (first second : List Step) :
    w.outputs out (first ++ second) =
      w.outputs out first ++ (w.run first).1.outputs out second := by
  induction second using List.reverseRecOn with
  | nil => simp [outputs, occasions]
  | append_singleton second s ih =>
    rw [← List.append_assoc, outputs_concat, outputs_concat, ih, run_append, List.append_assoc]

/-- Outputs that go by keys: what a step puts out is about its key, depends on what is known
of that key only, and is nothing if the fetch fails. -/
structure Keyed (keyOf : β → ResourceKey) : Prop where
  key : ∀ o s, ∀ b ∈ out o s, keyOf b = s.key
  failed : ∀ o s, s.succeeds = false → out o s = []
  alike : ∀ o o' s, AlikeAt s.key o o' → out o' s = out o s

variable {out} {keyOf : β → ResourceKey} (h : Keyed out keyOf)

include h

/-- A step that does not see a key puts nothing out about it. -/
theorem Keyed.filter_of_not_seen {key : ResourceKey} {s : Step} (hs : s.sees key = none)
    (o : Observer) : (out o s).filter (keyOf · = key) = [] := by
  refine List.filter_eq_nil_iff.mpr fun b hb hkey => ?_
  have hkey : s.key = key := (h.key o s b hb).symm.trans (of_decide_eq_true hkey)
  rw [Step.sees, if_pos hkey] at hs
  rw [h.failed o s (by rw [Step.succeeds, hs]; rfl)] at hb
  cases hb

/-- What a run puts out about a key is the same for every selection that keeps its steps. -/
theorem outputs_filter {key : ResourceKey} {p : Step → Bool} (hp : Keeps key p) (w : Watch)
    (steps : List Step) :
    (w.outputs out (steps.filter p)).filter (keyOf · = key) =
      (w.outputs out steps).filter (keyOf · = key) := by
  induction steps using List.reverseRecOn with
  | nil => rfl
  | append_singleton steps s ih =>
    rw [List.filter_append, outputs_concat, List.filter_append, List.filter_singleton]
    cases hs : p s with
    | true =>
      rw [cond_true, outputs_concat, List.filter_append, ih]
      refine congrArg _ ?_
      -- a step on the key finds an observer that is alike there, any other one puts nothing out
      by_cases hkey : s.key = key
      · subst hkey
        rw [h.alike _ _ s (alikeAt_run_filter hp w steps)]
      · have hnot : s.sees key = none := if_neg hkey
        rw [h.filter_of_not_seen hnot, h.filter_of_not_seen hnot]
    | false =>
      -- what is left out sees nothing of the key
      rw [cond_false, List.append_nil, ih, h.filter_of_not_seen (hp s hs), List.append_nil]

/-- So runs with the same steps of each key put out the same about each key. -/
theorem outputs_congr {w : Watch} {steps steps' : List Step} {key : ResourceKey}
    (hsteps : stepsOf key steps' = stepsOf key steps) :
    (w.outputs out steps').filter (keyOf · = key) =
      (w.outputs out steps).filter (keyOf · = key) := by
  rw [← outputs_filter h (keeps_key key) w steps', ← outputs_filter h (keeps_key key) w steps]
  exact congrArg (fun steps => (w.outputs out steps).filter (keyOf · = key)) hsteps

end Outputs

/-! ## Events and operations as outputs -/

theorem key_of_mem_published {o : Observer} {s : Step} {e : StatusEvent} (h : e ∈ s.published o) :
    e.involved.key = s.key := by
  unfold Step.published at h
  -- every event is about the resource that was fetched or found missing
  match hf : s.fetched with
  | .error _ =>
    rw [hf] at h
    cases h
  | .ok none =>
    rw [hf] at h
    simp only at h
    cases hp : o.snapshots.get? s.key with
    | none =>
      rw [hp] at h
      cases h
    | some p =>
      rw [hp] at h
      obtain ⟨f, -, rfl⟩ := List.mem_map.mp h
      rfl
  | .ok (some resource) =>
    rw [hf] at h
    simp only at h
    rcases List.mem_append.mp h with h | h
    · unfold finalizerEvents at h
      cases hp : o.snapshots.get? s.key with
      | none =>
        rw [hp] at h
        cases h
      | some p =>
        rw [hp] at h
        obtain ⟨f, -, rfl⟩ := List.mem_map.mp h
        rfl
    · obtain ⟨mv, -, hmv⟩ := List.mem_flatMap.mp h
      obtain ⟨old, -, rfl⟩ := Option.map_eq_some_iff.mp (Option.mem_toList.mp hmv)
      rfl

theorem keyed_published : Keyed (fun o s => s.published o) (·.involved.key) where
  key _ _ _ he := key_of_mem_published he
  failed o s hs := by
    unfold Step.succeeds at hs
    unfold Step.published
    match hf : s.fetched with
    | .error _ => rfl
    | .ok found =>
      rw [hf] at hs
      cases hs
  alike _ _ _ h := h.published

theorem events_eq_outputs (w : Watch) (steps : List Step) :
    w.events steps = w.outputs (fun o s => s.published o) steps := by
  induction steps using List.reverseRecOn with
  | nil => rfl
  | append_singleton steps s ih => rw [events_concat, outputs_concat, ih]

/-- What a step writes to the families with a role, under its key. -/
def Step.ops (role : Role) (o : Observer) (s : Step) : List (ResourceKey × SeriesOp) :=
  (RoleOps.on (s.calls o).flatten role).map fun op => (s.key, op)

theorem keyed_ops (role : Role) : Keyed (Step.ops role) (·.1) where
  key _ _ e he := by
    obtain ⟨op, -, rfl⟩ := List.mem_map.mp he
    rfl
  failed o s hs := by
    unfold Step.succeeds at hs
    unfold Step.ops Step.calls
    match hf : s.fetched with
    | .error _ => rfl
    | .ok found =>
      rw [hf] at hs
      cases hs
  alike o o' s h := by
    unfold Step.ops
    rw [h.calls]

/-- The operations of a run on the families with a role. -/
def opsOn (w : Watch) (role : Role) (steps : List Step) : List SeriesOp :=
  (w.outputs (Step.ops role) steps).map (·.2)

theorem opsOn_concat (w : Watch) (role : Role) (steps : List Step) (s : Step) :
    w.opsOn role (steps ++ [s]) =
      w.opsOn role steps ++ RoleOps.on (s.calls (w.run steps).1.observer).flatten role := by
  unfold opsOn
  rw [outputs_concat, List.map_append]
  refine congrArg _ ?_
  unfold Step.ops
  rw [List.map_map]
  exact List.map_id _

/-- A family of a surface after a run: the operations of the steps on its role, one after the
other. -/
theorem at?_run {w : Watch} (hsep : w.observer.metrics.Separate) {f : ConditionFamilies}
    (hf : f ∈ w.observer.metrics.surfaces) (role : Role) (steps : List Step) :
    (w.run steps).1.registry.at? (f.collector role) =
      (w.registry.at? (f.collector role)).map fun fam =>
        (w.opsOn role steps).foldl (fun fam op => op.apply (f.collector role) fam) fam := by
  induction steps using List.reverseRecOn with
  | nil =>
    show w.registry.at? _ = (w.registry.at? _).map id
    rw [Option.map_id, id]
  | append_singleton steps s ih =>
    rw [registry_run_concat, Metrics.ConditionMetrics.at?_performCalls hsep hf, ih, opsOn_concat,
      Option.map_map]
    simp only [Function.comp_def, List.foldl_append]

/-! ## Failed steps -/

/-- A failed step changes nothing. -/
theorem reconcile_of_failed {w : Watch} {s : Step} (h : s.succeeds = false) :
    (w.reconcile s.now s.key s.fetched).1 = w := by
  unfold Step.succeeds at h
  match hf : s.fetched with
  | .error _ => rfl
  | .ok found =>
    rw [hf] at h
    cases h

/-- Failed steps may be left out of a run. -/
theorem run_succeeding (w : Watch) (steps : List Step) :
    (w.run (steps.filter Step.succeeds)).1 = (w.run steps).1 := by
  induction steps using List.reverseRecOn with
  | nil => rfl
  | append_singleton steps s ih =>
    rw [List.filter_append, run_concat, List.filter_singleton]
    cases hs : s.succeeds with
    | true => rw [cond_true, run_concat, ih]
    | false => rw [cond_false, List.append_nil, ih, reconcile_of_failed hs]

/-! ## Observing twice -/

/-- Two steps see the same resource, and no step between them sees its key. -/
structure Repeated (key : ResourceKey) (resource : Resource) (first : Step) (between : List Step)
    (second : Step) : Prop where
  first : first.sees key = some (some resource)
  between : ∀ s ∈ between, s.sees key = none
  second : second.sees key = some (some resource)

/-- Steps that see nothing of a key leave its snapshot alone. -/
theorem get?_run_of_not_seen {key : ResourceKey} {steps : List Step}
    (h : ∀ s ∈ steps, s.sees key = none) (w : Watch) :
    (w.run steps).1.observer.snapshots.get? key = w.observer.snapshots.get? key := by
  rw [get?_run]
  generalize w.observer.snapshots.get? key = previous
  induction steps with
  | nil => rfl
  | cons s steps ih =>
    rw [List.foldl_cons, recall_of_not_seen (h s List.mem_cons_self)]
    exact ih fun s' hs' => h s' (List.mem_cons_of_mem _ hs')

/-- The snapshot after a step that sees a resource. -/
theorem get?_run_concat_of_seen {key : ResourceKey} {s : Step} {resource : Resource}
    (h : s.sees key = some (some resource)) (w : Watch) (steps : List Step) :
    (w.run (steps ++ [s])).1.observer.snapshots.get? key =
      some (remembered (observe s.now resource)
        ((w.run steps).1.observer.snapshots.get? key)) := by
  rw [get?_run, get?_run, List.foldl_append, List.foldl_cons, List.foldl_nil, Step.recall, h]
  rfl

/-- The second observation finds the snapshot that the first one left. -/
theorem Repeated.get?_before_second {key : ResourceKey} {resource : Resource} {first second : Step}
    {between : List Step} (h : Repeated key resource first between second) (w : Watch)
    (before : List Step) :
    (w.run (before ++ [first] ++ between)).1.observer.snapshots.get? key =
      some (remembered (observe first.now resource)
        ((w.run before).1.observer.snapshots.get? key)) := by
  rw [run_append]
  exact (get?_run_of_not_seen h.between _).trans (get?_run_concat_of_seen h.first w before)

end Watch

end StatusWatch
