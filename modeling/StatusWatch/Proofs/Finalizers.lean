import StatusWatch.Proofs.Keys

/-!
# Events about finalizers

A finalizer is announced as gone either by the first observation that does not find it any
more or, if the resource itself is gone, by the observation that finds nothing. Both
compare with the finalizers that were observed last, so every disappearance is announced
once, and by one of the two.

- `observations`: what a run sees of a resource, observation by observation.
- `finalizers_run`: what is remembered of finalizers and labels is what was observed last.
- `isFinalizedOf`: whether an event announces that a finalizer is gone.
- `falls`: how often a sequence falls from true to false.
- `finalized_run`: the announcements of a run count the disappearances.
-/

namespace StatusWatch

namespace StatusEvent

/-- Whether an event announces that a finalizer is gone. -/
def isFinalizedOf (finalizer : String) (e : StatusEvent) : Bool :=
  e.reason = finalizedReason && e.message = "Finalized " ++ finalizer

theorem isFinalizedOf_finalized (now : Instant) (involved : ObjectReference) (f g : String) :
    (finalized now involved f).isFinalizedOf g = decide (f = g) := by
  have hmessage : "Finalized " ++ f = "Finalized " ++ g ↔ f = g := by
    constructor
    · intro h
      have hlist := congrArg String.toList h
      simp only [String.toList_append, List.append_cancel_left_eq] at hlist
      exact String.toList_inj.mp hlist
    · rintro rfl
      rfl
  unfold isFinalizedOf finalized
  simp [of, hmessage]

/-- Announcements about conditions are worded differently. -/
theorem isFinalizedOf_transition (now : Instant) (involved : ObjectReference)
    (old : ConditionStatus) (c : Condition) (f : String) :
    (transition now involved old c).isFinalizedOf f = false := by
  rw [Bool.eq_false_iff]
  intro h
  unfold isFinalizedOf at h
  rw [Bool.and_eq_true, decide_eq_true_eq, decide_eq_true_eq] at h
  -- an event with this message would not be about a condition
  have hnot := isTransition_finalized now involved f
  have his := isTransition_transition now involved old c
  unfold isTransition at hnot his
  rw [h.2] at his
  exact Bool.false_ne_true (hnot.symm.trans his)

end StatusEvent

namespace Watch

/-! ## Observations -/

/-- What a run sees of a resource, observation by observation. -/
def observations (key : ResourceKey) (steps : List Step) : List (Option Resource) :=
  steps.filterMap (Step.sees key)

theorem observations_concat (key : ResourceKey) (steps : List Step) (s : Step) :
    observations key (steps ++ [s]) = observations key steps ++ (s.sees key).toList := by
  unfold observations
  rw [List.filterMap_append]
  cases h : s.sees key <;> simp [h]

/-- What is remembered of finalizers and labels is what was observed last. -/
theorem finalizers_run {w : Watch} {key : ResourceKey}
    (h : w.observer.snapshots.get? key = none) (steps : List Step) :
    ((w.run steps).1.observer.snapshots.get? key).map (fun p => (p.finalizers, p.labels)) =
      (observations key steps).getLast?.join.map fun resource =>
        (resource.metadata.finalizers, resource.metadata.labels) := by
  rw [get?_run, h]
  induction steps using List.reverseRecOn with
  | nil => rfl
  | append_singleton steps s ih =>
    rw [observations_concat, List.foldl_append, List.foldl_cons, List.foldl_nil, Step.recall]
    rcases s.sees key with _ | _ | resource
    · rw [Option.toList_none, List.append_nil]
      exact ih
    · rw [Option.toList_some, List.getLast?_concat]
      rfl
    · rw [Option.toList_some, List.getLast?_concat]
      show some ((resource.bind s.now).metadata.finalizers,
        (resource.bind s.now).metadata.labels) = _
      rw [Resource.metadata_bind]
      rfl

/-! ## Disappearances -/

/-- Whether an observation finds a finalizer. -/
def present (f : String) (found : Option Resource) : Bool :=
  found.any fun resource => resource.metadata.finalizers.contains f

/-- How often a sequence falls from true to false. -/
def falls : List Bool → Nat
  | [] => 0
  | a :: l => (if a = true ∧ l.head? = some false then 1 else 0) + falls l

theorem falls_concat (l : List Bool) (b : Bool) :
    falls (l ++ [b]) = falls l + if l.getLast? = some true ∧ b = false then 1 else 0 := by
  induction l with
  | nil => simp [falls]
  | cons a l ih =>
    rw [List.cons_append, falls, ih, falls]
    cases l with
    | nil => simp [falls]
    | cons a' l =>
      rw [List.getLast?_cons_cons, List.cons_append, List.head?_cons, List.head?_cons]
      omega

/-- Finalizers that are announced as gone are announced as often as they are listed. -/
theorem countP_finalized (now : Instant) (involved : ObjectReference) (finalizers : List String)
    (f : String) :
    (finalizers.map (StatusEvent.finalized now involved)).countP (·.isFinalizedOf f) =
      finalizers.count f := by
  rw [List.countP_map, List.count]
  refine List.countP_congr fun g _ => ?_
  simp [StatusEvent.isFinalizedOf_finalized]

/-- Moves of conditions announce no finalizer. -/
theorem countP_moves (now : Instant) (involved : ObjectReference) (mvs : List Move) (f : String) :
    (mvs.flatMap (Move.events now involved)).countP (·.isFinalizedOf f) = 0 := by
  rw [List.countP_eq_zero]
  intro e he
  obtain ⟨mv, -, hmv⟩ := List.mem_flatMap.mp he
  obtain ⟨old, -, rfl⟩ := Option.map_eq_some_iff.mp (Option.mem_toList.mp hmv)
  rw [StatusEvent.isFinalizedOf_transition]
  exact Bool.false_ne_true

/-- What a step announces about a finalizer: all its mentions in what was observed last, unless
it is found again. -/
theorem finalized_published {o : Observer} {s : Step} {key : ResourceKey} {found : Option Resource}
    (h : s.sees key = some found) (f : String) :
    (s.published o).countP (fun e => e.isFinalizedOf f && e.involved.key = key) =
      match o.snapshots.get? key with
      | none => 0
      | some p => if present f found then 0 else p.finalizers.count f := by
  obtain ⟨hkey, hfetched⟩ := key_of_sees h
  -- all that a step publishes is about its key
  have habout : (s.published o).countP (fun e => e.isFinalizedOf f && e.involved.key = key) =
      (s.published o).countP (·.isFinalizedOf f) := by
    refine List.countP_congr fun e he => ?_
    rw [key_of_mem_published he, hkey]
    simp
  rw [habout]
  unfold Step.published
  rw [hfetched, hkey]
  cases found with
  | none =>
    cases o.snapshots.get? key with
    | none => rfl
    | some p => exact countP_finalized s.now _ p.finalizers f
  | some resource =>
    have hfinalizers : (observe s.now resource).finalizers = resource.metadata.finalizers := by
      show (resource.bind s.now).metadata.finalizers = _
      rw [Resource.metadata_bind]
    simp only [List.countP_append, countP_moves, Nat.add_zero]
    unfold finalizerEvents
    cases o.snapshots.get? key with
    | none => rfl
    | some p =>
      simp only
      rw [countP_finalized, hfinalizers, present, Option.any_some]
      split
      · rename_i hin
        rw [List.count_eq_zero]
        simp [List.mem_filter, List.contains_iff_mem.mp hin]
      · rename_i hout
        exact List.count_filter (by simpa using hout)

/-- The announcements of a run about a finalizer count its disappearances, if no observation
finds a finalizer twice. -/
theorem finalized_run {w : Watch} {key : ResourceKey} (h : w.observer.snapshots.get? key = none)
    (f : String) (steps : List Step)
    (hdistinct : ∀ resource, some resource ∈ observations key steps →
      resource.metadata.finalizers.Nodup) :
    (w.events steps).countP (fun e => e.isFinalizedOf f && e.involved.key = key) =
      falls ((observations key steps).map (present f)) := by
  induction steps using List.reverseRecOn with
  | nil => rfl
  | append_singleton steps s ih =>
    rw [observations_concat] at hdistinct ⊢
    have ih := ih fun resource hr => hdistinct resource (List.mem_append_left _ hr)
    rw [events_concat, List.countP_append, ih]
    cases hs : s.sees key with
    | none =>
      -- what is published is about another key
      have hnone : (s.published (w.run steps).1.observer).countP
          (fun e => e.isFinalizedOf f && e.involved.key = key) = 0 := by
        rw [← List.countP_filter, keyed_published.filter_of_not_seen hs]
        rfl
      rw [hnone, Option.toList_none, List.append_nil, Nat.add_zero]
    | some found =>
      rw [Option.toList_some, List.map_append, List.map_singleton, falls_concat,
        finalized_published hs]
      refine congrArg _ ?_
      have hlast := finalizers_run h steps
      rw [List.getLast?_map]
      cases hp : (w.run steps).1.observer.snapshots.get? key with
      | none =>
        -- nothing is remembered, so nothing was there last
        rw [hp] at hlast
        have hjoin := Option.map_eq_none_iff.mp hlast.symm
        cases hgot : (observations key steps).getLast? with
        | none => simp
        | some last =>
          rw [hgot, Option.join_some] at hjoin
          rw [hjoin]
          simp [present]
      | some p =>
        rw [hp] at hlast
        obtain ⟨resource, hresource, heq⟩ := Option.map_eq_some_iff.mp hlast.symm
        obtain ⟨hfinalizers, -⟩ := Prod.mk.inj heq
        have hgot := Option.join_eq_some_iff.mp hresource
        have hnodup : resource.metadata.finalizers.Nodup :=
          hdistinct resource (List.mem_append_left _ (List.mem_of_getLast? hgot))
        rw [hgot]
        simp only [Option.map_some, Option.some.injEq, ← hfinalizers, hnodup.count]
        cases hfound : present f found <;> simp [present]

end Watch

end StatusWatch
