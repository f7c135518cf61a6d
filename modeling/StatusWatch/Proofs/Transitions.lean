import Mathlib.Data.List.Forall2
import Mathlib.Data.List.Induction
import StatusWatch.Proofs.ConditionSets
import StatusWatch.Proofs.Reconcile

/-!
# Transition reports

A run reports how conditions move. What it has to report depends on nothing but what its
steps find: each condition is compared with what the latest successful observation of the
same resource found of its type. This module states the reports that are due and shows
that the events of a run are those of its reports.

- `Step.finds`, `lastFound`: what a run finds of one condition type of a resource.
- `Step.due`, `due`: the reports that are due.
- `Stretch`: a part of a run throughout which a resource has a condition type.
- `transitions_run`: the transition events of a run are those of its reports.
- `chained_of_stretch`: the events of a stretch form a chain of statuses.
- `length_due`: reports are transitions and beginnings of stretches.
-/

namespace StatusWatch

open Condition (Distinct)

/-! ## Transition events -/

namespace StatusEvent

/-- How the messages of transition events begin. -/
def transitionPrefix : String := "Status condition transitioned"

/-- Whether an event is about a condition and not about a finalizer. -/
def isTransition (e : StatusEvent) : Bool :=
  transitionPrefix.toList.isPrefixOf e.message.toList

/-- Whether an event is about a condition of the given type. -/
def isTransitionOf (t : String) (e : StatusEvent) : Bool := e.isTransition && e.reason = t

/-- An event tells of a move from one status to another. -/
def Tells (e : StatusEvent) (move : ConditionStatus × ConditionStatus) : Prop :=
  ∃ now involved c, c.status = move.2 ∧ e = .transition now involved move.1 c

@[simp] theorem isTransition_transition (now : Instant) (involved : ObjectReference)
    (old : ConditionStatus) (c : Condition) :
    (transition now involved old c).isTransition = true := by
  have hbegins : transitionPrefix.toList <+: "Status condition transitioned, Type: ".toList := by
    decide
  unfold isTransition transition
  rw [List.isPrefixOf_iff_prefix]
  simp only [of, String.toList_append, List.append_assoc]
  exact hbegins.trans (List.prefix_append _ _)

@[simp] theorem isTransition_finalized (now : Instant) (involved : ObjectReference)
    (finalizer : String) : (finalized now involved finalizer).isTransition = false := by
  unfold isTransition finalized
  simp only [of, String.toList_append]
  rfl

/-- The message of an event tells which statuses it is about. -/
theorem Tells.unique {e : StatusEvent} {a b : ConditionStatus × ConditionStatus}
    (ha : e.Tells a) (hb : e.Tells b) : a = b := by
  obtain ⟨now, involved, c, hc, rfl⟩ := ha
  obtain ⟨now', involved', c', hc', heq⟩ := hb
  simp only [transition, of, StatusEvent.mk.injEq, List.cons.injEq] at heq
  obtain ⟨-, -, -, htype, hmessage, -, -, hstatus, -⟩ := heq
  have hnew : a.2 = b.2 := by
    rw [← hc, ← hc']
    revert hstatus
    cases c.status <;> cases c'.status <;> simp [ConditionStatus.text]
  -- the old statuses follow the same text, and no status begins like another
  have hold : a.1 = b.1 := by
    have hlist := congrArg String.toList hmessage
    simp only [String.toList_append, htype, List.append_assoc, List.append_cancel_left_eq] at hlist
    revert hlist
    cases a.1 <;> cases b.1 <;> simp [ConditionStatus.text]
  exact Prod.ext hold hnew

end StatusEvent

namespace Watch

/-! ## What a run finds -/

/-- What a step finds of a condition type of a resource: nothing if it is about another
resource or its fetch fails, otherwise the condition if there is one. -/
def Step.finds (key : ResourceKey) (t : String) (s : Step) : Option (Option Condition) :=
  if s.key = key then
    match s.fetched with
    | .error _ => none
    | .ok none => some none
    | .ok (some resource) => some ((observe s.now resource).get? t)
  else none

/-- What the latest successful observation of a resource found of a condition type. -/
def lastFound (key : ResourceKey) (t : String) (steps : List Step) : Option Condition :=
  (steps.filterMap (Step.finds key t)).getLast?.join

theorem lastFound_concat (key : ResourceKey) (t : String) (steps : List Step) (s : Step) :
    lastFound key t (steps ++ [s]) = (s.finds key t).getD (lastFound key t steps) := by
  unfold lastFound
  rw [List.filterMap_append]
  cases h : s.finds key t with
  | none => simp [h]
  | some found => simp [h]

/-- The snapshots hold what was found last. -/
def Remembers (store : SnapshotStore) (steps : List Step) : Prop :=
  ∀ key t, (store.get? key).bind (·.get? t) = lastFound key t steps

theorem Remembers.remember {store : SnapshotStore} {steps : List Step}
    (h : Remembers store steps) (s : Step) : Remembers (s.remember store) (steps ++ [s]) := by
  intro key t
  rw [lastFound_concat, ← h key t]
  unfold Step.remember Step.finds
  by_cases hkey : s.key = key
  · subst hkey
    rw [if_pos rfl]
    match s.fetched with
    | .error e => rfl
    | .ok none => simp [OrderedMap.get?_erase]
    | .ok (some resource) =>
      simp only [OrderedMap.get?_insert, if_true, Option.bind_some, Option.getD_some]
      rfl
  · rw [if_neg hkey]
    match s.fetched with
    | .error e => rfl
    | .ok none => simp [OrderedMap.get?_erase, hkey]
    | .ok (some resource) => simp [OrderedMap.get?_insert, hkey]

/-- So they do throughout a run. -/
theorem remembers_run {w : Watch} (h : w.observer.snapshots = ∅) (steps : List Step) :
    Remembers (w.run steps).1.observer.snapshots steps := by
  rw [observer_run]
  show Remembers (steps.foldl Step.remember w.observer.snapshots) steps
  induction steps using List.reverseRecOn with
  | nil =>
    intro key t
    rw [List.foldl_nil, h]
    rfl
  | append_singleton steps s ih =>
    rw [List.foldl_append]
    exact ih.remember s

/-! ## Reports that are due -/

/-- A condition that is new or whose status moved, with what is known about it. -/
structure Report where
  now : Instant
  involved : ObjectReference
  labels : Labels
  current : Condition
  /-- What was found last. -/
  old : Option Condition

namespace Report

/-- The event of a report: none if the condition is new. -/
def event (r : Report) : Option StatusEvent :=
  r.old.map fun old => .transition r.now r.involved old.status r.current

/-- The status that is left, and for how long it held: nothing if the condition is new. -/
def stay (r : Report) : Option (Condition × Float) :=
  r.old.map fun old => (old, secondsBetween r.current.lastTransition old.lastTransition)

end Report

/-- The report about a condition that a step finds: none if its status is what it was. -/
def Step.report (g : GroupKind) (before : List Step) (s : Step) (resource : Resource)
    (c : Condition) : Option Report :=
  let current := observe s.now resource
  let old := lastFound s.key c.type before
  if old.any fun o => o.status = c.status then none
  else some ⟨s.now, ⟨s.key, g, current.uid⟩, current.labels, c, old⟩

theorem report_eq_some {g : GroupKind} {before : List Step} {s : Step} {resource : Resource}
    {c : Condition} {r : Report} (h : s.report g before resource c = some r) :
    r.current = c ∧ r.involved.key = s.key := by
  unfold Step.report at h
  dsimp only at h
  split at h
  · cases h
  · cases h
    exact ⟨rfl, rfl⟩

/-- The reports that are due in a step, given the steps before. -/
def Step.due (g : GroupKind) (before : List Step) (s : Step) : List Report :=
  match s.fetched with
  | .ok (some resource) =>
    (observe s.now resource).conditions.filterMap (s.report g before resource)
  | _ => []

/-- The steps of a run, each with the steps before it. -/
def occasions : List Step → List Step → List (List Step × Step)
  | _, [] => []
  | before, s :: steps => (before, s) :: occasions (before ++ [s]) steps

theorem occasions_concat (steps : List Step) (s : Step) : ∀ before,
    occasions before (steps ++ [s]) = occasions before steps ++ [(before ++ steps, s)] := by
  induction steps with
  | nil => intro before; simp [occasions]
  | cons a steps ih => intro before; simp [occasions, ih]

/-- The reports that are due in a run. -/
def due (g : GroupKind) (steps : List Step) : List Report :=
  (occasions [] steps).flatMap fun p => p.2.due g p.1

theorem due_concat (g : GroupKind) (steps : List Step) (s : Step) :
    due g (steps ++ [s]) = due g steps ++ s.due g steps := by
  simp [due, occasions_concat]

/-- Reports that are due, in terms of the snapshots. -/
theorem due_eq {o : Observer} {before : List Step} (h : Remembers o.snapshots before) (s : Step) :
    s.due o.groupKind before =
      match s.fetched with
      | .ok (some resource) =>
        let current := observe s.now resource
        (moves (o.snapshots.get? s.key) current).map fun mv =>
          ⟨s.now, o.reference s.key current.uid, current.labels, mv.current, mv.old⟩
      | _ => [] := by
  unfold Step.due
  match s.fetched with
  | .error e => rfl
  | .ok none => rfl
  | .ok (some resource) =>
    simp only [moves, List.map_filterMap]
    refine List.filterMap_congr fun c _ => ?_
    unfold Step.report Observer.movedFrom
    simp only [h s.key c.type]
    split <;> rfl

theorem key_of_mem_due {g : GroupKind} {before : List Step} {s : Step} {r : Report}
    (h : r ∈ s.due g before) : r.involved.key = s.key := by
  unfold Step.due at h
  match hf : s.fetched with
  | .error e =>
    rw [hf] at h
    cases h
  | .ok none =>
    rw [hf] at h
    cases h
  | .ok (some resource) =>
    rw [hf] at h
    obtain ⟨c, -, hr⟩ := List.mem_filterMap.mp h
    exact (report_eq_some hr).2

/-! ## Reports about one type -/

/-- Of the reports about a list with one entry per type, at most one is about a given type. -/
theorem filterMap_of_type {cs : List Condition} (h : Distinct cs)
    {f : Condition → Option Report} (hf : ∀ c r, f c = some r → r.current = c) (t : String) :
    (cs.filterMap f).filter (·.current.type = t) = ((Condition.find? t cs).bind f).toList := by
  induction cs with
  | nil => rfl
  | cons c cs ih =>
    have hrest := ih (List.nodup_cons.mp h).2
    have hhead : (f c).toList.filter (·.current.type = t) =
        if c.type = t then (f c).toList else [] := by
      cases hc : f c with
      | none => simp
      | some r => simp [hf c r hc, List.filter_singleton]
    have hsplit : (c :: cs).filterMap f = (f c).toList ++ cs.filterMap f := by
      cases hc : f c <;> simp [hc]
    rw [hsplit, List.filter_append, hhead, hrest]
    by_cases ht : c.type = t
    · -- no later entry has the type again
      have hnone : Condition.find? t cs = none := by
        rw [Condition.find?, List.find?_eq_none]
        intro d hd hdt
        have hdt : d.type = t := by simpa using hdt
        exact (List.nodup_cons.mp h).1 (List.mem_map.mpr ⟨d, hd, hdt.trans ht.symm⟩)
      rw [if_pos ht, hnone]
      simp [Condition.find?, ht]
    · rw [if_neg ht]
      simp [Condition.find?, ht]

/-- All that a step can report about one type: nothing if it does not find the type or finds
the status that was found last, otherwise one report, with what was found last. -/
theorem due_cases {s : Step} (hs : s.Distinct) (g : GroupKind) (before : List Step) (t : String) :
    let found := s.finds s.key t
    let old := lastFound s.key t before
    let reports := (s.due g before).filter (·.current.type = t)
    (reports = [] ∧ ∀ c, found = some (some c) → ∃ o, old = some o ∧ o.status = c.status) ∨
      ∃ r, reports = [r] ∧ r.involved.key = s.key ∧ r.old = old ∧
        found = some (some r.current) ∧ ∀ o, old = some o → o.status ≠ r.current.status := by
  unfold Step.due Step.finds
  rw [if_pos rfl]
  match hf : s.fetched with
  | .error e => exact Or.inl ⟨rfl, fun c hc => nomatch hc⟩
  | .ok none => exact Or.inl ⟨rfl, fun c hc => nomatch hc⟩
  | .ok (some resource) =>
    have hdistinct : Distinct (observe s.now resource).conditions :=
      distinct_observe (hs resource hf)
    simp only [filterMap_of_type hdistinct fun c r hr => (report_eq_some hr).1]
    -- with distinct types, only the condition that a lookup finds can be reported
    cases hc : Condition.find? t (observe s.now resource).conditions with
    | none =>
      refine Or.inl ⟨rfl, fun c hfound => ?_⟩
      rw [Snapshot.get?, hc] at hfound
      cases hfound
    | some c =>
      have htype : c.type = t := Condition.type_of_find? hc
      have hget : (observe s.now resource).get? t = some c := hc
      simp only [hget, Option.bind_some]
      unfold Step.report
      rw [htype]
      by_cases hsame : (lastFound s.key t before).any (fun o => o.status = c.status) = true
      · simp only [hsame, if_true]
        refine Or.inl ⟨rfl, fun c' hc' => ?_⟩
        cases hc'
        simpa [Option.any_eq_true] using hsame
      · simp only [hsame]
        refine Or.inr ⟨_, rfl, rfl, rfl, rfl, fun o ho hstatus => hsame ?_⟩
        rw [ho]
        simpa using hstatus

/-! ## Events of steps and runs -/

/-- Of what is published about a resource that is there, the transitions are the moves. -/
theorem filter_published_found (o : Observer) (now : Instant) (key : ResourceKey)
    (resource : Resource) :
    (Step.published o ⟨now, key, .ok (some resource)⟩).filter (·.isTransition) =
      (moves (o.snapshots.get? key) (observe now resource)).flatMap
        (Move.events now (o.reference key (observe now resource).uid)) := by
  have hgone : (finalizerEvents now (o.reference key (observe now resource).uid)
      (o.snapshots.get? key) (observe now resource)).filter (·.isTransition) = [] := by
    unfold finalizerEvents
    cases o.snapshots.get? key with
    | none => rfl
    | some p => simp [List.filter_map, Function.comp_def]
  have hmoves : ∀ (involved : ObjectReference) (mvs : List Move), ∀ e ∈
      mvs.flatMap (Move.events now involved), e.isTransition = true := by
    intro involved mvs e he
    obtain ⟨mv, -, he⟩ := List.mem_flatMap.mp he
    obtain ⟨old, -, rfl⟩ := Option.map_eq_some_iff.mp (Option.mem_toList.mp he)
    exact StatusEvent.isTransition_transition ..
  rw [Step.published]
  simp only [List.filter_append, hgone, List.nil_append]
  exact List.filter_eq_self.mpr (hmoves _ _)

/-- The transition events of a step are those of its reports. -/
theorem transitions_published {o : Observer} {before : List Step}
    (h : Remembers o.snapshots before) (s : Step) :
    (s.published o).filter (·.isTransition) =
      (s.due o.groupKind before).filterMap Report.event := by
  rw [due_eq h]
  match hfetched : s.fetched with
  | .error e =>
    rw [Step.published, hfetched]
    rfl
  | .ok none =>
    rw [Step.published, hfetched]
    cases o.snapshots.get? s.key with
    | none => rfl
    | some p => simp [List.filter_map, Function.comp_def]
  | .ok (some resource) =>
    have hs : s = ⟨s.now, s.key, .ok (some resource)⟩ := by rw [← hfetched]
    rw [hs, filter_published_found]
    -- every move is one report, and its event, if any, is a transition
    simp only
    induction moves (o.snapshots.get? s.key) (observe s.now resource) with
    | nil => rfl
    | cons mv mvs ih =>
      obtain ⟨c, old⟩ := mv
      rw [List.flatMap_cons, ih, List.map_cons, List.filterMap_cons]
      cases old with
      | none => rfl
      | some old => rfl

/-- The events of a run, in order. -/
def events (w : Watch) (steps : List Step) : List StatusEvent :=
  (w.run steps).2.flatMap (·.events)

theorem events_concat (w : Watch) (steps : List Step) (s : Step) :
    w.events (steps ++ [s]) = w.events steps ++ s.published (w.run steps).1.observer := by
  unfold events
  rw [run_append, List.flatMap_append, run_cons, reconcile_eq]
  simp [run]

/-- The transition events of a run are those of its reports. -/
theorem transitions_run {w : Watch} (h : w.observer.snapshots = ∅) (steps : List Step) :
    (w.events steps).filter (·.isTransition) =
      (due w.observer.groupKind steps).filterMap Report.event := by
  induction steps using List.reverseRecOn with
  | nil => rfl
  | append_singleton steps s ih =>
    have hgroup : (w.run steps).1.observer.groupKind = w.observer.groupKind := by
      rw [observer_run]
    rw [events_concat, due_concat, List.filter_append, List.filterMap_append, ih,
      transitions_published (remembers_run h steps), hgroup]

/-- The events of the reports about one type. -/
theorem events_of_type (reports : List Report) (t : String) :
    (reports.filterMap Report.event).filter (·.reason = t) =
      (reports.filter (·.current.type = t)).filterMap Report.event := by
  induction reports with
  | nil => rfl
  | cons r reports ih =>
    rw [List.filterMap_cons, List.filter_cons]
    cases hold : r.old with
    | none => by_cases ht : r.current.type = t <;> simp [Report.event, hold, ht, ih]
    | some old =>
      have hreason : (StatusEvent.transition r.now r.involved old.status r.current).reason =
          r.current.type := rfl
      by_cases ht : r.current.type = t <;> simp [Report.event, hold, hreason, ht, ih]

/-- So the transition events of one type are those of the reports about it. -/
theorem transitionsOf_of_transitions {es : List StatusEvent} {reports : List Report}
    (h : es.filter (·.isTransition) = reports.filterMap Report.event) (t : String) :
    es.filter (·.isTransitionOf t) =
      (reports.filter (·.current.type = t)).filterMap Report.event := by
  rw [← events_of_type, ← h, List.filter_filter]
  exact List.filter_congr fun e _ => Bool.and_comm _ _

/-! ## Stretches -/

/-- Whether a step finds a condition type that the latest observation did not find. -/
def Step.begins (key : ResourceKey) (t : String) (before : List Step) (s : Step) : Bool :=
  (lastFound key t before).isNone && (s.finds key t).join.isSome

/-- How many stretches of a condition type begin in a run, on any resource. -/
def stretches (t : String) (steps : List Step) : Nat :=
  (occasions [] steps).countP fun p => p.2.begins p.2.key t p.1

theorem stretches_concat (t : String) (steps : List Step) (s : Step) :
    stretches t (steps ++ [s]) =
      stretches t steps + if s.begins s.key t steps then 1 else 0 := by
  simp [stretches, occasions_concat, List.countP_append, List.countP_cons]

/-- A part of a run throughout which every successful observation of a resource finds a
condition type, up to some point: it begins with the first of these observations, and the
latest one before did not find the type. -/
structure Stretch (key : ResourceKey) (t : String) (before stretch : List Step)
    (first : Condition) : Prop where
  absent : lastFound key t before = none
  starts : (stretch.head?.bind fun s => s.finds key t) = some (some first)
  throughout : ∀ s ∈ stretch, s.finds key t ≠ some none

/-- Moves that lead from one status to another, each from where the one before led to. -/
def Chained : ConditionStatus → List (ConditionStatus × ConditionStatus) → ConditionStatus → Prop
  | a, [], b => a = b
  | a, move :: moves, b => move.1 = a ∧ move.1 ≠ move.2 ∧ Chained move.2 moves b

theorem Chained.concat {b c : ConditionStatus} (hne : b ≠ c)
    {moves : List (ConditionStatus × ConditionStatus)} : ∀ {a}, Chained a moves b →
      Chained a (moves ++ [(b, c)]) c := by
  induction moves with
  | nil =>
    rintro a rfl
    exact ⟨rfl, hne, rfl⟩
  | cons move moves ih =>
    rintro a ⟨hfrom, hmoved, hrest⟩
    exact ⟨hfrom, hmoved, ih hrest⟩

/-- Reports are transitions and beginnings of stretches. -/
theorem length_due {w : Watch} (h : w.observer.snapshots = ∅) {steps : List Step}
    (hs : ∀ s ∈ steps, s.Distinct) (t : String) :
    ((due w.observer.groupKind steps).filter (·.current.type = t)).length =
      ((w.events steps).filter (·.isTransitionOf t)).length + stretches t steps := by
  rw [transitionsOf_of_transitions (transitions_run h steps)]
  induction steps using List.reverseRecOn with
  | nil => rfl
  | append_singleton steps s ih =>
    have ih := ih fun s' hs' => hs s' (List.mem_append_left _ hs')
    rw [due_concat, stretches_concat, List.filter_append, List.filterMap_append,
      List.length_append, List.length_append, ih]
    unfold Step.begins
    -- the step adds one to both sides or to neither
    rcases due_cases (hs s (by simp)) w.observer.groupKind steps t with
      ⟨hnone, hsame⟩ | ⟨r, hone, -, hold, hfound, -⟩
    · -- what is found was found before, if it is found at all
      have hno : ((lastFound s.key t steps).isNone && (s.finds s.key t).join.isSome) = false := by
        rw [Bool.and_eq_false_iff, Option.isNone_eq_false_iff, Option.isSome_eq_false_iff]
        by_cases hjoin : ∃ c, s.finds s.key t = some (some c)
        · obtain ⟨c, hc⟩ := hjoin
          obtain ⟨o, ho, -⟩ := hsame c hc
          exact Or.inl (by simp [ho])
        · refine Or.inr (Option.isNone_iff_eq_none.mpr (Option.eq_none_iff_forall_ne_some.mpr ?_))
          intro c hc
          exact hjoin ⟨c, Option.join_eq_some_iff.mp hc⟩
      rw [hnone, hno]
      simp
    · rw [hone, hfound, ← hold]
      cases hr : r.old with
      | none =>
        have hevent : r.event = none := by rw [Report.event, hr]; rfl
        simp only [List.filterMap_cons, hevent, List.filterMap_nil, List.length_cons,
          List.length_nil]
        simp
        omega
      | some old =>
        have hevent : r.event = some (.transition r.now r.involved old.status r.current) := by
          rw [Report.event, hr]; rfl
        simp only [List.filterMap_cons, hevent, List.filterMap_nil, List.length_cons,
          List.length_nil]
        simp
        omega

/-- The events of a step about one type are about its resource. -/
theorem told_of_key {o : Observer} {before : List Step} (h : Remembers o.snapshots before)
    (s : Step) (key : ResourceKey) (t : String) :
    (s.published o).filter (fun e => e.isTransitionOf t && e.involved.key = key) =
      if s.key = key then
        ((s.due o.groupKind before).filter (·.current.type = t)).filterMap Report.event
      else [] := by
  have hsplit : (s.published o).filter (fun e => e.isTransitionOf t && e.involved.key = key) =
      ((s.published o).filter (·.isTransitionOf t)).filter (·.involved.key = key) := by
    rw [List.filter_filter]
    exact List.filter_congr fun e _ => Bool.and_comm _ _
  rw [hsplit, transitionsOf_of_transitions (transitions_published h s)]
  have hkey : ∀ e ∈ ((s.due o.groupKind before).filter (·.current.type = t)).filterMap Report.event,
      e.involved.key = s.key := by
    intro e he
    obtain ⟨r, hr, hevent⟩ := List.mem_filterMap.mp he
    obtain ⟨old, -, rfl⟩ := Option.map_eq_some_iff.mp hevent
    exact key_of_mem_due (List.mem_filter.mp hr).1
  split
  · rename_i hsame
    exact List.filter_eq_self.mpr fun e he => by simp [hkey e he, hsame]
  · rename_i hother
    exact List.filter_eq_nil_iff.mpr fun e he => by simp [hkey e he, hother]

/-- All that a step can tell about one type of a resource: nothing if the status is as it was
found last or is found for the first time, otherwise one move. -/
theorem told_cases {o : Observer} {before : List Step} (h : Remembers o.snapshots before)
    {s : Step} (hs : s.Distinct) (key : ResourceKey) (t : String) :
    let told := (s.published o).filter fun e => e.isTransitionOf t && e.involved.key = key
    (told = [] ∧ ∀ c old, s.finds key t = some (some c) → lastFound key t before = some old →
        old.status = c.status) ∨
      ∃ e c old, told = [e] ∧ s.finds key t = some (some c) ∧ lastFound key t before = some old ∧
        old.status ≠ c.status ∧ e.Tells (old.status, c.status) := by
  rw [told_of_key h]
  by_cases hkey : s.key = key
  · subst hkey
    rw [if_pos rfl]
    rcases due_cases hs o.groupKind before t with
      ⟨hnone, hsame⟩ | ⟨r, hone, -, hold, hfound, hmoved⟩
    · rw [hnone]
      refine Or.inl ⟨rfl, fun c old hc hlast => ?_⟩
      obtain ⟨old', hlast', hstatus⟩ := hsame c hc
      rw [hlast] at hlast'
      cases hlast'
      exact hstatus
    · rw [hone]
      cases hr : r.old with
      | none =>
        -- found for the first time: reported, but not told
        have hevent : r.event = none := by rw [Report.event, hr]; rfl
        refine Or.inl ⟨by simp [hevent], fun c old _ hlast => ?_⟩
        rw [← hold, hr] at hlast
        cases hlast
      | some old =>
        have hevent : r.event = some (.transition r.now r.involved old.status r.current) := by
          rw [Report.event, hr]; rfl
        have hlast : lastFound s.key t before = some old := hold ▸ hr
        exact Or.inr ⟨_, r.current, old, by simp [hevent], hfound, hlast, hmoved old hlast,
          r.now, r.involved, r.current, rfl, rfl⟩
  · rw [if_neg hkey]
    refine Or.inl ⟨rfl, fun c old hc _ => ?_⟩
    rw [Step.finds, if_neg hkey] at hc
    cases hc

/-- A step of a stretch adds one move to its chain or none. -/
theorem chained_of_told {o : Observer} {before : List Step} (h : Remembers o.snapshots before)
    {s : Step} (hs : s.Distinct) {key : ResourceKey} {t : String}
    (hthere : s.finds key t ≠ some none) {a : ConditionStatus}
    {moves : List (ConditionStatus × ConditionStatus)} {last : Condition}
    (hchained : Chained a moves last.status) (hfound : lastFound key t before = some last) :
    ∃ told last', List.Forall₂ StatusEvent.Tells
        ((s.published o).filter fun e => e.isTransitionOf t && e.involved.key = key) told ∧
      Chained a (moves ++ told) last'.status ∧
      (s.finds key t).getD (some last) = some last' := by
  rcases told_cases h hs key t with ⟨hnone, hsame⟩ | ⟨e, c, old, hone, hc, hold, hmoved, htell⟩
  · -- nothing is told, so what is found, if the step looks at all, has the status found last
    rw [hnone]
    match hf : s.finds key t with
    | none =>
      refine ⟨[], last, List.Forall₂.nil, ?_, rfl⟩
      rwa [List.append_nil]
    | some none => exact absurd hf hthere
    | some (some c) =>
      refine ⟨[], c, List.Forall₂.nil, ?_, rfl⟩
      rw [List.append_nil, ← hsame c last hf hfound]
      exact hchained
  · rw [hfound] at hold
    cases hold
    rw [hone, hc]
    exact ⟨[(last.status, c.status)], c, List.Forall₂.cons htell List.Forall₂.nil,
      hchained.concat hmoved, rfl⟩

/-- The transition events of a stretch form a chain from its first status to its last. -/
theorem chained_of_stretch {w : Watch} (h : w.observer.snapshots = ∅) {key : ResourceKey}
    {t : String} {before stretch : List Step} {first : Condition}
    (hs : ∀ s ∈ before ++ stretch, s.Distinct) (hstretch : Stretch key t before stretch first) :
    ∃ moves last,
      List.Forall₂ StatusEvent.Tells
        (((w.run before).1.events stretch).filter fun e =>
          e.isTransitionOf t && e.involved.key = key) moves ∧
      Chained first.status moves last.status ∧
      lastFound key t (before ++ stretch) = some last := by
  induction stretch using List.reverseRecOn with
  | nil => exact nomatch hstretch.starts
  | append_singleton stretch s ih =>
    have hdistinct : s.Distinct := hs s (by simp)
    have hlast : lastFound key t (before ++ (stretch ++ [s])) =
        (s.finds key t).getD (lastFound key t (before ++ stretch)) := by
      rw [← List.append_assoc, lastFound_concat]
    have hremembers : Remembers ((w.run before).1.run stretch).1.observer.snapshots
        (before ++ stretch) := by
      have := remembers_run h (before ++ stretch)
      rwa [run_append] at this
    have hthere : s.finds key t ≠ some none := hstretch.throughout s (by simp)
    rw [hlast, events_concat, List.filter_append]
    by_cases hempty : stretch = []
    · -- the stretch begins with this step
      subst hempty
      have hfirst : s.finds key t = some (some first) := hstretch.starts
      rcases told_cases hremembers hdistinct key t with ⟨hnone, -⟩ | ⟨e, c, old, -, -, hfound, -⟩
      · rw [hnone, hfirst]
        exact ⟨[], first, List.Forall₂.nil, rfl, rfl⟩
      · rw [List.append_nil, hstretch.absent] at hfound
        cases hfound
    · -- the stretch was there before, and this step tells one more move or none
      have hshorter : Stretch key t before stretch first := by
        refine ⟨hstretch.absent, ?_, fun s' hs' => hstretch.throughout s' (by simp [hs'])⟩
        rw [← hstretch.starts, List.head?_append_of_ne_nil _ hempty]
      obtain ⟨moves, last, htells, hchained, hfound⟩ := ih
        (fun s' hs' => hs s' (by simp only [List.mem_append] at hs' ⊢; tauto)) hshorter
      obtain ⟨told, last', htold, hchained, hlast'⟩ :=
        chained_of_told hremembers hdistinct hthere hchained hfound
      rw [hfound]
      exact ⟨moves ++ told, last', List.rel_append htells htold, hchained, hlast'⟩

end Watch

end StatusWatch
