import Mathlib.Data.List.Induction
import StatusWatch.Proofs.ConditionSets

/-!
# Stamps

A condition carries two stamps: since when it has its status, and for which generation it
was computed. This module shows that the stamps are the history of the list, and that
callers cannot bring in stamps of their own.

- `LatestChange`: the last step of a run at which something about the resource changed.
- `Restamped`: what one step does to the entry of a type.
- `Request.timeFor`: which reading of a step a type is stamped with.
- `stamps_of_history`: every condition shows when its status changed last, and for which
  generation it last changed in any way.
-/

namespace StatusWatch

open Condition (Distinct)

/-! ## What is seen of a type -/

namespace Resource

/-- The status of a type, if it is there. -/
def statusOf (type : String) (r : Resource) : Option ConditionStatus :=
  (r.get? type).map (·.status)

/-- What the condition of a type says, stamps aside. -/
def stateOf (type : String) (r : Resource) :
    Option (ConditionStatus × String × String × ConditionSeverity) :=
  (r.get? type).map fun c => (c.status, c.reason, c.message, c.severity)

end Resource

namespace ConditionSet

/-! ## The latest change -/

/-- A step of a run changed a view of the resource, and no step after it did. -/
def LatestChange {α : Type} (view : Resource → α) (r : Resource) (steps : List Request)
    (s : Request) : Prop :=
  ∃ before after, steps = before ++ s :: after ∧
    view (run r (before ++ [s])).1 ≠ view (run r before).1 ∧
    ∀ front, front <+: after → view (run r (before ++ s :: front)).1 = view (run r steps).1

section

variable {α : Type} {view : Resource → α} {r : Resource} {steps : List Request} {s : Request}

/-- A step that changes the view is the latest to do so. -/
theorem latestChange_new (h : view (run r (steps ++ [s])).1 ≠ view (run r steps).1) :
    LatestChange view r (steps ++ [s]) s := by
  refine ⟨steps, [], rfl, h, fun front hfront => ?_⟩
  obtain rfl : front = [] := List.prefix_nil.mp hfront
  rfl

/-- A step that leaves the view alone leaves the latest change where it is. -/
theorem LatestChange.concat {last : Request} (h : LatestChange view r steps last)
    (hsame : view (run r (steps ++ [s])).1 = view (run r steps).1) :
    LatestChange view r (steps ++ [s]) last := by
  obtain ⟨before, after, hsplit, hchange, hsince⟩ := h
  have hsplit' : steps ++ [s] = before ++ last :: (after ++ [s]) := by simp [hsplit]
  refine ⟨before, after ++ [s], hsplit', hchange, fun front hfront => ?_⟩
  rcases List.prefix_concat_iff.mp hfront with rfl | hfront
  · rw [← hsplit']
  · rw [hsince front hfront, hsame]

end

end ConditionSet

/-! ## Restamping -/

/-- What a step makes of the entry of a type, if it is written when the clock shows `now` and for
a resource of a generation: it stays, it is dropped, or it is written with stamps. -/
inductive Restamped (now : Instant) (generation : Int64) (old new : Option Condition) : Prop where
  | kept (h : new = old)
  | dropped (h : new = none)
  /-- The entry is new. -/
  | created (c : Condition) (h : new = some c) (hold : old = none)
      (htime : c.lastTransition = now) (hgeneration : c.observedGeneration = generation)
  /-- The status moved. -/
  | moved (c before : Condition) (h : new = some c) (hold : old = some before)
      (hstatus : before.status ≠ c.status) (htime : c.lastTransition = now)
      (hgeneration : c.observedGeneration = generation)
  /-- Something else than the status changed. -/
  | refined (c before : Condition) (h : new = some c) (hold : old = some before)
      (hstatus : before.status = c.status) (hstate : before.sameState c = false)
      (htime : c.lastTransition = before.lastTransition)
      (hgeneration : c.observedGeneration = generation)

section

variable {now : Instant} {generation : Int64} {old new : Option Condition} {c : Condition}

/-- An entry has a new status and the time of the step, or its status and time of before. -/
theorem Restamped.status_cases (h : Restamped now generation old new) (hc : new = some c) :
    (new.map (·.status) ≠ old.map (·.status) ∧ c.lastTransition = now) ∨
      (new.map (·.status) = old.map (·.status) ∧
        ∃ before, old = some before ∧ c.lastTransition = before.lastTransition) := by
  cases h with
  | kept hkept =>
    subst hkept
    exact Or.inr ⟨rfl, c, hc, rfl⟩
  | dropped hnone =>
    rw [hnone] at hc
    cases hc
  | created c' hnew hold htime =>
    obtain rfl : c' = c := Option.some.inj (hnew.symm.trans hc)
    refine Or.inl ⟨?_, htime⟩
    rw [hnew, hold]
    exact Option.some_ne_none _
  | moved c' before hnew hold hstatus htime =>
    obtain rfl : c' = c := Option.some.inj (hnew.symm.trans hc)
    refine Or.inl ⟨?_, htime⟩
    rw [hnew, hold]
    exact fun heq => hstatus (Option.some.inj heq).symm
  | refined c' before hnew hold hstatus _ htime =>
    obtain rfl : c' = c := Option.some.inj (hnew.symm.trans hc)
    refine Or.inr ⟨?_, before, hold, htime⟩
    rw [hnew, hold]
    exact congrArg some hstatus.symm

/-- An entry says something new and has the generation of the step, or it stays. -/
theorem Restamped.state_cases (h : Restamped now generation old new) (hc : new = some c) :
    (new.map (fun d => (d.status, d.reason, d.message, d.severity)) ≠
        old.map (fun d => (d.status, d.reason, d.message, d.severity)) ∧
      c.observedGeneration = generation) ∨ new = old := by
  cases h with
  | kept hkept => exact Or.inr hkept
  | dropped hnone =>
    rw [hnone] at hc
    cases hc
  | created c' hnew hold _ hgeneration =>
    obtain rfl : c' = c := Option.some.inj (hnew.symm.trans hc)
    refine Or.inl ⟨?_, hgeneration⟩
    rw [hnew, hold]
    exact Option.some_ne_none _
  | moved c' before hnew hold hstatus _ hgeneration =>
    obtain rfl : c' = c := Option.some.inj (hnew.symm.trans hc)
    refine Or.inl ⟨?_, hgeneration⟩
    rw [hnew, hold]
    exact fun heq => hstatus (congrArg (·.1) (Option.some.inj heq)).symm
  | refined c' before hnew hold _ hstate _ hgeneration =>
    obtain rfl : c' = c := Option.some.inj (hnew.symm.trans hc)
    refine Or.inl ⟨?_, hgeneration⟩
    rw [hnew, hold]
    intro heq
    have heq := Option.some.inj heq
    simp only [Prod.mk.injEq] at heq
    have hsame : before.sameState c' = true := Resource.sameState_iff.mpr
      ⟨heq.1.symm, heq.2.1.symm, heq.2.2.1.symm, heq.2.2.2.symm⟩
    rw [hstate] at hsame
    cases hsame

end

namespace Resource

/-- Storing a condition that is not the same as the present one. -/
theorem restamped_store {now : Instant} {r : Resource} {c : Condition} (hlost : r.lost = [])
    (hnew : ∀ old, r.get? c.type = some old → old.sameState c = false) :
    Restamped now r.metadata.generation (r.get? c.type)
      ((r.store (stamped now r c)).get? c.type) := by
  have hget : (r.store (stamped now r c)).get? c.type = some (stamped now r c) := by
    rw [get?_store, hlost, if_neg (List.not_mem_nil), if_pos (type_stamped now r c)]
  cases hold : r.get? c.type with
  | none =>
    refine Restamped.created _ hget rfl ?_ rfl
    simp [stamped, hold]
  | some before =>
    by_cases hstatus : before.status = c.status
    · refine Restamped.refined _ before hget rfl hstatus (hnew before hold) ?_ rfl
      simp [stamped, hold, hstatus]
    · refine Restamped.moved _ before hget rfl hstatus ?_ rfl
      simp [stamped, hold, hstatus]

theorem get?_store_of_ne {now : Instant} {r : Resource} {c : Condition} (hlost : r.lost = [])
    {type : String} (hne : type ≠ c.type) :
    (r.store (stamped now r c)).get? type = r.get? type := by
  rw [get?_store, hlost, if_neg (List.not_mem_nil), if_neg fun e => hne e.symm]

/-- Recomputing the root restamps the root and keeps the rest. -/
theorem restamped_recomputeRoot {clock : Readings} {r : Resource} (hlost : r.lost = [])
    (type : String) :
    Restamped clock.root r.metadata.generation (r.get? type)
      ((r.recomputeRoot clock).get? type) := by
  rcases recomputeRoot_cases clock r with ⟨-, -, -, heq⟩ | ⟨hnew, heq⟩
  · rw [heq]
    exact Restamped.kept rfl
  · rw [heq]
    by_cases htype : type = (r.derivedRoot clock).type
    · subst htype
      refine restamped_store hlost fun old hold => hnew old ?_
      rwa [type_derivedRoot] at hold
    · exact Restamped.kept (get?_store_of_ne hlost htype)

/-- The root is another type than what was set, so deriving it leaves what was just stored. -/
theorem get?_recomputeRoot_store {clock : Readings} {r : Resource} {c : Condition}
    (hlost : r.lost = []) (hroot : c.type ≠ r.conditionTypes.root) :
    ((r.store (stamped clock.now r c)).recomputeRoot clock).get? c.type =
      (r.store (stamped clock.now r c)).get? c.type := by
  rcases recomputeRoot_cases clock (r.store (stamped clock.now r c)) with
    ⟨-, -, -, heq⟩ | ⟨-, heq⟩
  · rw [heq]
  · rw [heq]
    have hlost' : (r.store (stamped clock.now r c)).lost = [] := hlost
    refine get?_store_of_ne hlost' ?_
    rw [type_derivedRoot]
    exact hroot

/-- A set that changes something restamps its type and the root, each with a reading of its own,
and keeps the rest. -/
theorem restamped_put {clock : Readings} {r : Resource} {c : Condition} (hlost : r.lost = [])
    (hnew : ∀ old, r.get? c.type = some old → old.sameState c = false) (type : String) :
    Restamped (if c.type = type then clock.now else clock.root) r.metadata.generation
      (r.get? type) ((r.put clock c).get? type) := by
  by_cases htype : c.type = type
  · subst htype
    rw [if_pos rfl, put]
    split
    · exact restamped_store hlost hnew
    · rename_i hroot
      rw [get?_recomputeRoot_store hlost hroot]
      exact restamped_store hlost hnew
  · have hsame : (r.store (stamped clock.now r c)).get? type = r.get? type :=
      get?_store_of_ne hlost (Ne.symm htype)
    rw [if_neg htype, put, ← hsame]
    split
    · exact Restamped.kept rfl
    · have hlost' : (r.store (stamped clock.now r c)).lost = [] := hlost
      exact restamped_recomputeRoot hlost' type

theorem restamped_bind {now : Instant} {r : Resource} (hlost : r.lost = []) (type : String) :
    Restamped now r.metadata.generation (r.get? type) ((r.bind now).get? type) := by
  have hkept : type ∉ r.lost := by
    rw [hlost]
    exact List.not_mem_nil
  have hget := get?_bind now r hkept
  cases hold : r.get? type with
  | some c =>
    rw [hold, Option.some_or] at hget
    exact Restamped.kept hget
  | none =>
    rw [hold, Option.none_or] at hget
    split at hget
    · exact Restamped.created _ hget rfl rfl rfl
    · exact Restamped.kept hget

theorem restamped_dropped {now : Instant} {r : Resource} (hlost : r.lost = [])
    (type dropped : String) :
    Restamped now r.metadata.generation (r.get? type) ((r.dropped dropped).get? type) := by
  rw [get?_dropped, hlost, if_neg (List.not_mem_nil)]
  split
  · exact Restamped.dropped rfl
  · exact Restamped.kept rfl

theorem distinct_recomputeRoot {clock : Readings} {r : Resource} (h : Distinct r.conditions) :
    Distinct (r.recomputeRoot clock).conditions := by
  rcases recomputeRoot_cases clock r with ⟨-, -, -, heq⟩ | ⟨-, heq⟩
  · rw [heq]
    exact h
  · rw [heq]
    exact distinct_store h _

theorem distinct_put {clock : Readings} {r : Resource} {c : Condition}
    (h : Distinct r.conditions) : Distinct (r.put clock c).conditions := by
  unfold put
  split
  · exact distinct_store h _
  · exact distinct_recomputeRoot (distinct_store h _)

end Resource

namespace ConditionSet

/-! ## Steps and runs -/

theorem distinct_perform {r : Resource} (h : Distinct r.conditions) (s : Request) :
    Distinct (s.perform r).1.conditions := by
  rcases perform_cases r s with ⟨-, heq⟩ | ⟨-, heq⟩ | ⟨c, -, -, -, heq⟩ | ⟨type, -, -, heq⟩ <;>
    rw [heq]
  · exact Resource.distinct_bind _ _ h
  · exact h
  · exact Resource.distinct_put h
  · exact (h.filter _).filter _

/-- The reading that a step stamps a type with: a set writes its own type first and then the root.
If the clock stands still in the course of the step, it is the only reading there is. -/
def Request.timeFor (s : Request) (type : String) : Instant :=
  match s.operation with
  | .set c => if c.type = type then s.now else s.root
  | _ => s.now

theorem timeFor_of_still {s : Request} (h : s.root = s.now) (type : String) :
    s.timeFor type = s.now := by
  rw [Request.timeFor, h]
  split
  · exact ite_self _
  · rfl

/-- Every step restamps every type. -/
theorem restamped_perform {r : Resource} (hlost : r.lost = []) (s : Request) (type : String) :
    Restamped (s.timeFor type) s.generation (r.get? type) ((s.perform r).1.get? type) := by
  have hlost' : (atGeneration r s.generation).lost = [] := hlost
  rcases perform_cases r s with ⟨hbind, heq⟩ | ⟨-, heq⟩ | ⟨c, hset, -, hnew, heq⟩ |
    ⟨dropped, -, -, heq⟩ <;> rw [heq]
  · have htime : s.timeFor type = s.now := by rw [Request.timeFor, hbind]
    rw [htime]
    exact Resource.restamped_bind hlost' type
  · exact Restamped.kept rfl
  · have htime : s.timeFor type = if c.type = type then s.now else s.root := by
      rw [Request.timeFor, hset]
    rw [htime]
    exact Resource.restamped_put hlost' hnew type
  · exact Resource.restamped_dropped hlost' type dropped

/-- What every run keeps: each condition shows its history. -/
structure Stamped (r : Resource) (steps : List Request) : Prop where
  lost : (run r steps).1.lost = []
  distinct : Distinct (run r steps).1.conditions
  time : ∀ type c, (run r steps).1.get? type = some c →
    ∃ s, LatestChange (Resource.statusOf type) r steps s ∧ c.lastTransition = s.timeFor type
  generation : ∀ type c, (run r steps).1.get? type = some c →
    ∃ s, LatestChange (Resource.stateOf type) r steps s ∧ c.observedGeneration = s.generation

theorem Stamped.concat {r : Resource} {steps : List Request} (h : Stamped r steps) (s : Request) :
    Stamped r (steps ++ [s]) := by
  have hrun : (run r (steps ++ [s])).1 = (s.perform (run r steps).1).1 := by rw [run_concat]
  -- one step decides what happens to an entry, by how its state has moved
  have hrestamped : ∀ type, Restamped (s.timeFor type) s.generation ((run r steps).1.get? type)
      ((run r (steps ++ [s])).1.get? type) := by
    intro type
    rw [hrun]
    exact restamped_perform h.lost s type
  refine { lost := ?_, distinct := ?_, time := ?_, generation := ?_ }
  · rw [hrun, (frame_perform _ s).2, h.lost]
  · rw [hrun]
    exact distinct_perform h.distinct s
  · intro type c hc
    rcases (hrestamped type).status_cases hc with
      ⟨hchange, htime⟩ | ⟨hsame, before, hbefore, htime⟩
    · exact ⟨s, latestChange_new hchange, htime⟩
    · -- the status is as it was, and so are its time and its latest change
      obtain ⟨last, hlast, hold⟩ := h.time type before hbefore
      exact ⟨last, hlast.concat hsame, htime.trans hold⟩
  · intro type c hc
    rcases (hrestamped type).state_cases hc with ⟨hchange, hgeneration⟩ | hsame
    · exact ⟨s, latestChange_new hchange, hgeneration⟩
    · obtain ⟨last, hlast, hold⟩ := h.generation type c (hsame ▸ hc)
      have hview : Resource.stateOf type (run r (steps ++ [s])).1 =
          Resource.stateOf type (run r steps).1 := by
        unfold Resource.stateOf
        rw [hsame]
      exact ⟨last, hlast.concat hview, hold⟩

theorem stamped_run {r : Resource} (hempty : r.conditions = []) (hlost : r.lost = [])
    (steps : List Request) : Stamped r steps := by
  -- induction on the run, one step at its end
  induction steps using List.reverseRecOn with
  | nil =>
    have hnone : ∀ type, (run r []).1.get? type = none := by
      intro type
      show Condition.find? type r.conditions = none
      rw [hempty]
      rfl
    refine { lost := hlost, distinct := ?_, time := ?_, generation := ?_ }
    · show Distinct r.conditions
      rw [hempty]
      exact List.nodup_nil
    · intro type c hc
      rw [hnone] at hc
      cases hc
    · intro type c hc
      rw [hnone] at hc
      cases hc
  | append_singleton steps s ih => exact ih.concat s

/-! ## Stamps of callers -/

/-- An operation without the stamps that it carries. -/
def Operation.unstamped : Operation → Operation
  | .set c => .set { c with lastTransition := .epoch, observedGeneration := 0 }
  | op => op

/-- A step without the stamps that its operation carries. -/
def Request.unstamped (s : Request) : Request := { s with operation := s.operation.unstamped }

/-- Neither the comparison with the present entry nor what is stored reads the stamps. -/
theorem set_unstamped (clock : Readings) (r : Resource) (c : Condition) :
    r.set clock { c with lastTransition := .epoch, observedGeneration := 0 } = r.set clock c := by
  have hwrite : Resource.write? clock.now r
      { c with lastTransition := .epoch, observedGeneration := 0 } =
      Resource.write? clock.now r c := by
    rw [Resource.write?_eq, Resource.write?_eq]
    rfl
  unfold Resource.set
  rw [hwrite]

theorem perform_unstamped (r : Resource) (s : Request) : s.unstamped.perform r = s.perform r := by
  rw [perform_eq, perform_eq]
  unfold Request.unstamped
  cases s.operation with
  | bind => rfl
  | clear type => rfl
  | set c =>
    unfold Operation.unstamped Operation.perform
    simp only
    rw [set_unstamped]

theorem run_unstamped (steps : List Request) : ∀ r : Resource,
    run r (steps.map Request.unstamped) = run r steps := by
  induction steps with
  | nil => exact fun _ => rfl
  | cons s steps ih =>
    intro r
    simp only [List.map_cons, run_cons, perform_unstamped, ih]

/-- A list that grew from nothing shows its history. The time of a condition is what the clock
showed when the last step that created it or changed its status wrote it, so the one reading of
that step if it had but one; its generation is that of the last step that created it or changed
anything about it; and stamps that callers pass in make no difference. -/
theorem stamps_of_history {r : Resource} (hempty : r.conditions = []) (hlost : r.lost = [])
    (steps : List Request) :
    (∀ c ∈ (run r steps).1.conditions,
      (∃ s, LatestChange (Resource.statusOf c.type) r steps s ∧
        c.lastTransition = s.timeFor c.type ∧ (s.root = s.now → c.lastTransition = s.now)) ∧
      ∃ s, LatestChange (Resource.stateOf c.type) r steps s ∧
        c.observedGeneration = s.generation) ∧
    run r (steps.map Request.unstamped) = run r steps := by
  have hstamped := stamped_run hempty hlost steps
  refine ⟨fun c hc => ?_, run_unstamped steps r⟩
  have hget : (run r steps).1.get? c.type = some c := hstamped.distinct.mem_iff.mp hc
  refine ⟨?_, hstamped.generation c.type c hget⟩
  obtain ⟨s, hlatest, htime⟩ := hstamped.time c.type c hget
  exact ⟨s, hlatest, htime, fun hstill => htime.trans (timeFor_of_still hstill c.type)⟩

/-- A resource with one dependent and no conditions yet. -/
def unobserved : Resource :=
  Resource.ofObject
    { metadata := .of .epoch "" "n"
      groupKind := ⟨"", "K"⟩
      conditionTypes := .of "Ready" ["A"]
      conditions := [] }

/-- The dependent fails and recovers. -/
def recovery : List Request :=
  [⟨Instant.epoch, 1, .bind⟩, ⟨Instant.epoch, 2, .set (.of .epoch "A" .false)⟩,
    ⟨Instant.epoch, 3, .set (.of .epoch "A" .true)⟩]

theorem stamps_of_recovery :
    (∀ c ∈ (run unobserved recovery).1.conditions,
      (∃ s, LatestChange (Resource.statusOf c.type) unobserved recovery s ∧
        c.lastTransition = s.timeFor c.type ∧ (s.root = s.now → c.lastTransition = s.now)) ∧
      ∃ s, LatestChange (Resource.stateOf c.type) unobserved recovery s ∧
        c.observedGeneration = s.generation) ∧
    run unobserved (recovery.map Request.unstamped) = run unobserved recovery :=
  stamps_of_history rfl rfl recovery

end ConditionSet

end StatusWatch
