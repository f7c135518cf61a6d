import StatusWatch.Proofs.ReportedChanges

/-!
# Conditions that are set at one instant

Conditions of different types that are set at one instant and for one generation may be set in
any order. Every set derives the root anew, so different orders take the root through different
states; but what a set does to its own type does not depend on the others, and the last root is
derived from the same dependents. What the order shows in is when the root last changed and for
which generation.

- `setAt`, `setsAt`: the steps that set conditions.
- `perform_setAt_congr`: a set reads nothing but the entry of its type.
- `Separately`, `separately_run`: each set answers and leaves what it would alone, and the root is
  settled once something has changed.
- `SameOutcome`, `sets_commute`: any two orders leave the same behind.
-/

namespace StatusWatch

open Condition (Distinct Increasing Ordered ofType)

namespace Condition

/-- In a list with one entry per type, lookups do not depend on the order. -/
theorem Distinct.find?_perm {cs cs' : List Condition} (h : Distinct cs) (hperm : cs.Perm cs')
    (type : String) : find? type cs = find? type cs' := by
  have h' : Distinct cs' := (hperm.map _).nodup_iff.mp h
  refine Option.ext fun c => ?_
  constructor
  · intro hc
    obtain rfl := type_of_find? hc
    exact h'.mem_iff.mp (hperm.mem_iff.mp (mem_of_find? hc))
  · intro hc
    obtain rfl := type_of_find? hc
    exact h.mem_iff.mp (hperm.mem_iff.mpr (mem_of_find? hc))

/-- A condition without its stamps if it is the root. -/
def rootUnstamped (root : String) (c : Condition) : Condition :=
  if c.type = root then { c with lastTransition := .epoch, observedGeneration := 0 } else c

@[simp] theorem type_rootUnstamped (root : String) (c : Condition) :
    (c.rootUnstamped root).type = c.type := by
  rw [rootUnstamped]
  split <;> rfl

theorem find?_map_rootUnstamped (root type : String) (cs : List Condition) :
    find? type (cs.map (rootUnstamped root)) = (find? type cs).map (rootUnstamped root) := by
  rw [find?, List.find?_map]
  simp only [find?, Function.comp_def, type_rootUnstamped]

/-- Two roots that say the same differ in their stamps. -/
theorem rootUnstamped_eq {root : String} {c c' : Condition} (htype : c.type = root)
    (htype' : c'.type = root) (hsame : c.sameState c' = true) :
    c.rootUnstamped root = c'.rootUnstamped root := by
  obtain ⟨hstatus, hreason, hmessage, hseverity⟩ := Resource.sameState_iff.mp hsame
  rw [rootUnstamped, rootUnstamped, if_pos htype, if_pos htype']
  simp [htype, htype', hstatus, hreason, hmessage, hseverity]

end Condition

namespace ConditionSet

open Resource (Settled)

/-- The step that sets a condition at an instant, for a generation. -/
def setAt (clock : Readings) (generation : Int64) (c : Condition) : Request :=
  ⟨clock, generation, .set c⟩

/-- The steps that set conditions one after the other, all at one instant. -/
def setsAt (clock : Readings) (generation : Int64) (cs : List Condition) : List Request :=
  cs.map (setAt clock generation)

section

variable {r u : Resource} {clock : Readings} {generation : Int64} {c : Condition}

theorem perform_setAt_cases (clock : Readings) (generation : Int64) (r : Resource) (c : Condition) :
    (∃ old, r.get? c.type = some old ∧ old.sameState c = true ∧
        (setAt clock generation c).perform r = (atGeneration r generation, .changed false)) ∨
      ((∀ old, r.get? c.type = some old → old.sameState c = false) ∧
        (setAt clock generation c).perform r =
          ((atGeneration r generation).put clock c, .changed true)) := by
  have hperform : (setAt clock generation c).perform r =
      (((atGeneration r generation).set clock c).1,
        .changed ((atGeneration r generation).set clock c).2) := rfl
  rw [hperform]
  rcases Resource.set_cases clock (atGeneration r generation) c with ⟨old, hold, hsame, heq⟩ |
    ⟨hnew, heq⟩
  · rw [heq]
    exact Or.inl ⟨old, hold, hsame, rfl⟩
  · rw [heq]
    exact Or.inr ⟨hnew, rfl⟩

/-- The answer to a set and what it leaves of its type depend on the entry that it finds there. -/
theorem perform_setAt_congr (hlost : r.lost = []) (hlost' : u.lost = [])
    (hget : u.get? c.type = r.get? c.type) :
    ((setAt clock generation c).perform u).2 = ((setAt clock generation c).perform r).2 ∧
      ((setAt clock generation c).perform u).1.get? c.type =
        ((setAt clock generation c).perform r).1.get? c.type := by
  rcases perform_setAt_cases clock generation r c with ⟨old, hold, hsame, heq⟩ | ⟨hnew, heq⟩ <;>
    rcases perform_setAt_cases clock generation u c with ⟨old', hold', hsame', heq'⟩ | ⟨hnew', heq'⟩
  · rw [heq, heq']
    exact ⟨rfl, hget⟩
  · exact absurd hsame (by simp [hnew' old (hget.trans hold)])
  · exact absurd hsame' (by simp [hnew old' (hget.symm.trans hold')])
  · rw [heq, heq']
    have hput := @Resource.get?_put_self (atGeneration r generation) hlost clock c
    have hput' := @Resource.get?_put_self (atGeneration u generation) hlost' clock c
    have hread : (atGeneration u generation).get? c.type =
        (atGeneration r generation).get? c.type := hget
    refine ⟨rfl, hput'.trans (Eq.trans ?_ hput.symm)⟩
    rw [Resource.stamped, Resource.stamped, hread]
    rfl

theorem get?_perform_setAt_of_ne (hlost : r.lost = []) {type : String} (hne : type ≠ c.type)
    (hroot : type ≠ r.conditionTypes.root) :
    ((setAt clock generation c).perform r).1.get? type = r.get? type := by
  have hreports := @setReports (atGeneration r generation) hlost clock c
  rw [Resource.get?, Resource.get?, Condition.find?_eq_head?, Condition.find?_eq_head?]
  exact congrArg List.head? (hreports.others type hne hroot)

end

/-- What sets of conditions other than the root come to: each is answered, and leaves of its type,
what it would be alone. -/
structure Separately (r : Resource) (clock : Readings) (generation : Int64) (cs : List Condition)
    (u : Resource) (answers : List Answer) : Prop where
  types : u.conditionTypes = r.conditionTypes
  lost : u.lost = []
  distinct : Distinct u.conditions
  answers_eq : answers = cs.map fun c => ((setAt clock generation c).perform r).2
  entries : ∀ type, type ≠ r.conditionTypes.root → u.get? type =
    (Condition.find? type cs).elim (r.get? type)
      fun c => ((setAt clock generation c).perform r).1.get? type
  /-- Until something changes, the list stays as it is. -/
  silent : Answer.changed true ∉ answers → u.conditions = r.conditions
  /-- From then on it is sorted, and the root is the derived one. -/
  settled : Answer.changed true ∈ answers → Ordered u.conditions ∧ Settled clock u

section

variable {r u : Resource} {root : String} {ds : List String} {clock : Readings} {generation : Int64}
  {cs : List Condition} {answers : List Answer} {c : Condition}

/-- One more set, of a type that was not set yet. -/
theorem Separately.concat (hschema : r.conditionTypes = ConditionTypes.of root ds)
    (hlost : r.lost = []) (h : Separately r clock generation cs u answers) (hroot : c.type ≠ root)
    (hfresh : Condition.find? c.type cs = none) :
    Separately r clock generation (cs ++ [c]) ((setAt clock generation c).perform u).1
      (answers ++ [((setAt clock generation c).perform u).2]) := by
  have hname : r.conditionTypes.root = root := by rw [hschema]; rfl
  have hframe := frame_perform u (setAt clock generation c)
  -- the set finds of its type what there was at first
  have hget : u.get? c.type = r.get? c.type := by
    rw [h.entries c.type (hname ▸ hroot), hfresh]
    rfl
  obtain ⟨hanswer, hentry⟩ := @perform_setAt_congr r u clock generation c hlost h.lost hget
  have hreports := @setReports (atGeneration u generation) h.lost clock c
  have hperform : (setAt clock generation c).perform u =
      (Operation.set c).perform clock (atGeneration u generation) := rfl
  refine { types := hframe.1.trans h.types, lost := hframe.2.trans h.lost,
           distinct := distinct_perform h.distinct _, answers_eq := ?_, entries := ?_,
           silent := ?_, settled := ?_ }
  · rw [List.map_append, ← h.answers_eq, hanswer]
    rfl
  · intro type htype
    rw [Condition.find?_append, Condition.find?_singleton]
    by_cases hsame : type = c.type
    · subst hsame
      rw [hfresh, if_pos rfl]
      exact hentry
    · rw [get?_perform_setAt_of_ne h.lost hsame (h.types ▸ htype), h.entries type htype,
        if_neg (Ne.symm hsame), Option.or_none]
  · intro hsilent
    obtain ⟨hbefore, hquiet⟩ := not_or.mp (mt List.mem_append.mpr hsilent)
    have hkept : ((Operation.set c).perform clock (atGeneration u generation)).2 ≠ .changed true :=
      fun heq => hquiet (by simp [hperform, heq])
    have hlist := not_not.mp (mt hreports.changed_iff.mpr hkept)
    exact hlist.trans (h.silent hbefore)
  · intro hchanged
    rcases perform_setAt_cases clock generation u c with ⟨-, -, -, heq⟩ | ⟨-, heq⟩
    · -- what was derived before still is
      have hbefore : Answer.changed true ∈ answers := by simpa [heq] using hchanged
      rw [heq]
      exact h.settled hbefore
    · have hmoved : ((setAt clock generation c).perform u).2 = .changed true := by rw [heq]
      have hkept : root ∉ u.lost := by simp [h.lost]
      refine ⟨hreports.ordered hmoved, (settled_perform (h.types.trans hschema) hkept ?_ ?_).2⟩
      · exact decide_eq_true hmoved
      · rintro c' hset -
        cases hset
        exact hroot

theorem separately_run (hschema : r.conditionTypes = ConditionTypes.of root ds)
    (hlost : r.lost = []) (hdistinct : Distinct r.conditions) (clock : Readings)
    (generation : Int64) (hcs : Distinct cs) (hroot : ∀ c ∈ cs, c.type ≠ root) :
    Separately r clock generation cs (run r (setsAt clock generation cs)).1
      (run r (setsAt clock generation cs)).2 := by
  -- induction on the run, one set at its end
  induction cs using List.reverseRecOn with
  | nil =>
    exact { types := rfl, lost := hlost, distinct := hdistinct, answers_eq := rfl,
            entries := fun _ _ => rfl, silent := fun _ => rfl, settled := fun h => by cases h }
  | append_singleton cs c ih =>
    rw [Distinct, List.map_append] at hcs
    obtain ⟨hbefore, -, hne⟩ := List.nodup_append.mp hcs
    have hfresh : Condition.find? c.type cs = none := by
      refine List.find?_eq_none.mpr fun d hd => ?_
      simpa using hne d.type (List.mem_map_of_mem hd) c.type (by simp)
    have hbefore := ih hbefore fun d hd => hroot d (List.mem_append_left _ hd)
    have hsplit : setsAt clock generation (cs ++ [c]) =
        setsAt clock generation cs ++ [setAt clock generation c] := List.map_append
    rw [hsplit, run_concat]
    exact hbefore.concat hschema hlost (hroot c (by simp)) hfresh

end

/-! ## Orders -/

/-- Two orders in which conditions are set leave the same behind. -/
structure SameOutcome (r : Resource) (clock : Readings) (generation : Int64)
    (cs cs' : List Condition) : Prop where
  /-- Each condition gets the same answer. -/
  answers : ∃ changed : Condition → Bool,
    (run r (setsAt clock generation cs)).2 = cs.map (fun c => .changed (changed c)) ∧
      (run r (setsAt clock generation cs')).2 = cs'.map fun c => .changed (changed c)
  /-- The lists are the same but for the stamps of the root. -/
  conditions :
    (run r (setsAt clock generation cs)).1.conditions.map (·.rootUnstamped r.conditionTypes.root) =
      (run r (setsAt clock generation cs')).1.conditions.map (·.rootUnstamped r.conditionTypes.root)
  /-- What the root says is the same. -/
  root : (run r (setsAt clock generation cs)).1.stateOf r.conditionTypes.root =
    (run r (setsAt clock generation cs')).1.stateOf r.conditionTypes.root

/-- A sorted list is known, stamps of the root aside, from the entries of the other types and from
what the root says. -/
theorem map_rootUnstamped_eq {u u' : Resource} {root : String} (hsorted : Increasing u.conditions)
    (hsorted' : Increasing u'.conditions)
    (hothers : ∀ type, type ≠ root → u.get? type = u'.get? type)
    (hroot : u.stateOf root = u'.stateOf root) :
    u.conditions.map (·.rootUnstamped root) = u'.conditions.map (·.rootUnstamped root) := by
  have hincreasing : ∀ {cs : List Condition}, Increasing cs →
      Increasing (cs.map (·.rootUnstamped root)) := fun h =>
    List.pairwise_map.mpr (h.imp fun hlt => by simpa using hlt)
  refine (hincreasing hsorted).ext (hincreasing hsorted') fun type => ?_
  rw [Condition.find?_map_rootUnstamped, Condition.find?_map_rootUnstamped]
  show (u.get? type).map _ = (u'.get? type).map _
  -- the roots say the same and may differ in their stamps, which are taken off
  by_cases htype : type = root
  · subst htype
    rw [Resource.stateOf, Resource.stateOf] at hroot
    cases hget : u.get? type with
    | none =>
      rw [hget, Option.map_none] at hroot
      rw [Option.map_eq_none_iff.mp hroot.symm]
    | some c =>
      rw [hget, Option.map_some] at hroot
      obtain ⟨c', hget', hstate⟩ := Option.map_eq_some_iff.mp hroot.symm
      simp only [Prod.mk.injEq] at hstate
      rw [hget', Option.map_some, Option.map_some,
        Condition.rootUnstamped_eq (Resource.type_of_get? hget') (Resource.type_of_get? hget)
          (Resource.sameState_iff.mpr hstate)]
  · rw [hothers type htype]

/-- What a settled root says. -/
theorem stateOf_of_settled {u : Resource} {clock : Readings} (h : Settled clock u) :
    u.stateOf u.conditionTypes.root = some ((u.derivedRoot clock).status,
      (u.derivedRoot clock).reason, (u.derivedRoot clock).message,
      (u.derivedRoot clock).severity) := by
  obtain ⟨c, hget, hsame⟩ := h
  rw [Resource.stateOf]
  refine Option.map_eq_some_iff.mpr ⟨c, hget, ?_⟩
  simpa only [Prod.mk.injEq] using Resource.sameState_iff.mp hsame

/-- What sets leave does not depend on their order. -/
theorem Separately.agree {r u u' : Resource} {root : String} {ds : List String}
    (hschema : r.conditionTypes = ConditionTypes.of root ds) {clock : Readings} {generation : Int64}
    {cs cs' : List Condition} {answers answers' : List Answer}
    (h : Separately r clock generation cs u answers)
    (h' : Separately r clock generation cs' u' answers') (hcs : Distinct cs)
    (hperm : cs.Perm cs') :
    u.conditions.map (·.rootUnstamped r.conditionTypes.root) =
        u'.conditions.map (·.rootUnstamped r.conditionTypes.root) ∧
      u.stateOf r.conditionTypes.root = u'.stateOf r.conditionTypes.root := by
  have hanswers : answers.Perm answers' := by
    rw [h.answers_eq, h'.answers_eq]
    exact hperm.map _
  have hothers : ∀ type, type ≠ r.conditionTypes.root → u.get? type = u'.get? type := by
    intro type htype
    rw [h.entries type htype, h'.entries type htype, hcs.find?_perm hperm]
  by_cases hchanged : Answer.changed true ∈ answers
  · -- both roots are derived, and from the same dependents
    obtain ⟨hordered, hsettled⟩ := h.settled hchanged
    obtain ⟨hordered', hsettled'⟩ := h'.settled (hanswers.mem_iff.mp hchanged)
    have hderived : u'.derivedRoot clock = u.derivedRoot clock := by
      refine Resource.derivedRoot_congr (h'.types.trans h.types.symm) (fun d hd => ?_) clock
      rw [h.types, hschema, ConditionTypes.mem_dependents_of] at hd
      refine (hothers d ?_).symm
      rw [hschema]
      exact hd.2
    have hroot : u.stateOf r.conditionTypes.root = u'.stateOf r.conditionTypes.root := by
      have hstate := stateOf_of_settled hsettled
      have hstate' := stateOf_of_settled hsettled'
      rw [h.types] at hstate
      rw [h'.types, hderived] at hstate'
      exact hstate.trans hstate'.symm
    refine ⟨map_rootUnstamped_eq ?_ ?_ hothers hroot, hroot⟩
    · exact hordered.increasing h.distinct
    · exact hordered'.increasing h'.distinct
  · have hlist := h.silent hchanged
    have hlist' := h'.silent (mt hanswers.mem_iff.mpr hchanged)
    rw [Resource.stateOf, Resource.stateOf, Resource.get?, Resource.get?, hlist, hlist']
    exact ⟨rfl, rfl⟩

/-- Conditions of different types may be set in any order at one instant: each gets the same
answer, and the lists differ in nothing but when the root last changed and for which generation. -/
theorem sets_commute {r : Resource} {root : String} {ds : List String}
    (hschema : r.conditionTypes = ConditionTypes.of root ds) (hlost : r.lost = [])
    (hdistinct : Distinct r.conditions) {cs cs' : List Condition} (hcs : Distinct cs)
    (hroot : ∀ c ∈ cs, c.type ≠ root) (hperm : cs.Perm cs') (clock : Readings)
    (generation : Int64) : SameOutcome r clock generation cs cs' := by
  have hcs' : Distinct cs' := (hperm.map _).nodup_iff.mp hcs
  have h := separately_run hschema hlost hdistinct clock generation hcs hroot
  have h' := separately_run hschema hlost hdistinct clock generation hcs' fun c hc =>
    hroot c (hperm.mem_iff.mpr hc)
  obtain ⟨hconditions, hstate⟩ := h.agree hschema h' hcs hperm
  refine { answers := ?_, conditions := hconditions, root := hstate }
  exact ⟨fun c => ((atGeneration r generation).set clock c).2, h.answers_eq, h'.answers_eq⟩

/-- A resource with two dependents about which nothing is known yet. -/
def undecided : Resource :=
  Resource.ofObject
    { metadata := .of .epoch "" "n"
      groupKind := ⟨"", "K"⟩
      conditionTypes := .of "Ready" ["A", "B"]
      conditions :=
        [Resource.awaiting .epoch 1 "A", Resource.awaiting .epoch 1 "B",
          Resource.awaiting .epoch 1 "Ready"] }

/-- One dependent becomes true, the other one false. -/
def verdicts : List Condition := [.of .epoch "A" .true, .of .epoch "B" .false]

theorem sets_commute_verdicts : Distinct undecided.conditions ∧ Distinct verdicts ∧
    (∀ c ∈ verdicts, c.type ≠ "Ready") ∧ verdicts.Perm verdicts.reverse ∧
    SameOutcome undecided Instant.epoch 2 verdicts verdicts.reverse := by
  have hdistinct : Distinct undecided.conditions := by
    show ["A", "B", "Ready"].Nodup
    decide
  have hcs : Distinct verdicts := by
    show ["A", "B"].Nodup
    decide
  have hroot : ∀ c ∈ verdicts, c.type ≠ "Ready" := by decide
  have hperm : verdicts.Perm verdicts.reverse := (List.reverse_perm verdicts).symm
  exact ⟨hdistinct, hcs, hroot, hperm,
    sets_commute rfl rfl hdistinct hcs hroot hperm Instant.epoch 2⟩

end ConditionSet

end StatusWatch
