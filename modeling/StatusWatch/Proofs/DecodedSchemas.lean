import Mathlib.Data.Fintype.EquivFin
import StatusWatch.Proofs.SortedLists
import StatusWatch.Proofs.WireFormats

/-!
# Schemas that were decoded

A schema that is made from a root and a list of dependents has neither repeated dependents nor
the root among them. Decoding takes the list as it is written, so both can happen. Repetitions do
no harm: they change nothing but how the schema is written. A root that is its own dependent
does: every derivation reads its previous status, so that it never becomes true again once it is
not, nor anything else once it is false.

- `SchemaLaw`: the root as the other dependents determine it.
- `RootFollows`, `rootFollows_perform`: the root as a change of another condition leaves it.
- `Bound`, `bound_run`: what a run keeps after its bind.
- `KeepsLaw`: an object whose root is always as the others determine it.
- `decoded_schema`: which decoded objects these are, and which schemas are written the same.
-/

namespace StatusWatch

namespace Resource

/-! ## The status of the root -/

section Derived

variable (clock : Readings) (r : Resource)

/-- What the unhealthy dependents have for their statuses, on which the clock has no influence. -/
theorem statuses_unhealthy : (r.unhealthy clock).map (·.status) =
    (r.conditionTypes.dependents.map fun d => (r.statusOf d).getD .unknown).filter
      fun status => status ≠ .true := by
  have hfound : (r.conditionTypes.dependents.mapIdx fun i d =>
      (r.get? d).getD (Condition.of (clock.missingAt i) d .unknown)).map (·.status) =
        r.conditionTypes.dependents.map fun d => (r.statusOf d).getD .unknown := by
    refine List.ext_getElem (by simp) fun i _ hi => ?_
    rw [List.length_map] at hi
    simp only [List.getElem_map, List.getElem_mapIdx, statusOf]
    cases r.get? r.conditionTypes.dependents[i] <;> rfl
  rw [unhealthy, ← hfound, List.filter_map]
  refine congrArg _ (List.filter_congr fun c _ => ?_)
  simp [Condition.isTrue]

theorem unhealthy_eq_nil_iff : r.unhealthy clock = [] ↔
    ∀ d ∈ r.conditionTypes.dependents, isTrue? (r.get? d) = true := by
  rw [← List.map_eq_nil_iff (f := (·.status)), statuses_unhealthy, List.filter_eq_nil_iff,
    List.forall_mem_map]
  refine forall₂_congr fun d _ => ?_
  unfold statusOf
  cases r.get? d <;> simp [isTrue?, Condition.isTrue]

theorem any_unhealthy_iff : (r.unhealthy clock).any Condition.isFalse = true ↔
    ∃ d ∈ r.conditionTypes.dependents, isFalse? (r.get? d) = true := by
  have hstatus : (r.unhealthy clock).any Condition.isFalse =
      ((r.unhealthy clock).map (·.status)).any fun status => status = .false := by
    rw [List.any_map]
    rfl
  rw [hstatus, statuses_unhealthy, List.any_filter, List.any_map, List.any_eq_true]
  refine exists_congr fun d => and_congr_right fun _ => ?_
  unfold statusOf
  cases h : r.get? d with
  | none => simp [isFalse?, h]
  | some c =>
    simp only [Function.comp_apply, h, Option.map_some, Option.getD_some, isFalse?,
      Option.any_some, Condition.isFalse]
    cases c.status <;> simp

theorem isTrue_derivedRoot : (r.derivedRoot clock).isTrue = true ↔
    ∀ d ∈ r.conditionTypes.dependents, isTrue? (r.get? d) = true := by
  rw [← unhealthy_eq_nil_iff clock r, derivedRoot]
  by_cases hbad : r.unhealthy clock = []
  · simp [hbad, Condition.isTrue, Condition.of]
  · simp only [hbad, if_false, iff_false, Condition.isTrue, Condition.of]
    split <;> simp

theorem isFalse_derivedRoot : (r.derivedRoot clock).isFalse = true ↔
    ∃ d ∈ r.conditionTypes.dependents, isFalse? (r.get? d) = true := by
  rw [← any_unhealthy_iff clock r, derivedRoot]
  by_cases hbad : r.unhealthy clock = []
  · simp [hbad, Condition.isFalse, Condition.of]
  · simp only [hbad, if_false, Condition.isFalse, Condition.of]
    split <;> simp_all

end Derived

theorem get?_recomputeRoot_of_ne (clock : Readings) {r : Resource} (hlost : r.lost = [])
    {type : String} (hne : type ≠ r.conditionTypes.root) :
    (r.recomputeRoot clock).get? type = r.get? type := by
  rcases recomputeRoot_cases clock r with ⟨-, -, -, heq⟩ | ⟨-, heq⟩
  · rw [heq]
  · rw [heq]
    refine get?_store_of_ne hlost ?_
    rwa [type_derivedRoot]

/-- After it was recomputed, the root has the derived status. -/
theorem root?_recomputeRoot (clock : Readings) {r : Resource} (hlost : r.lost = []) :
    ∃ c, (r.recomputeRoot clock).root? = some c ∧ c.status = (r.derivedRoot clock).status := by
  rcases recomputeRoot_cases clock r with ⟨old, hold, hsame, heq⟩ | ⟨-, heq⟩
  · rw [heq]
    exact ⟨old, hold, (sameState_iff.mp hsame).1⟩
  · rw [heq, root?, conditionTypes_store, get?_store, hlost, if_neg List.not_mem_nil, type_stamped,
      type_derivedRoot, if_pos rfl]
    exact ⟨_, rfl, rfl⟩

section Recomputed

variable (clock : Readings) {r : Resource} (hlost : r.lost = [])

include hlost

theorem isTrue_root?_recomputeRoot : isTrue? (r.recomputeRoot clock).root? = true ↔
    ∀ d ∈ r.conditionTypes.dependents, isTrue? (r.get? d) = true := by
  obtain ⟨root, hget, hstatus⟩ := root?_recomputeRoot clock hlost
  rw [← isTrue_derivedRoot clock r, hget]
  simp [isTrue?, Condition.isTrue, hstatus]

theorem isFalse_root?_recomputeRoot : isFalse? (r.recomputeRoot clock).root? = true ↔
    ∃ d ∈ r.conditionTypes.dependents, isFalse? (r.get? d) = true := by
  obtain ⟨root, hget, hstatus⟩ := root?_recomputeRoot clock hlost
  rw [← isFalse_derivedRoot clock r, hget]
  simp [isFalse?, Condition.isFalse, hstatus]

end Recomputed

end Resource

namespace ConditionSet

/-! ## The root after a change -/

/-- The root is true if all dependents besides it are, and false if one of them is. -/
structure SchemaLaw (r : Resource) : Prop where
  true_iff : isTrue? r.root? = true ↔
    ∀ d ∈ r.conditionTypes.dependents, d ≠ r.conditionTypes.root → isTrue? (r.get? d) = true
  false_iff : isFalse? r.root? = true ↔
    ∃ d ∈ r.conditionTypes.dependents, d ≠ r.conditionTypes.root ∧ isFalse? (r.get? d) = true

theorem not_isFalse_of_isTrue {c? : Option Condition} (h : isTrue? c? = true) :
    ¬ isFalse? c? = true := by
  cases c? with
  | none => cases h
  | some c =>
    have hstatus : c.status = .true := by simpa [isTrue?, Condition.isTrue] using h
    simp [isFalse?, Condition.isFalse, hstatus]

/-- A root that is among its own dependents counts with the status that it had before. -/
structure RootFollows (before after : Resource) : Prop where
  true_iff : isTrue? after.root? = true ↔
    (∀ d ∈ after.conditionTypes.dependents, d ≠ after.conditionTypes.root →
        isTrue? (after.get? d) = true) ∧
      (after.conditionTypes.root ∈ after.conditionTypes.dependents →
        isTrue? before.root? = true)
  false_iff : isFalse? after.root? = true ↔
    (∃ d ∈ after.conditionTypes.dependents, d ≠ after.conditionTypes.root ∧
        isFalse? (after.get? d) = true) ∨
      (after.conditionTypes.root ∈ after.conditionTypes.dependents ∧
        isFalse? before.root? = true)

/-- A step that sets another condition than the root and is answered with a change. -/
def Moves (r : Resource) (s : Request) : Prop :=
  changes (s, (s.perform r).2) = true ∧ ¬ s.sets r.conditionTypes.root

/-- What holds from the bind on. -/
structure Bound (t : ConditionTypes) (r : Resource) : Prop where
  types : r.conditionTypes = t
  lost : r.lost = []
  complete : r.Complete

variable {t : ConditionTypes} {r : Resource} {s : Request}

theorem Bound.perform (h : Bound t r) (s : Request) : Bound t (s.perform r).1 where
  types := (frame_perform r s).1.trans h.types
  lost := (frame_perform r s).2.trans h.lost
  complete := complete_perform h.complete s

theorem Bound.stripped (h : Bound t r) : r.Stripped := by
  intro d hd
  rw [h.lost] at hd
  cases hd

theorem bound_bind (hlost : r.lost = []) (hbind : s.operation = .bind) :
    Bound r.conditionTypes (s.perform r).1 where
  types := (frame_perform r s).1
  lost := (frame_perform r s).2.trans hlost
  complete := by
    rw [perform_of_bind hbind]
    exact Resource.complete_bind _ _

theorem Bound.run (h : Bound t r) (steps : List Request) : Bound t (run r steps).1 := by
  induction steps using List.reverseRecOn with
  | nil => exact h
  | append_singleton steps s ih =>
    rw [run_concat]
    exact ih.perform s

/-- What a change stores and what it recomputes. -/
theorem perform_of_moves (hm : Moves r s) : ∃ c, s.operation = .set c ∧
    c.type ≠ r.conditionTypes.root ∧ (s.perform r).1 =
      ((atGeneration r s.generation).store
        (Resource.stamped s.now (atGeneration r s.generation) c)).recomputeRoot s.toReadings := by
  obtain ⟨hchanges, hroot⟩ := hm
  rcases perform_cases r s with ⟨hbind, -⟩ | ⟨hquiet, -⟩ | ⟨c, hset, -, -, heq⟩ |
    ⟨type, hquiet, -, -⟩
  · rw [changes_of_bind hbind] at hchanges
    cases hchanges
  · rw [hquiet] at hchanges
    cases hchanges
  · have hne : c.type ≠ r.conditionTypes.root := fun htype => hroot ⟨c, hset, htype⟩
    refine ⟨c, hset, hne, ?_⟩
    rw [heq, Resource.put]
    exact if_neg hne
  · rw [hquiet] at hchanges
    cases hchanges

/-- A change leaves the root as all its dependents determine it, its own previous status
included. -/
theorem rootFollows_perform (h : Bound t r) (hm : Moves r s) : RootFollows r (s.perform r).1 := by
  obtain ⟨c, -, hne, heq⟩ := perform_of_moves hm
  rw [heq]
  generalize hstored : (atGeneration r s.generation).store
    (Resource.stamped s.now (atGeneration r s.generation) c) = stored
  have hlost : stored.lost = [] := hstored ▸ h.lost
  have hroot : stored.root? = r.root? := by
    rw [← hstored]
    exact Resource.get?_store_of_ne (r := atGeneration r s.generation) h.lost hne.symm
  have hrest : ∀ d, d ≠ stored.conditionTypes.root →
      (stored.recomputeRoot s.toReadings).get? d = stored.get? d := fun d hd =>
    Resource.get?_recomputeRoot_of_ne s.toReadings hlost hd
  have htypes := (Resource.frame_recomputeRoot s.toReadings stored).1
  -- only the root is read from before the step, and only if it is among the dependents
  constructor
  · rw [Resource.isTrue_root?_recomputeRoot s.toReadings hlost, htypes, ← hroot]
    constructor
    · intro hall
      refine ⟨fun d hd hne => ?_, fun hself => hall _ hself⟩
      rw [hrest d hne]
      exact hall d hd
    · rintro ⟨hothers, hself⟩ d hd
      by_cases hd' : d = stored.conditionTypes.root
      · subst hd'
        exact hself hd
      · rw [← hrest d hd']
        exact hothers d hd hd'
  · rw [Resource.isFalse_root?_recomputeRoot s.toReadings hlost, htypes, ← hroot]
    constructor
    · rintro ⟨d, hd, hbad⟩
      by_cases hd' : d = stored.conditionTypes.root
      · subst hd'
        exact Or.inr ⟨hd, hbad⟩
      · refine Or.inl ⟨d, hd, hd', ?_⟩
        rw [hrest d hd']
        exact hbad
    · rintro (⟨d, hd, hd', hbad⟩ | ⟨hself, hbad⟩)
      · rw [hrest d hd'] at hbad
        exact ⟨d, hd, hbad⟩
      · exact ⟨_, hself, hbad⟩

/-! ## Other steps -/

/-- Without a change, what the schema declares stays as it is. -/
theorem get?_perform_of_not_moves (h : Bound t r) (hs : ¬ s.sets r.conditionTypes.root)
    (hm : ¬ Moves r s) {d : String} (hd : d ∈ r.conditionTypes.all) :
    (s.perform r).1.get? d = r.get? d := by
  refine get?_perform_of_quiet h.complete h.stripped ?_ hd
  by_contra hchanges
  exact hm ⟨by simpa using hchanges, hs⟩

/-- A step that does not set the root leaves it alone or follows the dependents. -/
theorem root?_perform (h : Bound t r) (hs : ¬ s.sets r.conditionTypes.root) :
    (s.perform r).1.root? = r.root? ∨ Moves r s := by
  by_cases hm : Moves r s
  · exact Or.inr hm
  · left
    rw [Resource.root?, Resource.root?, (frame_perform r s).1]
    exact get?_perform_of_not_moves h hs hm (ConditionTypes.mem_all.mpr (Or.inr rfl))

/-- The step that sets a type to a status. -/
def setting (status : ConditionStatus) (type : String) : Request :=
  ⟨Instant.epoch, 0, .set (.of .epoch type status)⟩

theorem not_sets_setting {status : ConditionStatus} {type root : String} (h : type ≠ root) :
    ¬ (setting status type).sets root := by
  rintro ⟨c, hset, htype⟩
  cases hset
  exact h htype

/-- What setting a type comes to. -/
theorem perform_setting (h : Bound t r) {status : ConditionStatus} {type : String}
    (hne : type ≠ t.root) :
    (∃ old, r.get? type = some old ∧ old.status = status ∧
        (setting status type).perform r = (atGeneration r 0, .changed false)) ∨
      ∃ c : Condition, c.type = type ∧ c.status = status ∧ (setting status type).perform r =
        (((atGeneration r 0).store c).recomputeRoot Instant.epoch, .changed true) := by
  have hperform : (setting status type).perform r =
      (((atGeneration r 0).set Instant.epoch (.of .epoch type status)).1,
        .changed ((atGeneration r 0).set Instant.epoch (.of .epoch type status)).2) := rfl
  rw [hperform]
  rcases Resource.set_cases Instant.epoch (atGeneration r 0) (.of .epoch type status) with
    ⟨old, hold, hsame, heq⟩ | ⟨-, heq⟩
  · rw [heq]
    exact Or.inl ⟨old, hold, (Resource.sameState_iff.mp hsame).1, rfl⟩
  · have hroot : type ≠ (atGeneration r 0).conditionTypes.root := by
      show type ≠ r.conditionTypes.root
      rwa [h.types]
    rw [heq, Resource.put]
    refine Or.inr ⟨Resource.stamped .epoch (atGeneration r 0) (.of .epoch type status), rfl, rfl,
      ?_⟩
    exact congrArg (·, Answer.changed true) (if_neg hroot)

/-- Besides the root, setting a type changes this type only. -/
theorem get?_setting (h : Bound t r) (status : ConditionStatus) {type : String}
    (hne : type ≠ t.root) : ∃ c : Condition, c.status = status ∧ ∀ d, d ≠ t.root →
      ((setting status type).perform r).1.get? d = if d = type then some c else r.get? d := by
  rcases perform_setting h hne with ⟨old, hold, hstatus, heq⟩ | ⟨c, htype, hstatus, heq⟩
  · refine ⟨old, hstatus, fun d _ => ?_⟩
    rw [heq]
    show r.get? d = _
    split
    · rename_i hd
      rw [hd, hold]
    · rfl
  · refine ⟨c, hstatus, fun d hd => ?_⟩
    have hlost : ((atGeneration r 0).store c).lost = [] := h.lost
    have hkept : d ∉ (atGeneration r 0).lost := by
      show d ∉ r.lost
      simp [h.lost]
    have hroot : d ≠ ((atGeneration r 0).store c).conditionTypes.root := by
      show d ≠ r.conditionTypes.root
      rwa [h.types]
    rw [heq]
    show (((atGeneration r 0).store c).recomputeRoot Instant.epoch).get? d = _
    rw [Resource.get?_recomputeRoot_of_ne Instant.epoch hlost hroot, Resource.get?_store,
      if_neg hkept, htype]
    exact if_congr eq_comm rfl rfl

theorem get?_setting_self (h : Bound t r) (status : ConditionStatus) {type : String}
    (hne : type ≠ t.root) :
    ∃ c, ((setting status type).perform r).1.get? type = some c ∧ c.status = status := by
  obtain ⟨c, hstatus, hget⟩ := get?_setting h status hne
  exact ⟨c, (hget type hne).trans (if_pos rfl), hstatus⟩

theorem get?_setting_of_ne (h : Bound t r) {status : ConditionStatus} {type d : String}
    (hne : type ≠ t.root) (hd : d ≠ t.root) (hother : d ≠ type) :
    ((setting status type).perform r).1.get? d = r.get? d := by
  obtain ⟨c, -, hget⟩ := get?_setting h status hne
  exact (hget d hd).trans (if_neg hother)

/-- Setting a type to a status that it has not got is a change. -/
theorem moves_setting (h : Bound t r) {status : ConditionStatus} {type : String}
    (hne : type ≠ t.root) (hother : ∀ c, r.get? type = some c → c.status ≠ status) :
    Moves r (setting status type) := by
  refine ⟨?_, not_sets_setting (h.types ▸ hne)⟩
  rcases perform_setting h hne with ⟨old, hold, hstatus, -⟩ | ⟨c, -, -, heq⟩
  · exact absurd hstatus (hother old hold)
  · rw [heq]
    rfl

/-! ## Objects that keep the law -/

/-- After every change that does not set the root, it is as the other dependents determine it,
whatever was done since the bind. -/
def KeepsLaw (o : StatusObject) : Prop :=
  ∀ (first : Request) (steps : List Request) (s : Request), first.operation = .bind →
    (∀ s' ∈ steps, ¬ s'.sets o.conditionTypes.root) →
      let r := (run (Resource.ofObject o) (first :: steps)).1
      Moves r s → SchemaLaw (s.perform r).1

theorem bound_run (o : StatusObject) {first : Request} (hbind : first.operation = .bind)
    (steps : List Request) :
    Bound o.conditionTypes (run (Resource.ofObject o) (first :: steps)).1 := by
  have hlost : (Resource.ofObject o).lost = [] := rfl
  rw [run_cons]
  exact (bound_bind hlost hbind).run steps

/-- The law holds after a change unless the root, being its own dependent, was not true. -/
theorem schemaLaw_of_follows {before after : Resource} (h : RootFollows before after)
    (hself : after.conditionTypes.root ∈ after.conditionTypes.dependents →
      isTrue? before.root? = true) : SchemaLaw after := by
  constructor
  · rw [h.true_iff]
    exact and_iff_left_of_imp fun _ => hself
  · rw [h.false_iff]
    refine or_iff_left_of_imp fun ⟨hroot, hfalse⟩ => ?_
    exact absurd hfalse (not_isFalse_of_isTrue (hself hroot))

/-- A root that is its only dependent never changes. -/
theorem root_stays {o : StatusObject} {first : Request} (hbind : first.operation = .bind)
    (hself : o.conditionTypes.root ∈ o.conditionTypes.dependents)
    (hall : ∀ d ∈ o.conditionTypes.dependents, d = o.conditionTypes.root) (steps : List Request)
    (hsteps : ∀ s ∈ steps, ¬ s.sets o.conditionTypes.root) :
    isTrue? (run (Resource.ofObject o) (first :: steps)).1.root? = true ↔
      isTrue? (Condition.find? o.conditionTypes.root o.conditions) = true := by
  induction steps using List.reverseRecOn with
  | nil =>
    have hget := @Resource.get?_bind first.now
      (atGeneration (Resource.ofObject o) first.generation) o.conditionTypes.root List.not_mem_nil
    show isTrue? (first.perform (Resource.ofObject o)).1.root? = true ↔ _
    rw [perform_of_bind hbind, Resource.root?, Resource.conditionTypes_bind]
    show isTrue? (Resource.get? _ o.conditionTypes.root) = true ↔ _
    rw [hget]
    show isTrue? ((Condition.find? o.conditionTypes.root o.conditions).or _) = true ↔ _
    cases Condition.find? o.conditionTypes.root o.conditions with
    | none =>
      split <;> simp [isTrue?, Resource.awaiting, Condition.isTrue, Condition.of]
    | some c => rw [Option.some_or]
  | append_singleton steps s ih =>
    have ih := ih fun s' hs' => hsteps s' (List.mem_append_left _ hs')
    have hbound := bound_run o hbind steps
    have hs : ¬ s.sets (run (Resource.ofObject o) (first :: steps)).1.conditionTypes.root := by
      rw [hbound.types]
      exact hsteps s (by simp)
    rw [← List.cons_append, run_concat]
    show isTrue? (s.perform _).1.root? = true ↔ _
    rcases root?_perform hbound hs with hsame | hm
    · rw [hsame, ih]
    · have htypes := (hbound.perform s).types
      rw [(rootFollows_perform hbound hm).true_iff, htypes, ← ih]
      exact ⟨fun h => h.2 hself, fun h => ⟨fun d hd hne => absurd (hall d hd) hne, fun _ => h⟩⟩

/-! ## Breaking the law -/

/-- Types that were set to true are true after all of them were set. -/
theorem isTrue_settings (h : Bound t r) {types : List String} (hne : ∀ d ∈ types, d ≠ t.root) :
    ∀ d ∈ types, isTrue? ((run r (types.map (setting .true))).1.get? d) = true := by
  induction types using List.reverseRecOn with
  | nil => exact fun d hd => nomatch hd
  | append_singleton types last ih =>
    have hlast := hne last (by simp)
    have ih := ih fun d hd => hne d (List.mem_append_left _ hd)
    have hbound := h.run (types.map (setting .true))
    intro d hd
    rw [List.map_append, List.map_singleton, run_concat]
    show isTrue? ((Request.perform _ (setting .true last)).1.get? d) = true
    by_cases hsame : d = last
    · obtain ⟨c, hget, hstatus⟩ := get?_setting_self hbound .true hlast
      rw [hsame, hget]
      simp [isTrue?, Condition.isTrue, hstatus]
    · have hd' : d ∈ types := by simpa [hsame] using hd
      rw [get?_setting_of_ne hbound hlast (hne d hd) hsame]
      exact ih d hd'

/-- With another dependent, a root that is its own dependent gets stuck: once it was false, it
stays false although all others are true again. -/
theorem not_schemaLaw_of_other (h : Bound t r) (hself : t.root ∈ t.dependents) {other : String}
    (hmem : other ∈ t.dependents) (hother : other ≠ t.root)
    (htrue : ∀ d ∈ t.dependents, d ≠ t.root → isTrue? (r.get? d) = true) :
    let bad := ((setting .false other).perform r).1
    Moves bad (setting .true other) ∧ ¬ SchemaLaw ((setting .true other).perform bad).1 := by
  intro bad
  have hbad : Bound t bad := h.perform _
  have hgood : Bound t ((setting .true other).perform bad).1 := hbad.perform _
  obtain ⟨c, hget, hstatus⟩ := get?_setting_self h .false hother
  have hmoves : Moves r (setting .false other) := by
    refine moves_setting h hother fun c hc hfalse => ?_
    have := htrue other hmem hother
    simp [hc, isTrue?, Condition.isTrue, hfalse] at this
  have hmoves' : Moves bad (setting .true other) := by
    refine moves_setting hbad hother fun c' hc' htrue' => ?_
    rw [hget] at hc'
    cases hc'
    rw [hstatus] at htrue'
    cases htrue'
  refine ⟨hmoves', fun hlaw => ?_⟩
  -- the root turns false with the other dependent, and then holds itself down
  have hroot : isFalse? bad.root? = true := by
    rw [(rootFollows_perform h hmoves).false_iff, hbad.types]
    exact Or.inl ⟨other, hmem, hother, by simp [hget, isFalse?, Condition.isFalse, hstatus]⟩
  have hroot' : isFalse? ((setting .true other).perform bad).1.root? = true := by
    rw [(rootFollows_perform hbad hmoves').false_iff, hgood.types]
    exact Or.inr ⟨hself, hroot⟩
  obtain ⟨d, hd, hne, hfalse⟩ := hlaw.false_iff.mp hroot'
  rw [hgood.types] at hd hne
  -- nothing but the root can be false now
  have hd' : isTrue? (((setting .true other).perform bad).1.get? d) = true := by
    by_cases hsame : d = other
    · obtain ⟨c', hget', hstatus'⟩ := get?_setting_self hbad .true hother
      rw [hsame, hget']
      simp [isTrue?, Condition.isTrue, hstatus']
    · rw [get?_setting_of_ne hbad hother hne hsame, get?_setting_of_ne h hother hne hsame]
      exact htrue d hd hne
  exact not_isFalse_of_isTrue hd' hfalse

/-- The bind that runs begin with here. -/
def binding : Request := ⟨Instant.epoch, 0, .bind⟩

/-- Nothing is known of a schema that is bound to an empty list. -/
theorem statusOf_binding {o : StatusObject} (hempty : o.conditions = []) {type : String}
    (htype : type ∈ o.conditionTypes.all) :
    Resource.statusOf type (run (Resource.ofObject o) [binding]).1 = some .unknown := by
  have hnone : (atGeneration (Resource.ofObject o) 0).get? type = none := by
    show Condition.find? type o.conditions = none
    rw [hempty]
    rfl
  show (((atGeneration (Resource.ofObject o) 0).bind .epoch).get? type).map (·.status) = _
  rw [Resource.get?_bind _ _ List.not_mem_nil, hnone, Option.none_or]
  exact congrArg (Option.map _) (if_pos htype)

/-- Under the law, a root that is among its dependents has no other dependent. -/
theorem KeepsLaw.eq_root {o : StatusObject} (hlaw : KeepsLaw o)
    (hself : o.conditionTypes.root ∈ o.conditionTypes.dependents) {other : String}
    (hmem : other ∈ o.conditionTypes.dependents) : other = o.conditionTypes.root := by
  by_contra hne
  let others := o.conditionTypes.dependents.filter (· ≠ o.conditionTypes.root)
  have hothers : ∀ d ∈ others, d ≠ o.conditionTypes.root := fun d hd => by
    simpa [others] using (List.mem_filter.mp hd).2
  have hsteps : ∀ s ∈ others.map (setting .true) ++ [setting .false other],
      ¬ s.sets o.conditionTypes.root := fun s hs => by
    rcases List.mem_append.mp hs with hs | hs
    · obtain ⟨d, hd, rfl⟩ := List.mem_map.mp hs
      exact not_sets_setting (hothers d hd)
    · rw [List.mem_singleton.mp hs]
      exact not_sets_setting hne
  have hbound : ∀ steps, Bound o.conditionTypes (run (Resource.ofObject o) (binding :: steps)).1 :=
    bound_run o rfl
  have hrun : (run (Resource.ofObject o)
      (binding :: (others.map (setting .true) ++ [setting .false other]))).1 =
        ((setting .false other).perform
          (run (Resource.ofObject o) (binding :: others.map (setting .true))).1).1 := by
    rw [← List.cons_append, run_concat]
  obtain ⟨hm, hnot⟩ := not_schemaLaw_of_other (hbound _) hself hmem hne fun d hd hd' =>
    isTrue_settings (hbound []) hothers d (List.mem_filter.mpr ⟨hd, by simpa using hd'⟩)
  refine hnot ?_
  rw [← hrun] at hm ⊢
  exact hlaw binding _ _ rfl hsteps hm

/-- Under the law, a root that is its only dependent is true. -/
theorem KeepsLaw.root_true {o : StatusObject} (hlaw : KeepsLaw o)
    (hself : o.conditionTypes.root ∈ o.conditionTypes.dependents) :
    isTrue? (Condition.find? o.conditionTypes.root o.conditions) = true := by
  have hall : ∀ d ∈ o.conditionTypes.dependents, d = o.conditionTypes.root :=
    fun d hd => hlaw.eq_root hself hd
  -- a change of any other type shows the root, which none of them determines
  obtain ⟨type, hne⟩ := exists_ne o.conditionTypes.root
  have hsteps : ∀ s ∈ [setting .true type], ¬ s.sets o.conditionTypes.root := fun s hs => by
    rw [List.mem_singleton.mp hs]
    exact not_sets_setting hne
  have hbound : ∀ steps, Bound o.conditionTypes (run (Resource.ofObject o) (binding :: steps)).1 :=
    bound_run o rfl
  have hm : Moves (run (Resource.ofObject o) [binding, setting .true type]).1
      (setting .false type) := by
    refine moves_setting (hbound _) hne fun c hc hfalse => ?_
    obtain ⟨c', hc', htrue⟩ := get?_setting_self (hbound []) .true hne
    cases hc'.symm.trans hc
    rw [hfalse] at htrue
    cases htrue
  have htypes := ((hbound [setting .true type]).perform (setting .false type)).types
  have hroot := (hlaw binding [setting .true type] (setting .false type) rfl hsteps hm).true_iff.mpr
    fun d hd hd' => by
      rw [htypes] at hd hd'
      exact absurd (hall d hd) hd'
  have hbefore := ((rootFollows_perform (hbound _) hm).true_iff.mp hroot).2 (htypes.symm ▸ hself)
  exact (root_stays rfl hself hall _ hsteps).mp hbefore

/-- Which objects keep the law. -/
theorem keepsLaw_iff (o : StatusObject) : KeepsLaw o ↔
    o.conditionTypes.root ∉ o.conditionTypes.dependents ∨
      ((∀ d ∈ o.conditionTypes.dependents, d = o.conditionTypes.root) ∧
        isTrue? (Condition.find? o.conditionTypes.root o.conditions) = true) := by
  constructor
  · intro hlaw
    by_cases hself : o.conditionTypes.root ∈ o.conditionTypes.dependents
    · exact Or.inr ⟨fun d hd => hlaw.eq_root hself hd, hlaw.root_true hself⟩
    · exact Or.inl hself
  · intro h first steps s hbind hsteps r hm
    have hbound := bound_run o hbind steps
    refine schemaLaw_of_follows (rootFollows_perform hbound hm) ?_
    rw [(hbound.perform s).types]
    intro hself
    obtain ⟨hall, htrue⟩ := h.resolve_left (not_not.mpr hself)
    exact (root_stays hbind hself hall steps hsteps).mpr htrue

end ConditionSet

/-! ## How schemas are written -/

namespace ConditionTypes

/-- Nothing is dropped from a list without repetitions. -/
theorem distinct_eq_self (ds : List String) : ∀ seen : List String, ds.Nodup →
    (∀ d ∈ ds, d ∉ seen) → distinct seen ds = ds := by
  induction ds with
  | nil => exact fun _ _ _ => rfl
  | cons d ds ih =>
    intro seen hnodup hseen
    obtain ⟨hd, hnodup⟩ := List.nodup_cons.mp hnodup
    rw [distinct, if_neg (hseen d List.mem_cons_self), ih (d :: seen) hnodup]
    intro d' hd' hmem
    rcases List.mem_cons.mp hmem with rfl | hmem
    · exact hd hd'
    · exact hseen d' (List.mem_cons_of_mem _ hd') hmem

/-- A schema is written like the one made from its parts if nothing is dropped there. -/
theorem encode_eq_iff (t : ConditionTypes) :
    t.encode = (of t.root t.dependents).encode ↔
      t.root ∉ t.dependents ∧ t.dependents.Nodup := by
  have hencode : t.encode = (of t.root t.dependents).encode ↔
      (of t.root t.dependents).dependents = t.dependents := by
    constructor
    · intro h
      have hback := decode_encode (of t.root t.dependents)
      rw [← h, decode_encode, Except.ok.injEq] at hback
      rw [← hback]
    · intro h
      rw [encode, encode, h]
      rfl
  rw [hencode]
  constructor
  · intro h
    have hroot := @mem_dependents_of t.root t.root t.dependents
    have hnodup := nodup_dependents_of t.root t.dependents
    rw [h] at hroot hnodup
    exact ⟨fun hmem => (hroot.mp hmem).2 rfl, hnodup⟩
  · rintro ⟨hroot, hnodup⟩
    refine distinct_eq_self t.dependents [t.root] hnodup fun d hd hmem => hroot ?_
    rwa [← List.mem_singleton.mp hmem]

end ConditionTypes

/-! ## Decoded objects -/

namespace ConditionSet

/-- A document is read as an object with the given schema and conditions. -/
def Decodes (payload : Json) (t : ConditionTypes) (cs : List Condition) (o : StatusObject) : Prop :=
  StatusObject.decode payload = .ok o ∧ o.conditionTypes = t ∧ o.conditions = cs

/-- What becomes of the rules for schemas when schema and conditions are decoded. -/
structure DecodedSchema (t : ConditionTypes) (cs : List Condition) : Prop where
  /-- Every schema and every list can be decoded. -/
  decodes : ∃ payload o, Decodes payload t cs o
  /-- After a change, the root follows its dependents and, being one, its previous status. -/
  follows : ∀ payload o, Decodes payload t cs o → ∀ first steps s, first.operation = .bind →
    let r := (run (Resource.ofObject o) (first :: steps)).1
    Moves r s → RootFollows r (s.perform r).1
  /-- The law holds in every run unless the root is among its dependents, where it takes a root
  that is the only one and true from the start. -/
  keepsLaw_iff : (∀ payload o, Decodes payload t cs o → KeepsLaw o) ↔
    t.root ∉ t.dependents ∨
      ((∀ d ∈ t.dependents, d = t.root) ∧ isTrue? (Condition.find? t.root cs) = true)
  /-- The schema is written as it was, which need not be the way a new one is written. -/
  encode_iff : t.encode = (ConditionTypes.of t.root t.dependents).encode ↔
    t.root ∉ t.dependents ∧ t.dependents.Nodup

theorem exists_decodes (t : ConditionTypes) (cs : List Condition) :
    ∃ payload o, Decodes payload t cs o := by
  let payload : Json := .object
    [("conditionTypes", t.encode), ("conditions", Condition.encodeAll cs),
      ("groupKind", .object [("group", .string ""), ("kind", .string "K")]),
      ("metadata", .object [("name", .string "n")])]
  let o : StatusObject := ⟨ObjectMeta.of .epoch "" "n", ⟨"", "K"⟩, t, cs⟩
  have hconditions : Decoder.list Condition.decode (Condition.encodeAll cs) = .ok cs := by
    rw [Condition.encodeAll, Decoder.list, Condition.items_encode]
  have hdecode : StatusObject.decode payload = .ok o := by
    show StatusObject.decodeFields _ = _
    rw [StatusObject.decodeFields, Decoder.optional_of_field rfl t.decode_encode,
      Decoder.optional_of_field rfl hconditions]
    rfl
  exact ⟨payload, o, hdecode, rfl, rfl⟩

/-- Decoding takes any schema as it is written, and the root is then as its dependents and, if it
is one of them, its own previous status determine it. -/
theorem decoded_schema (t : ConditionTypes) (cs : List Condition) : DecodedSchema t cs where
  decodes := exists_decodes t cs
  follows _ o _ _ steps _ hbind hm := rootFollows_perform (bound_run o hbind steps) hm
  keepsLaw_iff := by
    constructor
    · intro hlaw
      obtain ⟨payload, o, hdecodes⟩ := exists_decodes t cs
      have hkeeps := (keepsLaw_iff o).mp (hlaw payload o hdecodes)
      rwa [hdecodes.2.1, hdecodes.2.2] at hkeeps
    · rintro h payload o ⟨-, rfl, rfl⟩
      exact (keepsLaw_iff o).mpr h
  encode_iff := t.encode_eq_iff

/-- A document whose schema has the root among its dependents. -/
def selfReferring : Json :=
  .object
    [("conditionTypes", .object
        [("dependents", .array [.string "Ready", .string "Foo"]), ("root", .string "Ready")]),
      ("groupKind", .object [("group", .string ""), ("kind", .string "K")]),
      ("metadata", .object [("name", .string "n")])]

/-- What it is decoded to. -/
def selfReferred : StatusObject where
  metadata := ObjectMeta.of .epoch "" "n"
  groupKind := ⟨"", "K"⟩
  conditionTypes := ⟨"Ready", ["Ready", "Foo"]⟩
  conditions := []

/-- What it is once it is bound. -/
def selfBound : Resource := (run (Resource.ofObject selfReferred) [binding]).1

/-- Its root does not become true with its only other dependent, and its schema is written with
the root among the dependents. -/
theorem not_lawful_selfReferring :
    StatusObject.decode selfReferring = .ok selfReferred ∧
      Moves selfBound (setting .true "Foo") ∧
      ¬ SchemaLaw ((setting .true "Foo").perform selfBound).1 ∧
      selfReferred.conditionTypes.encode ≠
        (ConditionTypes.of "Ready" ["Ready", "Foo"]).encode := by
  have hdecode : StatusObject.decode selfReferring = .ok selfReferred := rfl
  have hbound : Bound selfReferred.conditionTypes selfBound := bound_run selfReferred rfl []
  have hfoo : Resource.statusOf "Foo" selfBound = some .unknown :=
    statusOf_binding rfl (by decide)
  have hready : Resource.statusOf "Ready" selfBound = some .unknown :=
    statusOf_binding rfl (by decide)
  have hmoves : Moves selfBound (setting .true "Foo") := by
    refine moves_setting hbound (by decide) fun c hc htrue => ?_
    rw [Resource.statusOf, hc] at hfoo
    cases htrue.symm.trans (Option.some.inj hfoo)
  have htypes := (hbound.perform (setting .true "Foo")).types
  refine ⟨hdecode, hmoves, fun hlaw => ?_, fun hencode => ?_⟩
  · have hroot := hlaw.true_iff.mpr fun d hd hne => by
      rw [htypes] at hd hne
      rcases List.mem_pair.mp hd with rfl | rfl
      · exact absurd rfl hne
      · obtain ⟨c, hget, hstatus⟩ := get?_setting_self hbound .true hne
        simp [hget, isTrue?, Condition.isTrue, hstatus]
    -- the root was unknown before, so it is not true now
    have hself : selfBound.root? = selfBound.get? "Ready" := by
      rw [Resource.root?, hbound.types]
      rfl
    have hbefore := ((rootFollows_perform hbound hmoves).true_iff.mp hroot).2 (by
      rw [htypes]
      decide)
    cases hget : selfBound.get? "Ready" with
    | none => simp [hself, hget, isTrue?] at hbefore
    | some c =>
      rw [Resource.statusOf, hget] at hready
      simp [hself, hget, isTrue?, Condition.isTrue, Option.some.inj hready] at hbefore
  · exact absurd ((ConditionTypes.encode_eq_iff _).mp hencode).1 (by decide)

end ConditionSet

end StatusWatch
