import StatusWatch.Proofs.ReportedChanges

/-!
# The order in which dependents are declared

A schema lists its dependents, and binding, deriving the root and the schema itself go through
them in that order. None of it shows: what binding adds is sorted by type, and the report on
unhealthy dependents is sorted by time and then type. Both sorts are stable, and both leave no
choice, even where the list of the resource has several entries of one type. What could show is
when a dependent that is missing is looked for. None is once the schema is bound, unless the
resource loses what is written to it.

- `Ordered.ext`: a sorted list is determined by the entries of each type.
- `Reordered`: two schemas with the same root and the same dependents in another order.
- `declaring`: a resource with another schema.
- `Readings.Steady`, `Undated`: no reading for a missing dependent shows.
- `bind_declaring`, `derivedRoot_declaring`, `perform_declaring`: what an operation does under
  another order.
- `Indistinguishable`, `declaration_order_irrelevant`: any two lists of the same dependents.
-/

namespace StatusWatch

/-! ## Sorted lists with repetitions -/

namespace Condition

/-- Nothing in a sorted list comes before its first entry. -/
theorem Ordered.type_le_of_mem {c d : Condition} {cs : List Condition} (h : Ordered (c :: cs))
    (hd : d ∈ c :: cs) : c.type ≤ d.type := by
  rcases List.mem_cons.mp hd with rfl | hd
  · exact String.le_refl _
  · exact (List.pairwise_cons.mp h).1 d hd

theorem mem_ofType {type : String} {c : Condition} {cs : List Condition} :
    c ∈ ofType type cs ↔ c ∈ cs ∧ c.type = type := by
  simp [ofType]

/-- A sorted list is determined by the entries of each type. -/
theorem Ordered.ext : ∀ {cs ds : List Condition}, Ordered cs → Ordered ds →
    (∀ type, ofType type cs = ofType type ds) → cs = ds
  | [], [], _, _, _ => rfl
  | [], d :: ds, _, _, h => by simpa [ofType] using h d.type
  | c :: cs, [], _, _, h => by simpa [ofType] using h c.type
  | c :: cs, d :: ds, hcs, hds, h => by
    have hmem : ∀ e, e ∈ c :: cs ↔ e ∈ d :: ds := fun e => by
      have := congrArg (e ∈ ·) (h e.type)
      simpa only [mem_ofType, and_true, eq_iff_iff] using this
    have htype : c.type = d.type :=
      String.le_antisymm (hcs.type_le_of_mem ((hmem d).mpr List.mem_cons_self))
        (hds.type_le_of_mem ((hmem c).mp List.mem_cons_self))
    -- both are the first entry of their type
    have hhead : c = d := by
      have := congrArg List.head? (h c.type)
      simpa [ofType, htype] using this
    subst hhead
    refine congrArg (c :: ·) (Ordered.ext (List.pairwise_cons.mp hcs).2
      (List.pairwise_cons.mp hds).2 fun type => ?_)
    have := h type
    unfold ofType at this ⊢
    by_cases hc : c.type = type
    · simpa [hc] using this
    · simpa [hc] using this

/-- The sort forgets in which order entries of different types came. -/
theorem sortByType_congr {cs ds : List Condition} (h : ∀ type, ofType type cs = ofType type ds) :
    sortByType cs = sortByType ds :=
  (ordered_sortByType cs).ext (ordered_sortByType ds) fun type => by
    rw [ofType_sortByType, ofType_sortByType, h]

end Condition

open Condition (ofType)

/-! ## Schemas -/

namespace ConditionTypes

/-- The same root, and the same dependents in another order. -/
structure Reordered (t t' : ConditionTypes) : Prop where
  root : t.root = t'.root
  dependents : t.dependents.Perm t'.dependents

variable {t t' : ConditionTypes}

theorem Reordered.all (h : t.Reordered t') : t.all.Perm t'.all := by
  unfold ConditionTypes.all
  rw [h.root]
  exact h.dependents.append_right _

theorem Reordered.isRoot (h : t.Reordered t') (type : String) : t'.isRoot type = t.isRoot type := by
  rw [ConditionTypes.isRoot, ConditionTypes.isRoot, h.root]

theorem Reordered.isDependent (h : t.Reordered t') (type : String) :
    t'.isDependent type = t.isDependent type := by
  unfold ConditionTypes.isDependent
  rw [Bool.eq_iff_iff, List.contains_iff_mem, List.contains_iff_mem, h.dependents.mem_iff]

theorem Reordered.contains (h : t.Reordered t') (type : String) :
    t'.contains type = t.contains type := by
  rw [ConditionTypes.contains, ConditionTypes.contains, h.isRoot, h.isDependent]

/-- Lists with the same elements besides the root make schemas that differ in order only. -/
theorem reordered_of {root : String} {ds ds' : List String}
    (h : ∀ d, d ≠ root → (d ∈ ds ↔ d ∈ ds')) : (of root ds).Reordered (of root ds') where
  root := rfl
  dependents :=
    (List.perm_ext_iff_of_nodup (nodup_dependents_of root ds) (nodup_dependents_of root ds')).mpr
      fun d => by
        rw [mem_dependents_of, mem_dependents_of]
        exact and_congr_left fun hne => h d hne

end ConditionTypes

open ConditionTypes (Reordered)

/-! ## The clock -/

namespace Readings

/-- The missing dependents are all looked for at the time at which the root is written. -/
def Steady (clock : Readings) : Prop := ∀ t ∈ clock.missing, t = clock.root

theorem steady_still (now : Instant) : (still now).Steady := by
  simp [Steady, still]

theorem Steady.missingAt {clock : Readings} (h : clock.Steady) (i : Nat) :
    clock.missingAt i = clock.root := by
  unfold Readings.missingAt
  rw [List.getD_eq_getElem?_getD]
  cases hget : clock.missing[i]? with
  | none => rfl
  | some t => exact h t (List.mem_of_getElem? hget)

end Readings

/-! ## Operations -/

namespace Resource

/-- The resource with another schema. -/
def declaring (r : Resource) (t : ConditionTypes) : Resource := { r with conditionTypes := t }

@[simp] theorem conditions_declaring (r : Resource) (t : ConditionTypes) :
    (r.declaring t).conditions = r.conditions := rfl

@[simp] theorem conditionTypes_declaring (r : Resource) (t : ConditionTypes) :
    (r.declaring t).conditionTypes = t := rfl

@[simp] theorem get?_declaring (r : Resource) (t : ConditionTypes) (type : String) :
    (r.declaring t).get? type = r.get? type := rfl

/-- Binding adds an entry for each type that has none, and leaves all others. -/
theorem ofType_addMissing (now : Instant) (generation : Int64) (type : String)
    (types : List String) : ∀ cs : List Condition,
    ofType type (addMissing now generation types cs) =
      if ofType type cs = [] ∧ type ∈ types then [awaiting now generation type]
      else ofType type cs := by
  have hsome : ∀ (t : String) (cs : List Condition),
      (Condition.find? t cs).isSome = true ↔ ofType t cs ≠ [] := by
    intro t cs
    rw [Condition.find?_eq_head?, List.isSome_head?]
  induction types with
  | nil => intro cs; simp [addMissing]
  | cons t types ih =>
    intro cs
    unfold addMissing
    by_cases ht : type = t
    · subst ht
      split
      · rename_i hthere
        have hthere := (hsome type cs).mp hthere
        rw [ih, if_neg fun h => hthere h.1, if_neg fun h => hthere h.1]
      · rename_i hmissing
        have hmissing : ofType type cs = [] := not_not.mp (mt (hsome type cs).mpr hmissing)
        rw [ih, Condition.ofType_append, hmissing, Condition.ofType_singleton, type_awaiting]
        simp
    · -- an entry of another type does not matter
      split
      · simp only [ih, List.mem_cons, ht, false_or]
      · rw [ih, Condition.ofType_append, Condition.ofType_singleton, type_awaiting,
          if_neg (Ne.symm ht), List.append_nil]
        simp only [List.mem_cons, ht, false_or]

/-- With a clock that stands still, every dependent is looked at in the same way. -/
theorem unhealthy_still (now : Instant) (r : Resource) : r.unhealthy now =
    (r.conditionTypes.dependents.map (r.seen now)).filter fun c => !c.isTrue := by
  refine congrArg _ (List.ext_getElem (by simp) fun i _ _ => ?_)
  simp [seen, Readings.missingAt, Readings.still]

/-- No reading for a missing dependent shows when the root is derived: the clock stands still
while they are looked for, or none is missing. -/
def Undated (clock : Readings) (r : Resource) : Prop :=
  clock.Steady ∨ ∀ d ∈ r.conditionTypes.dependents, (r.get? d).isSome

/-- Then the root could as well be derived all at once. -/
theorem Undated.derivedRoot {clock : Readings} {r : Resource} (h : r.Undated clock) :
    r.derivedRoot clock = r.derivedRoot clock.root := by
  have hbad : r.unhealthy clock = r.unhealthy clock.root := by
    refine unhealthy_congr fun i hi hmissing => ?_
    rcases h with hsteady | hall
    · rw [hsteady.missingAt, (Readings.steady_still clock.root).missingAt]
      rfl
    · have hsome := hall _ (List.getElem_mem hi)
      rw [hmissing] at hsome
      cases hsome
  unfold Resource.derivedRoot
  rw [hbad]
  rfl

section Reordered

variable {r : Resource} {t : ConditionTypes} (h : r.conditionTypes.Reordered t)

include h

theorem bind_declaring (now : Instant) : (r.declaring t).bind now = (r.bind now).declaring t := by
  have hcomplete : (∀ d ∈ t.all, (r.get? d).isSome) ↔
      ∀ d ∈ r.conditionTypes.all, (r.get? d).isSome :=
    forall_congr' fun d => by rw [h.all.mem_iff]
  have hadded : Condition.sortByType
        (addMissing now r.metadata.generation t.all r.conditions) =
      Condition.sortByType
        (addMissing now r.metadata.generation r.conditionTypes.all r.conditions) :=
    Condition.sortByType_congr fun type => by
      simp only [ofType_addMissing, h.all.mem_iff]
  rw [bind_eq, bind_eq, apply_ite (declaring · t)]
  exact if_congr hcomplete rfl (congrArg (fun cs => (r.setConditions cs).declaring t) hadded)

/-- The unhealthy dependents are found in another order. -/
theorem perm_unhealthy (now : Instant) :
    (r.unhealthy now).Perm ((r.declaring t).unhealthy now) := by
  rw [unhealthy_still, unhealthy_still]
  exact (h.dependents.map _).filter _

/-- The report sorts them, and no two of them are of one type. -/
theorem healthReport_declaring (now : Instant) :
    healthReport ((r.declaring t).unhealthy now) = healthReport (r.unhealthy now) := by
  have hseen : ∀ c ∈ (r.unhealthy now).mergeSort laterFirst, c = r.seen now c.type := by
    intro c hc
    rw [List.mem_mergeSort, unhealthy_still] at hc
    obtain ⟨d, -, rfl⟩ := List.mem_map.mp (List.mem_filter.mp hc).1
    exact congrArg (r.seen now) (r.type_seen now d).symm
  have hsort : ((r.declaring t).unhealthy now).mergeSort laterFirst =
      (r.unhealthy now).mergeSort laterFirst := by
    have hperm : ((r.unhealthy now).mergeSort laterFirst).Perm
        (((r.declaring t).unhealthy now).mergeSort laterFirst) :=
      ((List.mergeSort_perm _ _).trans (perm_unhealthy h now)).trans
        (List.mergeSort_perm _ _).symm
    refine (hperm.eq_of_pairwise (fun a b ha hb hab hba => ?_)
      (List.pairwise_mergeSort laterFirst_trans laterFirst_total _)
      (List.pairwise_mergeSort laterFirst_trans laterFirst_total _)).symm
    have htype : a.type = b.type := by
      rcases laterFirst_iff.mp hab with hlt | ⟨heq, hle⟩ <;>
        rcases laterFirst_iff.mp hba with hlt' | ⟨heq', hle'⟩
      · omega
      · omega
      · omega
      · exact String.le_antisymm hle hle'
    rw [hseen a ha, hseen b (hperm.mem_iff.mpr hb), htype]
  rw [healthReport, healthReport, hsort]

/-- With a clock that stands still, the root is derived alike. -/
theorem derivedRoot_declaring_still (now : Instant) :
    (r.declaring t).derivedRoot now = r.derivedRoot now := by
  have hperm := perm_unhealthy h now
  have hempty : (r.declaring t).unhealthy now = [] ↔ r.unhealthy now = [] :=
    ⟨fun heq => (heq ▸ hperm).eq_nil, fun heq => (heq ▸ hperm.symm).eq_nil⟩
  have hfalse : ((r.declaring t).unhealthy now).any Condition.isFalse =
      (r.unhealthy now).any Condition.isFalse := by
    rw [Bool.eq_iff_iff, List.any_eq_true, List.any_eq_true]
    simp only [hperm.mem_iff]
  unfold derivedRoot
  simp only [conditionTypes_declaring, ← h.root, hempty, hfalse, healthReport_declaring h]

theorem Undated.declaring {clock : Readings} (hclock : r.Undated clock) :
    (r.declaring t).Undated clock :=
  hclock.imp_right fun hall d hd => hall d (h.dependents.mem_iff.mpr hd)

theorem derivedRoot_declaring {clock : Readings} (hclock : r.Undated clock) :
    (r.declaring t).derivedRoot clock = r.derivedRoot clock := by
  rw [hclock.derivedRoot, (hclock.declaring h).derivedRoot, derivedRoot_declaring_still h]

omit h in
theorem write?_declaring (now : Instant) (c : Condition) :
    write? now (r.declaring t) c = (write? now r c).map (·.declaring t) := by
  rw [write?_eq, write?_eq, get?_declaring]
  split <;> rfl

theorem recomputeRoot_declaring {clock : Readings} (hclock : r.Undated clock) :
    (r.declaring t).recomputeRoot clock = (r.recomputeRoot clock).declaring t := by
  unfold recomputeRoot
  rw [derivedRoot_declaring h hclock, write?_declaring]
  cases write? clock.root r (r.derivedRoot clock) <;> rfl

theorem put_declaring {clock : Readings} {c : Condition}
    (hclock : (r.store (stamped clock.now r c)).Undated clock) :
    (r.declaring t).put clock c = (r.put clock c).declaring t := by
  have hstored : (r.store (stamped clock.now r c)).conditionTypes.Reordered t := h
  unfold put
  rw [conditionTypes_declaring, ← h.root]
  split
  · rfl
  · exact recomputeRoot_declaring hstored hclock

theorem set_declaring {clock : Readings} {c : Condition}
    (hclock : (r.store (stamped clock.now r c)).Undated clock) :
    (r.declaring t).set clock c = ((r.set clock c).1.declaring t, (r.set clock c).2) := by
  rcases set_cases clock r c with ⟨old, hold, hsame, heq⟩ | ⟨hnew, heq⟩ <;>
    rcases set_cases clock (r.declaring t) c with ⟨old', hold', hsame', heq'⟩ | ⟨hnew', heq'⟩
  · rw [heq, heq']
  · exact absurd hsame (by simp [hnew' old hold])
  · exact absurd hsame' (by simp [hnew old' hold'])
  · rw [heq, heq', put_declaring h hclock]

theorem clear_declaring (type : String) :
    (r.declaring t).clear type =
      (r.clear type).map fun answer => (answer.1.declaring t, answer.2) := by
  unfold clear
  rw [conditionTypes_declaring, h.contains]
  split
  · rfl
  · simp only [conditions_declaring, apply_ite (Except.map _)]
    rfl

end Reordered

end Resource

namespace ConditionSet

/-! ## Runs -/

theorem perform_declaring {r : Resource} {t : ConditionTypes} (h : r.conditionTypes.Reordered t)
    {s : Request} (hclock : ∀ c, s.operation = .set c → s.Steady ∨ (r.Complete ∧ r.lost = [])) :
    s.perform (r.declaring t) = ((s.perform r).1.declaring t, (s.perform r).2) := by
  have hr : (atGeneration r s.generation).conditionTypes.Reordered t := h
  have hcommute : atGeneration (r.declaring t) s.generation =
      (atGeneration r s.generation).declaring t := rfl
  rw [perform_eq, perform_eq, hcommute]
  cases hop : s.operation with
  | bind => exact congrArg (·, Answer.done) (Resource.bind_declaring hr s.now)
  | set c =>
    -- what is stored hides no dependent that was there
    have hundated : ((atGeneration r s.generation).store
        (Resource.stamped s.now (atGeneration r s.generation) c)).Undated s.toReadings := by
      refine (hclock c hop).imp_right fun ⟨hcomplete, hlost⟩ d hd => ?_
      have hstored : ((atGeneration r s.generation).store
          (Resource.stamped s.now (atGeneration r s.generation) c)).Complete :=
        Resource.Complete.store (r := atGeneration r s.generation) hcomplete _
      refine hstored d (ConditionTypes.mem_all.mpr (Or.inl hd)) ?_
      show d ∉ r.lost
      simp [hlost]
    unfold Operation.perform
    simp only [Resource.set_declaring hr hundated]
  | clear type =>
    unfold Operation.perform
    simp only [Resource.clear_declaring hr]
    cases (atGeneration r s.generation).clear type <;> rfl

theorem run_declaring {t : ConditionTypes} (steps : List Request) : ∀ {r : Resource},
    r.conditionTypes.Reordered t → (∀ s ∈ steps, s.Steady) ∨ (r.Complete ∧ r.lost = []) →
      run (r.declaring t) steps = ((run r steps).1.declaring t, (run r steps).2) := by
  induction steps with
  | nil => exact fun _ _ => rfl
  | cons s steps ih =>
    intro r h hclock
    have hframe := frame_perform r s
    have hstep : (s.perform r).1.conditionTypes.Reordered t := by
      rw [hframe.1]
      exact h
    -- a step takes nothing of the schema away
    have hrest : (∀ s ∈ steps, s.Steady) ∨
        ((s.perform r).1.Complete ∧ (s.perform r).1.lost = []) := by
      refine hclock.imp (fun hsteady s' hs' => hsteady s' (List.mem_cons_of_mem s hs')) ?_
      exact fun ⟨hcomplete, hlost⟩ => ⟨complete_perform hcomplete s, hframe.2.trans hlost⟩
    have hperform := perform_declaring h fun _ _ =>
      hclock.imp_left fun hsteady => hsteady s List.mem_cons_self
    rw [run_cons, run_cons, hperform]
    simp only [ih hstep hrest]

/-- The readings for missing dependents do not show in a run: nothing is missing, since the schema
is bound first and what is written is kept, or they are all one in each step. Condition sets are
only made by binding, so the former is any run of a resource that keeps what is written. -/
def Undated (r : Resource) (steps : List Request) : Prop :=
  (r.lost = [] ∧ ∀ s ∈ steps.head?, s.operation = .bind) ∨ ∀ s ∈ steps, s.Steady

theorem Undated.of_prefix {r : Resource} {front steps : List Request} (h : Undated r steps)
    (hfront : front <+: steps) : Undated r front := by
  obtain ⟨back, rfl⟩ := hfront
  refine h.imp (fun ⟨hlost, hhead⟩ => ⟨hlost, fun s hs => hhead s ?_⟩)
    fun hsteady s hs => hsteady s (List.mem_append_left back hs)
  rw [List.head?_append, Option.mem_def.mp hs]
  rfl

theorem Undated.run_declaring {r : Resource} {t : ConditionTypes} {steps : List Request}
    (hclock : Undated r steps) (h : r.conditionTypes.Reordered t) :
    run (r.declaring t) steps = ((run r steps).1.declaring t, (run r steps).2) := by
  rcases hclock with ⟨hlost, hhead⟩ | hsteady
  · cases steps with
    | nil => rfl
    | cons first steps =>
      have hbind : first.operation = .bind := hhead first rfl
      have hframe := frame_perform r first
      have hfirst := perform_declaring h fun c hset => by
        rw [hbind] at hset
        cases hset
      -- from here on the schema is there
      have hbound : (first.perform r).1.Complete := by
        rw [perform_of_bind hbind]
        exact Resource.complete_bind first.now (atGeneration r first.generation)
      have hrest := ConditionSet.run_declaring steps (r := (first.perform r).1) (t := t)
        (by rw [hframe.1]; exact h) (Or.inr ⟨hbound, hframe.2.trans hlost⟩)
      rw [run_cons, run_cons, hfirst]
      simp only [hrest]
  · exact ConditionSet.run_declaring steps h (Or.inl hsteady)

/-- Two resources cannot be told apart by what is done to them: every operation gives the same
answer and leaves the same list, in which the same root is found, and the same types are declared
throughout. -/
structure Indistinguishable (r u : Resource) (steps : List Request) : Prop where
  answers : (run u steps).2 = (run r steps).2
  conditions : ∀ front, front <+: steps → (run u front).1.conditions = (run r front).1.conditions
  root : ∀ front, front <+: steps → (run u front).1.root? = (run r front).1.root?
  dependent : ∀ type, u.conditionTypes.isDependent type = r.conditionTypes.isDependent type
  declared : ∀ type, u.conditionTypes.contains type = r.conditionTypes.contains type

/-- Neither the order in which dependents are declared matters, nor repetitions, nor whether the
root is among them: two lists with the same types besides the root make schemas under which
whatever is done to a resource ends the same, whatever conditions it has. -/
theorem declaration_order_irrelevant (r : Resource) (root : String) {ds ds' : List String}
    (h : ∀ d, d ≠ root → (d ∈ ds ↔ d ∈ ds')) {steps : List Request} (hclock : Undated r steps) :
    Indistinguishable (r.declaring (.of root ds)) (r.declaring (.of root ds')) steps := by
  have hreordered : (r.declaring (.of root ds)).conditionTypes.Reordered (.of root ds') :=
    ConditionTypes.reordered_of h
  have hrun : ∀ front, front <+: steps → run (r.declaring (.of root ds')) front =
      ((run (r.declaring (.of root ds)) front).1.declaring (.of root ds'),
        (run (r.declaring (.of root ds)) front).2) := by
    intro front hfront
    have hundated : Undated (r.declaring (.of root ds)) front := hclock.of_prefix hfront
    exact hundated.run_declaring hreordered
  refine { answers := ?_, conditions := fun front hfront => ?_, root := fun front hfront => ?_,
           dependent := hreordered.isDependent, declared := hreordered.contains }
  · rw [hrun steps (List.prefix_refl steps)]
  · rw [hrun front hfront]
    rfl
  · have htypes := (frame_run front (r.declaring (.of root ds))).1
    rw [hrun front hfront, Resource.root?, Resource.root?, htypes]
    rfl

/-- Two spellings of the same dependents on a list with repetitions, and a clock that moves. -/
theorem declaration_order_irrelevant_jumbled :
    (∀ d, d ≠ "Ready" → (d ∈ ["B", "Ready", "A", "B"] ↔ d ∈ ["A", "B"])) ∧
    Undated jumbled [⟨ticking, 1, .bind⟩, ⟨ticking, 1, .set (.of .epoch "A" .true)⟩,
      ⟨ticking, 2, .clear "Z"⟩] ∧
    Indistinguishable (jumbled.declaring (.of "Ready" ["B", "Ready", "A", "B"]))
      (jumbled.declaring (.of "Ready" ["A", "B"]))
      [⟨ticking, 1, .bind⟩, ⟨ticking, 1, .set (.of .epoch "A" .true)⟩,
        ⟨ticking, 2, .clear "Z"⟩] := by
  have hsame : ∀ d, d ≠ "Ready" → (d ∈ ["B", "Ready", "A", "B"] ↔ d ∈ ["A", "B"]) := by
    intro d hd
    simp only [List.mem_cons, List.not_mem_nil, or_false, hd, false_or]
    tauto
  have hclock : Undated jumbled [⟨ticking, 1, .bind⟩, ⟨ticking, 1, .set (.of .epoch "A" .true)⟩,
      ⟨ticking, 2, .clear "Z"⟩] := by
    refine Or.inl ⟨rfl, fun s hs => ?_⟩
    cases hs
    rfl
  exact ⟨hsame, hclock, declaration_order_irrelevant jumbled "Ready" hsame hclock⟩

end ConditionSet

end StatusWatch
