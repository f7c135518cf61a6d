import StatusWatch.Proofs.CommutingSets
import StatusWatch.Proofs.DecodedSchemas

/-!
# Conditions outside the schema

Conditions of types that the schema does not declare come and go as callers like, and they do not
influence health. Every set of such a condition derives the root anew, and the first one may even
change what the root says. But the root has the status that its dependents determine from the
bind on, so its status and its time stay, and once a dependent has changed, so does all it says.

- `Request.adHoc`: a step about a type outside the schema.
- `Followed`, `Kept`: the root has the status that its dependents determine.
- `Agree`: two resources have the same dependents, and their roots the same status and time.
- `agree_adHoc`, `agree_perform`: what ad hoc steps leave alone and what other steps keep.
- `agree_run`: a run agrees with the same run without its ad hoc steps.
- `Unaffected`, `ad_hoc_unaffecting`: any two runs that differ in ad hoc steps only.
-/

namespace StatusWatch

namespace Resource

/-! ## The status of the root and its time -/

/-- The status of the root, and since when it has it. -/
def since (r : Resource) : Option (ConditionStatus × Instant) :=
  r.root?.map fun c => (c.status, c.lastTransition)

/-- The root has the status that the dependents determine, whenever they are asked. -/
def Followed (r : Resource) : Prop :=
  ∀ clock, r.root?.map (·.status) = some (r.derivedRoot clock).status

/-- With all dependents there, it does not matter for what the root says when it is derived. -/
theorem sameState_derivedRoot {r : Resource} (hcomplete : r.Complete) (hlost : r.lost = [])
    (clock clock' : Readings) :
    (r.derivedRoot clock).sameState (r.derivedRoot clock') = true := by
  have hbad : r.unhealthy clock = r.unhealthy clock' := by
    refine unhealthy_congr fun i hi hmissing => ?_
    have hmem := ConditionTypes.mem_all.mpr (Or.inl (List.getElem_mem hi))
    have hsome := hcomplete _ hmem (by simp [hlost])
    rw [hmissing] at hsome
    cases hsome
  rw [sameState_iff, derivedRoot, derivedRoot, hbad]
  simp only
  split <;> exact ⟨rfl, rfl, rfl, rfl⟩

theorem Followed.congr {r r' : Resource} (h : r.Followed)
    (htypes : r'.conditionTypes = r.conditionTypes)
    (hsame : ∀ d ∈ r.conditionTypes.all, r'.get? d = r.get? d) : r'.Followed := by
  intro clock
  have hroot : r'.root? = r.root? := by
    rw [root?, root?, htypes]
    exact hsame _ (ConditionTypes.mem_all.mpr (Or.inr rfl))
  rw [hroot, derivedRoot_congr htypes fun d hd => hsame d (ConditionTypes.mem_all.mpr (Or.inl hd))]
  exact h clock

section Recomputed

variable {r : Resource} (hlost : r.lost = [])

include hlost

/-- The root keeps its time if it keeps its status. -/
theorem since_recomputeRoot (clock : Readings) {old : Condition} (hold : r.root? = some old) :
    (r.recomputeRoot clock).since = some ((r.derivedRoot clock).status,
      if old.status = (r.derivedRoot clock).status then old.lastTransition else clock.root) := by
  rcases recomputeRoot_cases clock r with ⟨old', hold', hsame, heq⟩ | ⟨-, heq⟩
  · obtain rfl : old = old' := Option.some.inj (hold.symm.trans hold')
    have hstatus := (sameState_iff.mp hsame).1
    rw [heq, since, hold, Option.map_some, hstatus, if_pos rfl]
  · have hget : (r.store (stamped clock.root r (r.derivedRoot clock))).root? =
        some (stamped clock.root r (r.derivedRoot clock)) := by
      rw [root?, conditionTypes_store, get?_store, hlost, if_neg List.not_mem_nil, type_stamped,
        type_derivedRoot, if_pos rfl]
    have hold' : r.get? (r.derivedRoot clock).type = some old := by
      rw [type_derivedRoot]
      exact hold
    rw [heq, since, hget, Option.map_some, stamped, hold']

theorem followed_recomputeRoot (hself : r.conditionTypes.root ∉ r.conditionTypes.dependents)
    (hcomplete : r.Complete) (clock : Readings) : (r.recomputeRoot clock).Followed := by
  obtain ⟨c, hroot, hstatus⟩ := root?_recomputeRoot clock hlost
  intro later
  -- the dependents are read as before, since the root is none of them
  have hderived : (r.recomputeRoot clock).derivedRoot later = r.derivedRoot later := by
    refine derivedRoot_congr (frame_recomputeRoot clock r).1 (fun d hd => ?_) later
    exact get?_recomputeRoot_of_ne clock hlost fun heq => hself (heq ▸ hd)
  rw [hroot, hderived, Option.map_some, hstatus]
  exact congrArg some (sameState_iff.mp (sameState_derivedRoot hcomplete hlost clock later)).1

end Recomputed

end Resource

namespace ConditionSet

/-- A set or a clear of a type outside the schema. -/
def Request.adHoc (t : ConditionTypes) (s : Request) : Bool :=
  match s.operation with
  | .bind => false
  | .set c => !t.contains c.type
  | .clear type => !t.contains type

variable {t : ConditionTypes} {r u u' : Resource} {s : Request}

theorem adHoc_eq_false_of_set {c : Condition} (hset : s.operation = .set c) :
    s.adHoc t = false ↔ c.type ∈ t.all := by
  simp [Request.adHoc, hset, ConditionTypes.contains_iff]

/-- A step that sets the root is about the schema. -/
theorem adHoc_eq_false_of_sets (h : s.sets t.root) : s.adHoc t = false := by
  obtain ⟨c, hset, htype⟩ := h
  exact (adHoc_eq_false_of_set hset).mpr (ConditionTypes.mem_all.mpr (Or.inr htype))

/-! ## Roots that follow their dependents -/

/-- What holds from the bind on, the status of the root included. -/
structure Kept (t : ConditionTypes) (r : Resource) : Prop extends Bound t r where
  followed : r.Followed

theorem Bound.atGeneration (h : Bound t r) (generation : Int64) :
    Bound t (atGeneration r generation) := ⟨h.types, h.lost, h.complete⟩

theorem Bound.store (h : Bound t r) (c : Condition) : Bound t (r.store c) where
  types := h.types
  lost := h.lost
  complete := h.complete.store c

theorem Kept.perform (hself : t.root ∉ t.dependents) (h : Kept t r) (hs : ¬ s.sets t.root) :
    Kept t (s.perform r).1 := by
  refine { h.toBound.perform s with followed := ?_ }
  by_cases hm : Moves r s
  · obtain ⟨c, -, hne, heq⟩ := perform_of_moves hm
    have hbound := (h.toBound.atGeneration s.generation).store
      (Resource.stamped s.now (atGeneration r s.generation) c)
    rw [heq]
    exact Resource.followed_recomputeRoot hbound.lost (by rwa [hbound.types]) hbound.complete
      s.toReadings
  · exact h.followed.congr (frame_perform r s).1 fun d hd =>
      get?_perform_of_not_moves h.toBound (by rwa [h.types]) hm hd

/-- Once the schema is bound, nothing is known of any type, so the root follows. -/
theorem kept_bind {r : Resource} {first : Request} (hfirst : first.operation = .bind)
    (hempty : r.conditions = []) (hlost : r.lost = [])
    (hdependent : ∃ d, d ∈ r.conditionTypes.dependents) :
    Kept r.conditionTypes (first.perform r).1 := by
  have hbound := bound_bind hlost hfirst
  refine { hbound with followed := fun clock => ?_ }
  have hget : ∀ d ∈ r.conditionTypes.all, (first.perform r).1.get? d =
      some (Resource.awaiting first.now first.generation d) := by
    intro d hd
    have hkept : d ∉ (atGeneration r first.generation).lost := by
      show d ∉ r.lost
      simp [hlost]
    have hnone : (atGeneration r first.generation).get? d = none := by
      show Condition.find? d r.conditions = none
      rw [hempty]
      rfl
    rw [perform_of_bind hfirst, Resource.get?_bind _ _ hkept, hnone, Option.none_or]
    exact if_pos hd
  have htrue := Resource.isTrue_derivedRoot clock (first.perform r).1
  have hfalse := Resource.isFalse_derivedRoot clock (first.perform r).1
  rw [hbound.types] at htrue hfalse
  -- a root that were true or false would have a dependent that is so
  have hunknown : ((first.perform r).1.derivedRoot clock).status = .unknown := by
    cases hstatus : ((first.perform r).1.derivedRoot clock).status with
    | true =>
      obtain ⟨d, hd⟩ := hdependent
      have := htrue.mp (by simp [Condition.isTrue, hstatus]) d hd
      rw [hget d (ConditionTypes.mem_all.mpr (Or.inl hd))] at this
      cases this
    | false =>
      obtain ⟨d, hd, hbad⟩ := hfalse.mp (by simp [Condition.isFalse, hstatus])
      rw [hget d (ConditionTypes.mem_all.mpr (Or.inl hd))] at hbad
      cases hbad
    | unknown => rfl
  rw [Resource.root?, hbound.types, hget _ (ConditionTypes.mem_all.mpr (Or.inr rfl)), hunknown]
  rfl

/-! ## Agreement -/

/-- The same dependents, and roots with the same status since the same time. -/
structure Agree (t : ConditionTypes) (r r' : Resource) : Prop where
  dependents : ∀ d ∈ t.dependents, r.get? d = r'.get? d
  since : r.since = r'.since

theorem Agree.refl (t : ConditionTypes) (r : Resource) : Agree t r r := ⟨fun _ _ => rfl, rfl⟩

theorem Agree.symm (h : Agree t r u) : Agree t u r :=
  ⟨fun d hd => (h.dependents d hd).symm, h.since.symm⟩

theorem Agree.trans (h : Agree t r u) (h' : Agree t u u') : Agree t r u' :=
  ⟨fun d hd => (h.dependents d hd).trans (h'.dependents d hd), h.since.trans h'.since⟩

/-- Resources with the same entries for the schema agree. -/
theorem agree_of_get? (htypes : r.conditionTypes = t) (htypes' : u.conditionTypes = t)
    (h : ∀ d ∈ t.all, u.get? d = r.get? d) : Agree t r u where
  dependents d hd := (h d (ConditionTypes.mem_all.mpr (Or.inl hd))).symm
  since := by
    rw [Resource.since, Resource.since, Resource.root?, Resource.root?, htypes, htypes',
      h t.root (ConditionTypes.mem_all.mpr (Or.inr rfl))]

/-- A step that sets nothing leaves it at that. -/
theorem agree_of_quiet (h : Bound t r) (hquiet : changes (s, (s.perform r).2) = false) :
    Agree t r (s.perform r).1 :=
  agree_of_get? h.types (h.perform s).types fun d hd =>
    get?_perform_of_quiet h.complete h.stripped hquiet (by rwa [h.types])

theorem Bound.root? (h : Bound t r) : ∃ c, r.root? = some c := by
  have hsome := h.complete r.conditionTypes.root (ConditionTypes.mem_all.mpr (Or.inr rfl))
    (by simp [h.lost])
  exact Option.isSome_iff_exists.mp hsome

theorem Agree.atGeneration (h : Agree t r u) (generation : Int64) :
    Agree t (atGeneration r generation) (atGeneration u generation) := ⟨h.dependents, h.since⟩

/-- A condition other than the root is stored with the same stamps, as far as the schema goes. -/
theorem Agree.store (h : Agree t r u) (hr : Bound t r) (hu : Bound t u)
    (hgeneration : r.metadata.generation = u.metadata.generation) (now : Instant) {c : Condition}
    (hc : c.type ≠ t.root) :
    Agree t (r.store (Resource.stamped now r c)) (u.store (Resource.stamped now u c)) := by
  refine ⟨fun d hd => ?_, ?_⟩
  · by_cases hsame : d = c.type
    · subst hsame
      rw [Resource.get?_store, Resource.get?_store, hr.lost, hu.lost, Resource.stamped,
        Resource.stamped, hgeneration, h.dependents _ hd]
    · rw [Resource.get?_store_of_ne hr.lost hsame, Resource.get?_store_of_ne hu.lost hsame]
      exact h.dependents d hd
  · have hroot : ∀ {v : Resource}, Bound t v →
        (v.store (Resource.stamped now v c)).since = v.since := fun {v} hv => by
      have hne : v.conditionTypes.root ≠ c.type := by
        rw [hv.types]
        exact hc.symm
      rw [Resource.since, Resource.since, Resource.root?, Resource.root?,
        Resource.conditionTypes_store, Resource.get?_store_of_ne hv.lost hne]
    rw [hroot hr, hroot hu, h.since]

/-- Recomputing the root keeps dependents. -/
theorem get?_recomputeRoot_of_mem (hself : t.root ∉ t.dependents) (h : Bound t r) (clock : Readings)
    {d : String} (hd : d ∈ t.dependents) : (r.recomputeRoot clock).get? d = r.get? d := by
  refine Resource.get?_recomputeRoot_of_ne clock h.lost ?_
  rw [h.types]
  rintro rfl
  exact hself hd

/-- Resources that agree have the same root derived. -/
theorem Agree.derivedRoot (h : Agree t r u) (hr : Bound t r) (hu : Bound t u) (clock : Readings) :
    u.derivedRoot clock = r.derivedRoot clock :=
  Resource.derivedRoot_congr (hu.types.trans hr.types.symm) (fun d hd =>
    (h.dependents d (hr.types ▸ hd)).symm) clock

theorem Agree.recomputeRoot (hself : t.root ∉ t.dependents) (h : Agree t r u) (hr : Bound t r)
    (hu : Bound t u) (clock : Readings) :
    Agree t (r.recomputeRoot clock) (u.recomputeRoot clock) := by
  refine ⟨fun d hd => ?_, ?_⟩
  · rw [get?_recomputeRoot_of_mem hself hr clock hd, get?_recomputeRoot_of_mem hself hu clock hd]
    exact h.dependents d hd
  · obtain ⟨old, hold⟩ := hr.root?
    obtain ⟨old', hold'⟩ := hu.root?
    have hsince := h.since
    rw [Resource.since, Resource.since, hold, hold', Option.map_some, Option.map_some,
      Option.some.injEq, Prod.mk.injEq] at hsince
    rw [Resource.since_recomputeRoot hr.lost clock hold,
      Resource.since_recomputeRoot hu.lost clock hold', h.derivedRoot hr hu, hsince.1, hsince.2]

/-- A root that follows its dependents keeps status and time when it is recomputed. -/
theorem agree_recomputeRoot (hself : t.root ∉ t.dependents) (h : Bound t r) (hf : r.Followed)
    (clock : Readings) : Agree t r (r.recomputeRoot clock) := by
  refine ⟨fun d hd => (get?_recomputeRoot_of_mem hself h clock hd).symm, ?_⟩
  obtain ⟨old, hold⟩ := h.root?
  have hstatus := hf clock
  rw [hold, Option.map_some, Option.some.injEq] at hstatus
  rw [Resource.since_recomputeRoot h.lost clock hold, if_pos hstatus, Resource.since, hold,
    Option.map_some, hstatus]

/-! ## Steps -/

/-- Ad hoc steps do not touch health. -/
theorem agree_adHoc (hself : t.root ∉ t.dependents) (h : Kept t r) (hs : s.adHoc t = true) :
    Agree t r (s.perform r).1 := by
  cases hchange : changes (s, (s.perform r).2) with
  | false => exact agree_of_quiet h.toBound hchange
  | true =>
    have hother : ¬ s.sets r.conditionTypes.root := fun hsets => by
      rw [h.types] at hsets
      exact Bool.false_ne_true ((adHoc_eq_false_of_sets hsets).symm.trans hs)
    obtain ⟨c, hset, -, heq⟩ := perform_of_moves ⟨hchange, hother⟩
    have hforeign : c.type ∉ t.all := fun hmem =>
      Bool.false_ne_true (((adHoc_eq_false_of_set hset).mpr hmem).symm.trans hs)
    have hbound := (h.toBound.atGeneration s.generation).store
      (Resource.stamped s.now (atGeneration r s.generation) c)
    have hstored : ∀ d ∈ t.all, ((atGeneration r s.generation).store
        (Resource.stamped s.now (atGeneration r s.generation) c)).get? d = r.get? d := fun d hd =>
      Resource.get?_store_of_ne (r := atGeneration r s.generation) h.lost fun heq =>
        hforeign (heq ▸ hd)
    have hfollowed := h.followed.congr (hbound.types.trans h.types.symm) (by rwa [h.types])
    rw [heq]
    exact (agree_of_get? h.types hbound.types hstored).trans
      (agree_recomputeRoot hself hbound hfollowed s.toReadings)

/-- Resources that agree give the same answers to steps about the schema. -/
theorem answer_eq (h : Agree t r u) (hr : Bound t r) (hu : Bound t u) (hs : ¬ s.sets t.root)
    (hdeclared : s.adHoc t = false) : (s.perform r).2 = (s.perform u).2 := by
  obtain ⟨clock, generation, op⟩ := s
  cases op with
  | bind => rfl
  | set c =>
    have hmem : c.type ∈ t.all := (adHoc_eq_false_of_set rfl).mp hdeclared
    have hdependent := (ConditionTypes.mem_all.mp hmem).resolve_right fun heq =>
      hs ⟨c, rfl, heq⟩
    exact (perform_setAt_congr hu.lost hr.lost (h.dependents _ hdependent)).1
  | clear type =>
    have hmem : type ∈ t.all := by
      simpa [Request.adHoc, ConditionTypes.contains_iff] using hdeclared
    have hr' := (@clearReports (atGeneration r generation) hr.lost clock type).refused_iff.mpr
      (hr.types ▸ hmem)
    have hu' := (@clearReports (atGeneration u generation) hu.lost clock type).refused_iff.mpr
      (hu.types ▸ hmem)
    exact hr'.trans hu'.symm

/-- Steps about the schema keep resources in agreement. -/
theorem agree_perform (hself : t.root ∉ t.dependents) (h : Agree t r u) (hr : Bound t r)
    (hu : Bound t u) (hs : ¬ s.sets t.root) (hdeclared : s.adHoc t = false) :
    Agree t (s.perform r).1 (s.perform u).1 := by
  have hanswer := answer_eq h hr hu hs hdeclared
  cases hchange : changes (s, (s.perform r).2) with
  | false =>
    have hchange' : changes (s, (s.perform u).2) = false := hanswer ▸ hchange
    exact ((agree_of_quiet hr hchange).symm.trans h).trans (agree_of_quiet hu hchange')
  | true =>
    have hchange' : changes (s, (s.perform u).2) = true := hanswer ▸ hchange
    obtain ⟨c, hset, hne, heq⟩ := perform_of_moves ⟨hchange, by rwa [hr.types]⟩
    obtain ⟨c', hset', -, heq'⟩ := perform_of_moves ⟨hchange', by rwa [hu.types]⟩
    obtain rfl : c = c' := Operation.set.inj (hset.symm.trans hset')
    rw [heq, heq']
    rw [hr.types] at hne
    have hr' := hr.atGeneration s.generation
    have hu' := hu.atGeneration s.generation
    have hstored := (h.atGeneration s.generation).store hr' hu' rfl s.now hne
    exact hstored.recomputeRoot hself (hr'.store _) (hu'.store _) s.toReadings

/-! ## Runs -/

/-- What a run answers to the steps about the schema. -/
def declaredLog (t : ConditionTypes) (r : Resource) (steps : List Request) :
    List (Request × Answer) :=
  (log r steps).filter fun e => !e.1.adHoc t

theorem declaredLog_cons (r : Resource) (s : Request) (steps : List Request) :
    declaredLog t r (s :: steps) =
      if s.adHoc t then declaredLog t (s.perform r).1 steps
      else (s, (s.perform r).2) :: declaredLog t (s.perform r).1 steps := by
  have hlog : log r (s :: steps) = (s, (s.perform r).2) :: log (s.perform r).1 steps := rfl
  rw [declaredLog, hlog, List.filter_cons]
  cases s.adHoc t <;> rfl

/-- A run agrees with the same run without its ad hoc steps. -/
theorem agree_run (hself : t.root ∉ t.dependents) (steps : List Request) : ∀ {r u : Resource},
    Kept t r → Kept t u → Agree t r u → (∀ s ∈ steps, ¬ s.sets t.root) →
      Agree t (run r steps).1 (run u (steps.filter fun s => !s.adHoc t)).1 ∧
        declaredLog t r steps = log u (steps.filter fun s => !s.adHoc t) := by
  induction steps with
  | nil => exact fun _ _ h _ => ⟨h, rfl⟩
  | cons s steps ih =>
    intro r u hr hu h hroot
    have hs := hroot s List.mem_cons_self
    have hsteps : ∀ s' ∈ steps, ¬ s'.sets t.root := fun s' hs' =>
      hroot s' (List.mem_cons_of_mem s hs')
    have hr' := hr.perform hself hs
    rw [declaredLog_cons, List.filter_cons]
    cases hadHoc : s.adHoc t with
    -- an ad hoc step is left out on the other side, and both still agree after it
    | true => exact ih hr' hu ((agree_adHoc hself hr hadHoc).symm.trans h) hsteps
    | false =>
      have hrest := ih hr' (hu.perform hself hs)
        (agree_perform hself h hr.toBound hu.toBound hs hadHoc) hsteps
      refine ⟨hrest.1, ?_⟩
      have hanswer := answer_eq h hr.toBound hu.toBound hs hadHoc
      show (s, (s.perform r).2) :: _ = (s, (s.perform u).2) :: _
      rw [hanswer, hrest.2]
      rfl

/-- If the root is never set, whatever was set and changed something is of another type. -/
theorem dependentsLast_of_mem {root : String} {steps : List Request} {c : Condition}
    (hroot : ∀ s ∈ steps, ¬ s.sets root) (hmem : (s, .changed true) ∈ log r steps)
    (hset : s.operation = .set c) : DependentsLast root (log r steps) := by
  have hother : ∀ e ∈ log r steps, ∀ c', e.1.operation = .set c' → c'.type ≠ root :=
    fun e he c' hset' htype => hroot e.1 (List.of_mem_zip he).1 ⟨c', hset', htype⟩
  obtain ⟨front, back, hsplit⟩ := List.append_of_mem hmem
  refine ⟨front, s, c, back, hsplit, hset, hother _ hmem c hset, fun e he c' hset' _ => ?_⟩
  refine hother e ?_ c' hset'
  rw [hsplit]
  exact List.mem_append_right _ (List.mem_cons_of_mem _ he)

/-- Derived roots say the same if the dependents agree, whenever they were derived. -/
theorem stateOf_eq_of_settled (h : Agree t r u) (hr : Bound t r) (hu : Bound t u)
    {clock clock' : Readings} (hsettled : r.Settled clock) (hsettled' : u.Settled clock') :
    r.stateOf t.root = u.stateOf t.root := by
  have hsame := Resource.sameState_iff.mp
    (Resource.sameState_derivedRoot hu.complete hu.lost clock clock')
  rw [h.derivedRoot hr hu clock] at hsame
  obtain ⟨hstatus, hreason, hmessage, hseverity⟩ := hsame
  have hstate := stateOf_of_settled hsettled
  have hstate' := stateOf_of_settled hsettled'
  rw [hr.types] at hstate
  rw [hu.types] at hstate'
  rw [hstate, hstate', hstatus, hreason, hmessage, hseverity]

/-- Two runs tell the same of health. -/
structure Unaffected (t : ConditionTypes) (r : Resource) (steps steps' : List Request) : Prop where
  dependents : ∀ d ∈ t.dependents, (run r steps).1.get? d = (run r steps').1.get? d
  /-- Steps about the schema get the same answers. -/
  answers : declaredLog t r steps = declaredLog t r steps'
  /-- The root has the same status since the same time. -/
  since : (run r steps).1.since = (run r steps').1.since
  /-- It says the same once a dependent was set and that changed something. -/
  stated : (∃ s c, (s, .changed true) ∈ log r steps ∧ s.operation = .set c ∧
    c.type ∈ t.dependents) → (run r steps).1.stateOf t.root = (run r steps').1.stateOf t.root

/-- Runs that differ in ad hoc steps only, from a resource that is bound. -/
theorem unaffected_of_kept {root : String} {ds : List String}
    (h : Kept (ConditionTypes.of root ds) r) {steps steps' : List Request}
    (hdeclared : steps.filter (fun s => !s.adHoc (ConditionTypes.of root ds)) =
      steps'.filter fun s => !s.adHoc (ConditionTypes.of root ds))
    (hroot : ∀ s ∈ steps, ¬ s.sets root) :
    Unaffected (ConditionTypes.of root ds) r steps steps' := by
  have hself : (ConditionTypes.of root ds).root ∉ (ConditionTypes.of root ds).dependents :=
    fun hmem => (ConditionTypes.mem_dependents_of.mp hmem).2 rfl
  -- a step that sets the root is about the schema, so neither run has one
  have hroot' : ∀ s ∈ steps', ¬ s.sets root := by
    intro s hs hsets
    have hother : s.adHoc (ConditionTypes.of root ds) = false := adHoc_eq_false_of_sets hsets
    have hs' : s ∈ steps'.filter fun s => !s.adHoc (ConditionTypes.of root ds) :=
      List.mem_filter.mpr ⟨hs, by simp [hother]⟩
    rw [← hdeclared] at hs'
    exact hroot s (List.mem_filter.mp hs').1 hsets
  obtain ⟨hagree, hlog⟩ := agree_run hself steps h h (Agree.refl _ r) hroot
  obtain ⟨hagree', hlog'⟩ := agree_run hself steps' h h (Agree.refl _ r) hroot'
  rw [← hdeclared] at hagree' hlog'
  have hboth := hagree.trans hagree'.symm
  have hanswers := hlog.trans hlog'.symm
  refine { dependents := hboth.dependents, answers := hanswers, since := hboth.since,
           stated := ?_ }
  rintro ⟨s, c, hmem, hset, hdependent⟩
  have hlost : root ∉ r.lost := by simp [h.lost]
  have hname : r.conditionTypes.root = root := by rw [h.types]; rfl
  -- the change is in both runs
  have hmem' : (s, Answer.changed true) ∈ log r steps' := by
    have hother : s.adHoc (ConditionTypes.of root ds) = false :=
      (adHoc_eq_false_of_set hset).mpr (ConditionTypes.mem_all.mpr (Or.inl hdependent))
    have hmem : (s, Answer.changed true) ∈ declaredLog (ConditionTypes.of root ds) r steps :=
      List.mem_filter.mpr ⟨hmem, by simp [hother]⟩
    rw [hanswers] at hmem
    exact (List.mem_filter.mp hmem).1
  have hlast := dependentsLast_of_mem hroot hmem hset
  have hlast' := dependentsLast_of_mem hroot' hmem' hset
  rw [← hname] at hlast hlast'
  obtain ⟨clock, -, -, hsettled⟩ := (invariant_run h.types hlost h.complete steps).settled hlast
  obtain ⟨clock', -, -, hsettled'⟩ := (invariant_run h.types hlost h.complete steps').settled hlast'
  exact stateOf_eq_of_settled hboth (h.toBound.run steps) (h.toBound.run steps') hsettled hsettled'

/-- Conditions outside the schema do not influence health. Two runs that begin with the same bind
and do the same with the types of the schema, without setting the root, tell the same of health,
whatever else they set and clear in between. They need not be over: what they have in common may
be the beginning of both. -/
theorem ad_hoc_unaffecting {r : Resource} {root : String} {ds : List String}
    (hschema : r.conditionTypes = ConditionTypes.of root ds) (hdependent : ∃ d ∈ ds, d ≠ root)
    (hempty : r.conditions = []) (hlost : r.lost = []) {first : Request}
    (hfirst : first.operation = .bind) {steps steps' : List Request}
    (hdeclared : steps.filter (fun s => !s.adHoc (ConditionTypes.of root ds)) =
      steps'.filter fun s => !s.adHoc (ConditionTypes.of root ds))
    (hroot : ∀ s ∈ steps, ¬ s.sets root) :
    Unaffected (ConditionTypes.of root ds) r (first :: steps) (first :: steps') := by
  obtain ⟨d, hd, hne⟩ := hdependent
  have hkept := kept_bind hfirst hempty hlost
    ⟨d, by rw [hschema]; exact ConditionTypes.mem_dependents_of.mpr ⟨hd, hne⟩⟩
  rw [hschema] at hkept
  have hrest := unaffected_of_kept hkept hdeclared hroot
  have hbind : first.adHoc (ConditionTypes.of root ds) = false := by
    simp [Request.adHoc, hfirst]
  refine { dependents := hrest.dependents, answers := ?_, since := hrest.since, stated := ?_ }
  · rw [declaredLog_cons, declaredLog_cons, hbind, hrest.answers]
  · rintro ⟨s, c, hmem, hset, hdependent⟩
    refine hrest.stated ⟨s, c, ?_, hset, hdependent⟩
    rcases List.mem_cons.mp hmem with heq | hmem
    · have hs : s = first := congrArg Prod.fst heq
      rw [hs, hfirst] at hset
      cases hset
    · exact hmem

/-- A dependent fails, and then recovers. -/
def outage : List Request :=
  [⟨Instant.epoch, 2, .set (.of .epoch "A" .false)⟩,
    ⟨Instant.epoch, 3, .set (.of .epoch "A" .true)⟩]

/-- The same with a condition outside the schema that is set and cleared. -/
def adorned : List Request :=
  [⟨Instant.epoch, 1, .set (.of .epoch "Z" .false)⟩,
    ⟨Instant.epoch, 2, .set (.of .epoch "A" .false)⟩,
    ⟨Instant.epoch, 2, .clear "Z"⟩, ⟨Instant.epoch, 2, .clear "Z"⟩,
    ⟨Instant.epoch, 3, .set (.of .epoch "A" .true)⟩]

theorem ad_hoc_unaffecting_adorned :
    (∀ s ∈ outage, ¬ s.sets "Ready") ∧
      outage.filter (fun s => !s.adHoc (ConditionTypes.of "Ready" ["A"])) =
        adorned.filter (fun s => !s.adHoc (ConditionTypes.of "Ready" ["A"])) ∧
      Unaffected (ConditionTypes.of "Ready" ["A"]) unobserved (⟨Instant.epoch, 1, .bind⟩ :: outage)
        (⟨Instant.epoch, 1, .bind⟩ :: adorned) := by
  have hroot : ∀ s ∈ outage, ¬ s.sets "Ready" := by
    rintro s hs ⟨c, hset, htype⟩
    rcases List.mem_pair.mp hs with rfl | rfl <;> cases hset <;> exact absurd htype (by decide)
  have hdeclared : outage.filter (fun s => !s.adHoc (ConditionTypes.of "Ready" ["A"])) =
      adorned.filter (fun s => !s.adHoc (ConditionTypes.of "Ready" ["A"])) := by decide
  exact ⟨hroot, hdeclared,
    ad_hoc_unaffecting rfl ⟨"A", by decide⟩ rfl rfl rfl hdeclared hroot⟩

end ConditionSet

end StatusWatch
