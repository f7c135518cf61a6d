import StatusWatch.Proofs.Keys
import StatusWatch.Proofs.Presence
import StatusWatch.Proofs.RootDerivation

/-!
# Times that observations show

A reconcile binds a copy of what it fetched and never writes it back. Conditions that the
resource itself has keep the time of their last transition, but conditions that binding
creates are created anew, as of now, by every observation. So two observations of a
resource that was not modified show the same times exactly if nothing had to be created.

- `Resource.restamped`: a condition as another observation shows it.
- `conditions_bind`: binding at another time.
- `conditions_bind_eq_iff`: when the time of binding makes no difference.
- `ObservedTwice`, `observed_twice`: what two observations of one resource remember, and
  from when they measure ages.
-/

namespace StatusWatch

open Metrics (Registry)

/-! ## Binding at two times -/

namespace Condition

theorem find?_map {f : Condition → Condition} (hf : ∀ c, (f c).type = c.type) (type : String)
    (cs : List Condition) : find? type (cs.map f) = (find? type cs).map f := by
  unfold find?
  rw [List.find?_map]
  simp only [Function.comp_def, hf]

theorem sortByType_map {f : Condition → Condition} (hf : ∀ c, (f c).type = c.type)
    (cs : List Condition) : sortByType (cs.map f) = (sortByType cs).map f := by
  unfold sortByType
  refine (List.map_mergeSort fun a _ b _ => ?_).symm
  simp only [typeNotAfter, hf]

end Condition

namespace Resource

/-- A condition as an observation at another time shows it: what the resource has is as it
was, and what binding creates is as of then. -/
def restamped (now : Instant) (r : Resource) (c : Condition) : Condition :=
  if (r.get? c.type).isSome then c else { c with lastTransition := now }

@[simp] theorem type_restamped (now : Instant) (r : Resource) (c : Condition) :
    (r.restamped now c).type = c.type := by
  unfold restamped
  split <;> rfl

theorem restamped_of_get? (now : Instant) {r : Resource} {c : Condition}
    (h : (r.get? c.type).isSome) : r.restamped now c = c := if_pos h

theorem restamped_awaiting {now now' : Instant} {r : Resource} {type : String}
    (h : r.get? type = none) (generation : Int64) :
    r.restamped now' (awaiting now generation type) = awaiting now' generation type := by
  unfold restamped
  rw [type_awaiting, h]
  rfl

/-- What the resource has is not restamped. -/
theorem map_restamped_self (now : Instant) (r : Resource) :
    r.conditions.map (r.restamped now) = r.conditions := by
  refine (List.map_congr_left fun c hc => restamped_of_get? now ?_).trans (List.map_id _)
  exact List.find?_isSome.mpr ⟨c, hc, by simp⟩

/-- What is missing is created as of the time of binding. -/
theorem addMissing_restamped (now now' : Instant) (r : Resource) (generation : Int64)
    (types : List String) : ∀ cs : List Condition,
    (∀ t, (r.get? t).isSome → (Condition.find? t cs).isSome) →
    addMissing now' generation types (cs.map (r.restamped now')) =
      (addMissing now generation types cs).map (r.restamped now') := by
  induction types with
  | nil => exact fun _ _ => rfl
  | cons t types ih =>
    intro cs hcs
    unfold addMissing
    rw [Condition.find?_map (type_restamped now' r), Option.isSome_map]
    split
    · exact ih cs hcs
    · rename_i hnone
      -- a type that is added now was not stored either, so it has the time of its creation
      have habsent : r.get? t = none :=
        Option.not_isSome_iff_eq_none.mp fun hsome => hnone (hcs t hsome)
      have happend : (cs ++ [awaiting now generation t]).map (r.restamped now') =
          cs.map (r.restamped now') ++ [awaiting now' generation t] := by
        rw [List.map_append, List.map_singleton, restamped_awaiting habsent]
      rw [← happend]
      refine ih _ fun t' ht' => ?_
      rw [Condition.find?_append, Option.isSome_or, hcs t' ht', Bool.true_or]

/-- Binding at another time gives the same conditions, but what it creates is as of then. -/
theorem conditions_bind (now now' : Instant) (r : Resource) :
    (r.bind now').conditions = (r.bind now).conditions.map (r.restamped now') := by
  rw [bind_eq now', bind_eq now]
  split
  · exact (map_restamped_self now' r).symm
  · have hmissing := addMissing_restamped now now' r r.metadata.generation r.conditionTypes.all
      r.conditions fun _ h => h
    rw [map_restamped_self] at hmissing
    show (Condition.sortByType _).filter _ = ((Condition.sortByType _).filter _).map _
    rw [hmissing, Condition.sortByType_map (type_restamped now' r), List.filter_map]
    simp only [Function.comp_def, type_restamped]

/-- With a complete list, binding creates nothing that stays. -/
theorem Complete.get?_of_mem_bind {r : Resource} (h : r.Complete) {now : Instant} {c : Condition}
    (hc : c ∈ (r.bind now).conditions) : (r.get? c.type).isSome := by
  have hbound : ((r.bind now).get? c.type).isSome := List.find?_isSome.mpr ⟨c, hc, by simp⟩
  by_cases hlost : c.type ∈ r.lost
  · rw [bind_eq] at hbound
    split at hbound
    · exact hbound
    · rw [get?_setConditions, if_pos hlost] at hbound
      cases hbound
  · by_cases hall : c.type ∈ r.conditionTypes.all
    · exact h c.type hall hlost
    · rwa [get?_bind now r hlost, if_neg hall, Option.or_none] at hbound

/-- The time of binding makes no difference exactly if the list is complete. -/
theorem conditions_bind_eq_iff (now now' : Instant) (r : Resource) :
    (r.bind now').conditions = (r.bind now).conditions ↔ now' = now ∨ r.Complete := by
  constructor
  · intro hsame
    refine or_iff_not_imp_right.mpr fun hnot => ?_
    unfold Complete at hnot
    push Not at hnot
    obtain ⟨d, hd, hkept, habsent⟩ := hnot
    -- a type that is missing is created by both, as of the two times
    have hcreated : ∀ t, (r.bind t).get? d = some (awaiting t r.metadata.generation d) := by
      intro t
      rw [get?_bind t r hkept, if_pos hd, Option.not_isSome_iff_eq_none.mp habsent,
        Option.none_or]
    have hget : (r.bind now').get? d = (r.bind now).get? d := by
      unfold get?
      rw [hsame]
    rw [hcreated, hcreated] at hget
    exact congrArg Condition.lastTransition (Option.some.inj hget)
  · rintro (rfl | hcomplete)
    · rfl
    · rw [conditions_bind now now']
      refine (List.map_congr_left fun c hc => ?_).trans (List.map_id _)
      exact restamped_of_get? now' (hcomplete.get?_of_mem_bind hc)

end Resource

/-! ## Two observations -/

namespace Watch

/-- What two observations of one resource remember, and from when they measure ages: the second
one is made in the state `w₁`, with the snapshot that the first one left, and leads to `w₂`. -/
structure ObservedTwice (key : ResourceKey) (resource : Resource) (first second : Step)
    (w₁ w₂ : Watch) (p₁ p₂ : Snapshot) : Prop where
  left : w₁.observer.snapshots.get? key = some p₁
  leaves : w₂.observer.snapshots.get? key = some p₂
  /-- What the second one remembers differs in times at most, and only in those of conditions
  that binding created. -/
  restamped : p₂.conditions = p₁.conditions.map (resource.restamped second.now)
  /-- The times are the same exactly if nothing had to be created, unless no time passed. -/
  kept_iff : p₂.conditions = p₁.conditions ↔ second.now = first.now ∨ resource.Complete
  /-- The age that is written for a condition is the time since the transition that is
  remembered. -/
  written : (second.round w₁.observer .age).writes = p₂.conditions.map fun c =>
    (w₁.observer.metrics.labelSet (some key) p₂.labels (Metrics.ConditionMetrics.stateOf c),
      secondsBetween second.now c.lastTransition)
  /-- And that is what is shown of it. -/
  shown : w₂.PresenceExact → ∀ surface ∈ w₂.observer.metrics.presenceSurfaces,
    ∀ c ∈ p₂.conditions, (surface.2 key p₂.labels c, secondsBetween second.now c.lastTransition) ∈
      w₂.registry.gaugeSeries surface.1.currentStatusSeconds

/-- An exact gauge of ages shows those of a snapshot. -/
theorem PresenceExact.age_mem {w : Watch} (h : w.PresenceExact)
    {surface : Metrics.ConditionFamilies × Metrics.ConditionMetrics.PresenceLabels}
    (hs : surface ∈ w.observer.metrics.presenceSurfaces) {key : ResourceKey} {p : Snapshot}
    (hp : w.observer.snapshots.get? key = some p) {c : Condition} (hc : c ∈ p.conditions) :
    (surface.2 key p.labels c, secondsBetween p.observedAt c.lastTransition) ∈
      w.registry.gaugeSeries surface.1.currentStatusSeconds := by
  refine (h surface hs .age).mem_iff.mpr (List.mem_flatMap.mpr ⟨(key, p), ?_, ?_⟩)
  · exact (OrderedMap.mem_entries_iff _ key p).mpr hp
  · exact List.mem_map_of_mem hc

/-- Two consecutive observations of a resource that was not modified: whatever other keys do in
between, the same times are remembered exactly if nothing had to be created. -/
theorem observed_twice (w : Watch) {key : ResourceKey} {resource : Resource} {first second : Step}
    {between : List Step} (h : Repeated key resource first between second) :
    ∃ p₁ p₂, ObservedTwice key resource first second (w.run ([first] ++ between)).1
      (w.run ([first] ++ between ++ [second])).1 p₁ p₂ := by
  have hfirst := h.get?_before_second w []
  have hsecond := get?_run_concat_of_seen h.second w ([first] ++ between)
  rw [List.nil_append] at hfirst
  obtain ⟨hkey, hfetched⟩ := key_of_sees h.second
  refine ⟨_, _, hfirst, hsecond, ?_, ?_, ?_, ?_⟩
  · exact Resource.conditions_bind first.now second.now resource
  · exact Resource.conditions_bind_eq_iff first.now second.now resource
  · unfold Step.round
    rw [hfetched, hkey]
    rfl
  · exact fun hexact surface hs c hc => hexact.age_mem hs hsecond hc

/-- Half a minute later. -/
def halfMinute : Instant := (Instant.of? Date.epoch 0 30 0).getD .epoch

/-- A resource that has its root and lacks a dependent. -/
def incomplete : Resource :=
  Resource.ofObject
    { metadata := .of .epoch "" "n"
      groupKind := ⟨"apps", "Deployment"⟩
      conditionTypes := .of "Ready" ["Synced"]
      conditions := [.of .epoch "Ready" .true] }

/-- An observation of it. -/
def sighting (now : Instant) : Step := ⟨now, ⟨"", "n"⟩, .ok (some incomplete)⟩

/-- A resource that lacks a condition is observed twice, with a failed fetch in between. -/
theorem observed_twice_incomplete :
    Repeated ⟨"", "n"⟩ incomplete (sighting .epoch) [⟨.epoch, ⟨"", "n"⟩, .error .cancelled⟩]
        (sighting halfMinute) ∧
      ∃ p₁ p₂, ObservedTwice ⟨"", "n"⟩ incomplete (sighting .epoch) (sighting halfMinute)
        ((launched default).run ([sighting .epoch] ++ [⟨.epoch, ⟨"", "n"⟩, .error .cancelled⟩])).1
        ((launched default).run ([sighting .epoch] ++ [⟨.epoch, ⟨"", "n"⟩, .error .cancelled⟩] ++
          [sighting halfMinute])).1 p₁ p₂ := by
  have hrepeated : Repeated ⟨"", "n"⟩ incomplete (sighting .epoch)
      [⟨.epoch, ⟨"", "n"⟩, .error .cancelled⟩] (sighting halfMinute) :=
    ⟨rfl, fun s hs => by obtain rfl := List.mem_singleton.mp hs; rfl, rfl⟩
  exact ⟨hrepeated, observed_twice (launched default) hrepeated⟩

/-- The conditions that are remembered of a resource. -/
def conditionsOf (w : Watch) (key : ResourceKey) : Option (List Condition) :=
  (w.observer.snapshots.get? key).map (·.conditions)

theorem conditionsOf_run_concat (w : Watch) (steps : List Step) {key : ResourceKey} {s : Step}
    {resource : Resource} (h : s.sees key = some (some resource)) :
    (w.run (steps ++ [s])).1.conditionsOf key = some (resource.bind s.now).conditions := by
  rw [conditionsOf, get?_run_concat_of_seen h]
  rfl

theorem not_complete_incomplete : ¬ incomplete.Complete := fun hcomplete =>
  absurd (hcomplete "Synced" (by decide) (by decide)) (by decide)

/-- The condition that it lacks is observed with another time of transition each time. -/
theorem not_kept_incomplete : ∃ r o,
    Observer.create (Registry.new "operator") ⟨"apps", "Deployment"⟩ default = (r, .ok o) ∧
      Repeated ⟨"", "n"⟩ incomplete (sighting .epoch) [] (sighting halfMinute) ∧
      ((⟨o, r⟩ : Watch).run [sighting .epoch, sighting halfMinute]).1.conditionsOf ⟨"", "n"⟩ ≠
        ((⟨o, r⟩ : Watch).run [sighting .epoch]).1.conditionsOf ⟨"", "n"⟩ := by
  obtain ⟨r, o, h⟩ := create_default
  refine ⟨r, o, h, ⟨rfl, fun s hs => (nomatch hs), rfl⟩, fun hsame => ?_⟩
  have hseen : ∀ now, (sighting now).sees ⟨"", "n"⟩ = some (some incomplete) := fun _ => rfl
  have hfirst := conditionsOf_run_concat ⟨o, r⟩ [] (hseen .epoch)
  have hsecond := conditionsOf_run_concat ⟨o, r⟩ [sighting .epoch] (hseen halfMinute)
  have hbound := Option.some.inj (hsecond.symm.trans (hsame.trans hfirst))
  rcases (Resource.conditions_bind_eq_iff _ _ incomplete).mp hbound with htime | hcomplete
  · exact absurd htime (by decide)
  · exact not_complete_incomplete hcomplete

end Watch

end StatusWatch
