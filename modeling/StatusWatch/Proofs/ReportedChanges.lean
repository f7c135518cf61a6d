import StatusWatch.Proofs.SortedLists

/-!
# What is reported as a change

Callers decide by the answer of an operation whether a resource has to be saved. So the answer
has to be exact: a set or a clear says that it changed something if and only if the list is not
what it was. This holds for every list, in any order and with any repetitions, and besides the
root nothing changes that the operation is not about.

- `ofType_store`, `ofType_put`: what becomes of the entries of one type.
- `SetReports`, `ClearReports`: what an answer tells about the lists before and after.
- `changes_reported`: every set and every clear reports exactly what it did.
-/

namespace StatusWatch

/-! ## Entries of one type -/

namespace Condition

theorem ofType_append (type : String) (cs ds : List Condition) :
    ofType type (cs ++ ds) = ofType type cs ++ ofType type ds := List.filter_append ..

theorem ofType_singleton (type : String) (c : Condition) :
    ofType type [c] = if c.type = type then [c] else [] := by
  simp [ofType, List.filter_singleton]

/-- Dropping a type drops its entries and no others. -/
theorem ofType_without (type type' : String) (cs : List Condition) :
    ofType type (cs.filter fun c => c.type ≠ type') =
      if type = type' then [] else ofType type cs := by
  rw [ofType, List.filter_filter]
  split
  · rename_i h
    rw [h]
    simp
  · rename_i h
    refine List.filter_congr fun c _ => ?_
    by_cases hc : c.type = type
    · simp [hc, h]
    · simp [hc]

end Condition

open Condition (Ordered ofType)

namespace Resource

section Stored

variable {r : Resource} (hlost : r.lost = [])

include hlost

/-- Storing a condition replaces the entries of its type by this one. -/
theorem ofType_store (c : Condition) (type : String) :
    ofType type (r.store c).conditions =
      if c.type = type then [c] else ofType type r.conditions := by
  rw [store, conditions_setConditions hlost, replaced, Condition.ofType_sortByType,
    Condition.ofType_append, Condition.ofType_without, Condition.ofType_singleton]
  by_cases h : c.type = type
  · simp [h]
  · simp [h, Ne.symm h]

theorem ordered_store (c : Condition) : Ordered (r.store c).conditions := by
  rw [store, conditions_setConditions hlost]
  exact Condition.ordered_sortByType _

theorem ordered_recomputeRoot (clock : Readings) (h : Ordered r.conditions) :
    Ordered (r.recomputeRoot clock).conditions := by
  rcases recomputeRoot_cases clock r with ⟨-, -, -, heq⟩ | ⟨-, heq⟩
  · rw [heq]
    exact h
  · rw [heq]
    exact ordered_store hlost _

/-- Recomputing the root changes entries of its type only. -/
theorem ofType_recomputeRoot (clock : Readings) {type : String}
    (hne : type ≠ r.conditionTypes.root) :
    ofType type (r.recomputeRoot clock).conditions = ofType type r.conditions := by
  rcases recomputeRoot_cases clock r with ⟨-, -, -, heq⟩ | ⟨-, heq⟩
  · rw [heq]
  · rw [heq, ofType_store hlost, type_stamped, type_derivedRoot, if_neg hne.symm]

theorem ordered_put (clock : Readings) (c : Condition) : Ordered (r.put clock c).conditions := by
  rw [put]
  split
  · exact ordered_store hlost _
  · have hlost' : (r.store (stamped clock.now r c)).lost = [] := hlost
    exact ordered_recomputeRoot hlost' clock (ordered_store hlost _)

/-- What is set is the only entry of its type. -/
theorem ofType_put_self (clock : Readings) (c : Condition) :
    ofType c.type (r.put clock c).conditions = [stamped clock.now r c] := by
  have hstored : ofType c.type (r.store (stamped clock.now r c)).conditions =
      [stamped clock.now r c] := (ofType_store hlost _ _).trans (if_pos rfl)
  rw [put]
  split
  · exact hstored
  · rename_i hroot
    have hlost' : (r.store (stamped clock.now r c)).lost = [] := hlost
    rw [ofType_recomputeRoot hlost' clock hroot, hstored]

/-- Besides the root, other types keep their entries. -/
theorem ofType_put_of_ne (clock : Readings) {c : Condition} {type : String} (hne : type ≠ c.type)
    (hroot : type ≠ r.conditionTypes.root) :
    ofType type (r.put clock c).conditions = ofType type r.conditions := by
  have hstored : ofType type (r.store (stamped clock.now r c)).conditions =
      ofType type r.conditions := (ofType_store hlost _ _).trans (if_neg hne.symm)
  rw [put]
  split
  · exact hstored
  · have hlost' : (r.store (stamped clock.now r c)).lost = [] := hlost
    -- deriving the root anew touches no other type
    rw [ofType_recomputeRoot hlost' clock hroot, hstored]

theorem get?_put_self (clock : Readings) (c : Condition) :
    (r.put clock c).get? c.type = some (stamped clock.now r c) := by
  rw [get?, Condition.find?_eq_head?, ofType_put_self hlost]
  rfl

end Stored

/-- Stamps do not change what a condition says. -/
theorem sameState_stamped (now : Instant) (r : Resource) (c : Condition) :
    (stamped now r c).sameState c = true := sameState_iff.mpr ⟨rfl, rfl, rfl, rfl⟩

end Resource

namespace ConditionSet

open Resource (Complete Wrote)

/-! ## What answers tell -/

/-- What the answer to a set tells about the resource before and after. -/
structure SetReports (c : Condition) (r r' : Resource) (answer : Answer) : Prop where
  /-- A change is reported if there is one. -/
  changed_iff : answer = .changed true ↔ r'.conditions ≠ r.conditions
  unchanged_iff : answer = .changed false ↔ r'.conditions = r.conditions
  /-- There is none if the first entry of the type says the same already. -/
  same_iff : answer = .changed false ↔ ∃ old, r.get? c.type = some old ∧
    old.status = c.status ∧ old.reason = c.reason ∧ old.message = c.message ∧
      old.severity = c.severity
  /-- After a change the type has one entry, which says what was set. -/
  written : answer = .changed true → ∃ d, ofType c.type r'.conditions = [d] ∧
    d.status = c.status ∧ d.reason = c.reason ∧ d.message = c.message ∧ d.severity = c.severity
  ordered : answer = .changed true → Ordered r'.conditions
  /-- Besides the root, other types keep their entries. -/
  others : ∀ type, type ≠ c.type → type ≠ r.conditionTypes.root →
    ofType type r'.conditions = ofType type r.conditions
  /-- Nothing but the list is written. -/
  wrote : Wrote r r'
  /-- Setting the same again changes nothing, at any time and for any generation. -/
  again : ∀ clock generation, (Operation.set c).perform clock (atGeneration r' generation) =
    (atGeneration r' generation, .changed false)

/-- What the answer to a clear tells about the resource before and after. -/
structure ClearReports (type : String) (r r' : Resource) (answer : Answer) : Prop where
  /-- The types of the schema are refused. -/
  refused_iff : answer = .refused type ↔ type ∈ r.conditionTypes.all
  refused : answer = .refused type → r' = r
  /-- Of other types it is told whether they were there. -/
  changed_iff : answer = .changed true ↔ r'.conditions ≠ r.conditions
  unchanged_iff : answer = .changed false ↔
    type ∉ r.conditionTypes.all ∧ r'.conditions = r.conditions
  /-- Their entries are gone, and no others. -/
  cleared : type ∉ r.conditionTypes.all →
    r' = { r with conditions := r.conditions.filter fun c => c.type ≠ type }

section

variable {r : Resource} {clock : Readings}

theorem perform_set_of_same {c old : Condition} (hold : r.get? c.type = some old)
    (hsame : old.sameState c = true) :
    (Operation.set c).perform clock r = (r, .changed false) := by
  rw [Operation.perform]
  rcases Resource.set_cases clock r c with ⟨-, -, -, heq⟩ | ⟨hnew, -⟩
  · rw [heq]
  · rw [hnew old hold] at hsame
    cases hsame

/-- What is set differs from what was there. -/
theorem put_ne {c : Condition} (hlost : r.lost = [])
    (hnew : ∀ old, r.get? c.type = some old → old.sameState c = false) :
    (r.put clock c).conditions ≠ r.conditions := by
  intro hsame
  have hget := Resource.get?_put_self hlost clock c
  rw [Resource.get?, hsame] at hget
  have hdiffers := hnew _ hget
  rw [Resource.sameState_stamped] at hdiffers
  cases hdiffers

/-- The answer to a set is exact. -/
theorem setReports (hlost : r.lost = []) (clock : Readings) (c : Condition) :
    SetReports c r ((Operation.set c).perform clock r).1 ((Operation.set c).perform clock r).2 := by
  have hwrote := wrote_perform clock r (.set c)
  -- a set that says what was said before changes nothing; any other is stored and reported
  rcases Resource.set_cases clock r c with ⟨old, hold, hsame, -⟩ | ⟨hnew, heq⟩
  · have hperform := @perform_set_of_same r clock c old hold hsame
    rw [hperform] at hwrote ⊢
    refine { changed_iff := by simp, unchanged_iff := by simp, same_iff := ?_, written := by simp,
             ordered := by simp, others := fun _ _ _ => rfl, wrote := hwrote, again := ?_ }
    · exact iff_of_true rfl ⟨old, hold, Resource.sameState_iff.mp hsame⟩
    · exact fun later generation =>
        @perform_set_of_same (atGeneration r generation) later c old hold hsame
  · have hperform : (Operation.set c).perform clock r = (r.put clock c, .changed true) := by
      rw [Operation.perform, heq]
    have hne := @put_ne r clock c hlost hnew
    have hput := Resource.get?_put_self hlost clock c
    have hsame := Resource.sameState_stamped clock.now r c
    rw [hperform] at hwrote ⊢
    refine { changed_iff := by simp [hne], unchanged_iff := by simp [hne], same_iff := ?_,
             written := fun _ => ?_, ordered := fun _ => Resource.ordered_put hlost clock c,
             others := fun _ => Resource.ofType_put_of_ne hlost clock, wrote := hwrote,
             again := ?_ }
    · refine iff_of_false (by simp) ?_
      rintro ⟨old, hold, hsaid⟩
      exact Bool.false_ne_true ((hnew old hold).symm.trans (Resource.sameState_iff.mpr hsaid))
    · exact ⟨_, Resource.ofType_put_self hlost clock c, Resource.sameState_iff.mp hsame⟩
    · exact fun later generation =>
        @perform_set_of_same (atGeneration (r.put clock c) generation) later c _ hput hsame

/-- The answer to a clear is exact. -/
theorem clearReports (hlost : r.lost = []) (clock : Readings) (type : String) :
    ClearReports type r ((Operation.clear type).perform clock r).1
      ((Operation.clear type).perform clock r).2 := by
  have hmem : type ∈ r.conditionTypes.all ↔ r.conditionTypes.contains type = true :=
    ConditionTypes.contains_iff.symm
  rw [Operation.perform]
  -- types of the schema are refused, absent types leave the list as it is
  rcases Resource.clear_cases r type with ⟨hschema, heq⟩ | ⟨hschema, hsame, heq⟩ |
    ⟨hschema, hother, heq⟩
  · rw [heq]
    exact { refused_iff := by simp [hmem, hschema], refused := fun _ => rfl,
            changed_iff := by simp, unchanged_iff := by simp [hmem, hschema],
            cleared := absurd (hmem.mpr hschema) }
  · rw [heq]
    exact { refused_iff := by simp [hmem, hschema], refused := by simp, changed_iff := by simp,
            unchanged_iff := by simp [hmem, hschema], cleared := fun _ => by rw [hsame] }
  · have hlist : (r.dropped type).conditions = r.conditions.filter fun c => c.type ≠ type :=
      Resource.conditions_setConditions hlost _
    rw [← hlist] at hother
    rw [heq]
    exact { refused_iff := by simp [hmem, hschema], refused := by simp,
            changed_iff := by simp [hother], unchanged_iff := by simp [hother],
            cleared := fun _ => by rw [← hlist]; rfl }

end

/-- Every set and every clear reports exactly whether it changed the list, in whatever order the
list is and however often a type is in it, and changes nothing that it is not about. -/
theorem changes_reported {r : Resource} (hlost : r.lost = []) (clock : Readings) :
    (∀ c, SetReports c r ((Operation.set c).perform clock r).1
      ((Operation.set c).perform clock r).2) ∧
    ∀ type, ClearReports type r ((Operation.clear type).perform clock r).1
      ((Operation.clear type).perform clock r).2 :=
  ⟨setReports hlost clock, clearReports hlost clock⟩

/-- A resource whose list is in no order and has two types twice. -/
def jumbled : Resource :=
  Resource.ofObject
    { metadata := .of .epoch "" "n"
      groupKind := ⟨"", "K"⟩
      conditionTypes := .of "Ready" ["A"]
      conditions :=
        [.of .epoch "Z" .true, .of .epoch "Ready" .true, .of .epoch "A" .true,
          .of .epoch "Z" .false, .of .epoch "A" .false] }

theorem changes_reported_jumbled : jumbled.lost = [] ∧
    (∀ c, SetReports c jumbled ((Operation.set c).perform Instant.epoch jumbled).1
      ((Operation.set c).perform Instant.epoch jumbled).2) ∧
    ∀ type, ClearReports type jumbled ((Operation.clear type).perform Instant.epoch jumbled).1
      ((Operation.clear type).perform Instant.epoch jumbled).2 :=
  ⟨rfl, changes_reported rfl Instant.epoch⟩

end ConditionSet

end StatusWatch
