import StatusWatch.Proofs.RootDerivation
import StatusWatch.Proofs.Stamps

/-!
# Condition lists as sorted maps

A list that is strictly sorted by type has one entry per type, and stays so: every operation
of a condition set either leaves the list alone, drops entries from it, or sorts it anew. What
is in it can be told from the run alone, without looking at any list in between.

- `Condition.Ordered`, `Condition.Increasing`: sorted by type, and strictly so.
- `Request.sets`, `Request.clears`, `ClearedLast`: what a run did to a type.
- `Listed`: the types that should be in the list after a run.
- `increasing_perform`, `isSome_perform`: what one step keeps and what it does to the types.
- `KeptSorted`, `list_kept_sorted`: the list after any run that begins with a bind.
-/

namespace StatusWatch

open Condition (Distinct)

/-! ## Sorted lists -/

namespace Condition

/-- In the order of types. -/
def Ordered (cs : List Condition) : Prop := cs.Pairwise fun a b => a.type ≤ b.type

/-- Strictly sorted by type. -/
def Increasing (cs : List Condition) : Prop := cs.Pairwise fun a b => a.type < b.type

theorem Increasing.distinct {cs : List Condition} (h : Increasing cs) : Distinct cs := by
  refine List.pairwise_map.mpr (h.imp fun {a b} hlt heq => ?_)
  rw [heq] at hlt
  exact String.lt_irrefl _ hlt

theorem Increasing.filter {cs : List Condition} (h : Increasing cs) (p : Condition → Bool) :
    Increasing (cs.filter p) := h.sublist List.filter_sublist

theorem ordered_sortByType (cs : List Condition) : Ordered (sortByType cs) := by
  have hsorted : (sortByType cs).Pairwise fun a b => typeNotAfter a b = true :=
    List.pairwise_mergeSort typeNotAfter_trans typeNotAfter_total cs
  exact hsorted.imp fun h => by simpa [typeNotAfter] using h

/-- A sorted list with one entry per type is strictly sorted. -/
theorem Ordered.increasing {cs : List Condition} (h : Ordered cs) (hdistinct : Distinct cs) :
    Increasing cs := by
  have hne : cs.Pairwise fun a b => a.type ≠ b.type := List.pairwise_map.mp hdistinct
  refine (h.and hne).imp fun {a b} hab => ?_
  by_contra hlt
  exact hab.2 (String.le_antisymm hab.1 (String.not_lt.mp hlt))

theorem increasing_sortByType {cs : List Condition} (h : Distinct cs) :
    Increasing (sortByType cs) := (ordered_sortByType cs).increasing h.sortByType

/-- A strictly sorted list is determined by its lookups. -/
theorem Increasing.ext {cs ds : List Condition} (hcs : Increasing cs) (hds : Increasing ds)
    (h : ∀ type, find? type cs = find? type ds) : cs = ds := by
  have hnodup : ∀ {es : List Condition}, Increasing es → es.Nodup := fun hes =>
    List.Nodup.of_map _ hes.distinct
  have hperm : cs.Perm ds :=
    (List.perm_ext_iff_of_nodup (hnodup hcs) (hnodup hds)).mpr fun c => by
      rw [hcs.distinct.mem_iff, hds.distinct.mem_iff, h]
  refine hperm.eq_of_pairwise (fun a b _ _ hab hba => ?_) hcs hds
  exact absurd (String.lt_trans hab hba) (String.lt_irrefl _)

/-- In a sorted list, entries that are appended do not move the others. -/
theorem Increasing.sublist_sortByType {cs ds : List Condition} (h : Increasing cs)
    (hsub : cs.Sublist ds) : cs.Sublist (sortByType ds) := by
  refine List.sublist_mergeSort typeNotAfter_trans typeNotAfter_total (h.imp fun {a b} hlt => ?_)
    hsub
  simp only [typeNotAfter, decide_eq_true_eq]
  exact fun hgt => String.lt_irrefl _ (String.lt_trans hlt hgt)

/-- A type is in a list if it can be looked up. -/
theorem exists_type_iff {cs : List Condition} {type : String} :
    (∃ c ∈ cs, c.type = type) ↔ (find? type cs).isSome := by
  simp [find?]

end Condition

open Condition (Increasing)

namespace Resource

theorem increasing_bind (now : Instant) {r : Resource} (h : Increasing r.conditions) :
    Increasing (r.bind now).conditions := by
  rw [bind_eq]
  split
  · exact h
  · exact (Condition.increasing_sortByType (distinct_addMissing now _ _ h.distinct)).filter _

theorem increasing_store {r : Resource} (h : Increasing r.conditions) (c : Condition) :
    Increasing (r.store c).conditions := by
  refine (Condition.increasing_sortByType ((h.distinct.filter _).concat ?_)).filter _
  have := Condition.find?_filter (fun t => t ≠ c.type) c.type r.conditions
  simpa using this

theorem increasing_recomputeRoot (clock : Readings) {r : Resource}
    (h : Increasing r.conditions) : Increasing (r.recomputeRoot clock).conditions := by
  rcases recomputeRoot_cases clock r with ⟨-, -, -, heq⟩ | ⟨-, heq⟩
  · rw [heq]
    exact h
  · rw [heq]
    exact increasing_store h _

theorem increasing_put (clock : Readings) {r : Resource} (h : Increasing r.conditions)
    (c : Condition) : Increasing (r.put clock c).conditions := by
  unfold put
  split
  · exact increasing_store h _
  · exact increasing_recomputeRoot clock (increasing_store h _)

/-- Binding keeps every entry of a sorted list as it is. -/
theorem sublist_bind (now : Instant) {r : Resource} (h : Increasing r.conditions)
    (hlost : r.lost = []) : r.conditions.Sublist (r.bind now).conditions := by
  rw [bind_eq]
  split
  · exact List.Sublist.refl _
  · rw [conditions_setConditions hlost]
    exact h.sublist_sortByType (prefix_addMissing now _ _ _).sublist

/-- Binding again changes nothing. -/
theorem bind_of_complete (now : Instant) {r : Resource} (h : r.Complete) (hlost : r.lost = []) :
    r.bind now = r := by
  rw [bind_eq, if_pos fun d hd => h d hd (by simp [hlost])]

/-! ## What is there -/

section Present

variable {r : Resource} (hlost : r.lost = [])

include hlost

theorem isSome_bind (now : Instant) (type : String) :
    ((r.bind now).get? type).isSome ↔ (r.get? type).isSome ∨ type ∈ r.conditionTypes.all := by
  rw [get?_bind now r (by simp [hlost]), Option.isSome_or]
  by_cases h : type ∈ r.conditionTypes.all <;> simp [h]

theorem isSome_store (c : Condition) (type : String) :
    ((r.store c).get? type).isSome ↔ type = c.type ∨ (r.get? type).isSome := by
  rw [get?_store, hlost, if_neg List.not_mem_nil]
  split
  · rename_i h
    simp [h]
  · rename_i h
    simp [Ne.symm h]

theorem isSome_recomputeRoot (hcomplete : r.Complete) (clock : Readings) (type : String) :
    ((r.recomputeRoot clock).get? type).isSome ↔ (r.get? type).isSome := by
  rcases recomputeRoot_cases clock r with ⟨-, -, -, heq⟩ | ⟨-, heq⟩
  · rw [heq]
  · rw [heq, isSome_store hlost, type_stamped, type_derivedRoot]
    -- the root is there already
    refine ⟨fun h => h.elim (fun hroot => ?_) id, Or.inr⟩
    exact hcomplete type (ConditionTypes.mem_all.mpr (Or.inr hroot)) (by simp [hlost])

theorem isSome_set (hcomplete : r.Complete) (clock : Readings) (c : Condition) (type : String) :
    ((r.set clock c).1.get? type).isSome ↔ type = c.type ∨ (r.get? type).isSome := by
  rcases set_cases clock r c with ⟨old, hold, -, heq⟩ | ⟨-, heq⟩
  · -- nothing was set, but the type is there
    rw [heq]
    refine ⟨Or.inr, fun h => h.elim (fun htype => ?_) id⟩
    rw [htype, hold]
    rfl
  · rw [heq]
    unfold put
    split
    · exact isSome_store hlost _ type
    · have hlost' : (r.store (stamped clock.now r c)).lost = [] := hlost
      rw [isSome_recomputeRoot hlost' (hcomplete.store _), isSome_store hlost, type_stamped]

end Present

/-- What a clear leaves in the list. -/
theorem get?_clear {r r' : Resource} {cleared : String} {b : Bool} (hlost : r.lost = [])
    (h : r.clear cleared = .ok (r', b)) (type : String) :
    cleared ∉ r.conditionTypes.all ∧
      r'.get? type = if type = cleared then none else r.get? type := by
  have hdropped := get?_dropped r cleared type
  rw [hlost, if_neg List.not_mem_nil] at hdropped
  rcases clear_cases r cleared with ⟨-, heq⟩ | ⟨hschema, hsame, heq⟩ | ⟨hschema, -, heq⟩
  · rw [heq] at h
    cases h
  · -- nothing was dropped, so there was nothing to drop
    rw [heq] at h
    cases h
    rw [get?, dropped, conditions_setConditions hlost, hsame] at hdropped
    exact ⟨by simp [← ConditionTypes.contains_iff, hschema], hdropped⟩
  · rw [heq] at h
    cases h
    exact ⟨by simp [← ConditionTypes.contains_iff, hschema], hdropped⟩

/-- Only a type of the schema is refused. -/
theorem mem_all_of_clear_error {r : Resource} {type : String} {e : ConditionError}
    (h : r.clear type = .error e) : type ∈ r.conditionTypes.all := by
  rcases clear_cases r type with ⟨hschema, -⟩ | ⟨-, -, heq⟩ | ⟨-, -, heq⟩
  · exact ConditionTypes.contains_iff.mp hschema
  · rw [heq] at h
    cases h
  · rw [heq] at h
    cases h

end Resource

namespace ConditionSet

/-! ## What a run did to a type -/

/-- A step that passes a condition of the type to the set. -/
def Request.sets (type : String) (s : Request) : Prop := ∃ c, s.operation = .set c ∧ c.type = type

/-- A step that asks for the type to be cleared. -/
def Request.clears (type : String) (s : Request) : Prop := s.operation = .clear type

/-- A type was cleared and not set again afterwards. -/
def ClearedLast (type : String) (steps : List Request) : Prop :=
  ∃ before s after, steps = before ++ s :: after ∧ s.clears type ∧ ∀ s' ∈ after, ¬ s'.sets type

/-- The types that should be in the list after a run: those that were there, those of the schema
and those that were ever set, except for types outside the schema that were cleared last. -/
def Listed (r : Resource) (steps : List Request) (type : String) : Prop :=
  ((∃ c ∈ r.conditions, c.type = type) ∨ type ∈ r.conditionTypes.all ∨
      ∃ s ∈ steps, s.sets type) ∧
    ¬ (type ∉ r.conditionTypes.all ∧ ClearedLast type steps)

theorem clearedLast_nil (type : String) : ¬ ClearedLast type [] := by
  rintro ⟨before, s, after, h, -⟩
  simp at h

theorem clearedLast_concat {type : String} {steps : List Request} {s : Request} :
    ClearedLast type (steps ++ [s]) ↔
      s.clears type ∨ (ClearedLast type steps ∧ ¬ s.sets type) := by
  constructor
  · rintro ⟨before, s', after, hsplit, hclears, hafter⟩
    rcases List.eq_nil_or_concat after with rfl | ⟨after, last, rfl⟩
    · obtain ⟨-, heq⟩ := List.append_inj' hsplit rfl
      obtain rfl : s = s' := by simpa using heq
      exact Or.inl hclears
    · rw [List.concat_eq_append] at hsplit hafter
      have hsplit : steps ++ [s] = (before ++ s' :: after) ++ [last] := by simpa using hsplit
      obtain ⟨rfl, heq⟩ := List.append_inj' hsplit rfl
      obtain rfl : s = last := by simpa using heq
      refine Or.inr ⟨⟨before, s', after, rfl, hclears, ?_⟩, hafter s (by simp)⟩
      exact fun s'' h => hafter s'' (List.mem_append_left _ h)
  · rintro (hclears | ⟨⟨before, s', after, rfl, hclears, hafter⟩, hsets⟩)
    · exact ⟨steps, s, [], rfl, hclears, fun _ h => nomatch h⟩
    · refine ⟨before, s', after ++ [s], by simp, hclears, fun s'' h => ?_⟩
      rcases List.mem_append.mp h with h | h
      · exact hafter s'' h
      · rwa [List.mem_singleton.mp h]

/-- One more step lists a type that it sets, and takes out one that it clears. -/
theorem listed_concat {r : Resource} {steps : List Request} {s : Request} {type : String} :
    Listed r (steps ++ [s]) type ↔
      s.sets type ∨ (Listed r steps type ∧ ¬ (s.clears type ∧ type ∉ r.conditionTypes.all)) := by
  have hexclusive : s.sets type → ¬ s.clears type := by
    rintro ⟨c, hset, -⟩ hclears
    rw [Request.clears, hset] at hclears
    cases hclears
  have hany : (∃ s' ∈ steps ++ [s], s'.sets type) ↔ (∃ s' ∈ steps, s'.sets type) ∨ s.sets type := by
    simp [or_and_right, exists_or]
  unfold Listed
  rw [clearedLast_concat, hany]
  generalize (∃ c ∈ r.conditions, c.type = type) = initial
  generalize (∃ s' ∈ steps, s'.sets type) = before
  tauto

/-! ## Steps -/

/-- Every step keeps a sorted list sorted. -/
theorem increasing_perform {r : Resource} (h : Increasing r.conditions) (s : Request) :
    Increasing (s.perform r).1.conditions := by
  rcases perform_cases r s with ⟨-, heq⟩ | ⟨-, heq⟩ | ⟨c, -, -, -, heq⟩ | ⟨type, -, -, heq⟩ <;>
    rw [heq]
  · exact Resource.increasing_bind s.now h
  · exact h
  · exact Resource.increasing_put s.toReadings (r := atGeneration r s.generation) h c
  · exact (h.filter _).filter _

/-- What a step does to the types in the list. -/
theorem isSome_perform {r : Resource} (hlost : r.lost = []) (hcomplete : r.Complete) (s : Request)
    (type : String) : ((s.perform r).1.get? type).isSome ↔
      s.sets type ∨ ((r.get? type).isSome ∧ ¬ (s.clears type ∧ type ∉ r.conditionTypes.all)) := by
  -- the generation plays no part in it
  have hlost' : (atGeneration r s.generation).lost = [] := hlost
  have hcomplete' : (atGeneration r s.generation).Complete := hcomplete
  have hget : (atGeneration r s.generation).get? type = r.get? type := rfl
  have hall : (atGeneration r s.generation).conditionTypes = r.conditionTypes := rfl
  rw [perform_eq]
  generalize atGeneration r s.generation = r₀ at *
  unfold Request.sets Request.clears
  cases s.operation with
  | bind =>
    show ((r₀.bind s.now).get? type).isSome ↔ _
    rw [Resource.bind_of_complete s.now hcomplete' hlost', hget]
    simp
  | set c =>
    show ((r₀.set s.toReadings c).1.get? type).isSome ↔ _
    rw [Resource.isSome_set hlost' hcomplete', hget]
    simp [eq_comm (a := type)]
  | clear cleared =>
    unfold Operation.perform
    simp only
    cases hclear : r₀.clear cleared with
    | error e =>
      have hschema := Resource.mem_all_of_clear_error hclear
      rw [hall] at hschema
      simp only [hget]
      constructor
      · refine fun h => Or.inr ⟨h, fun ⟨heq, hnot⟩ => ?_⟩
        cases heq
        exact hnot hschema
      · rintro (⟨c, hset, -⟩ | ⟨h, -⟩)
        · cases hset
        · exact h
    | ok answer =>
      obtain ⟨r', b⟩ := answer
      obtain ⟨hschema, hrest⟩ := Resource.get?_clear hlost' hclear type
      rw [hall] at hschema
      simp only [hrest, hget]
      by_cases heq : type = cleared
      · simp [heq, hschema]
      · simp [heq, Ne.symm heq]

/-! ## Runs -/

/-- What every run keeps once the list is sorted and has the types of the schema. -/
structure Mapped (r : Resource) (steps : List Request) : Prop where
  lost : (run r steps).1.lost = []
  types : (run r steps).1.conditionTypes = r.conditionTypes
  complete : (run r steps).1.Complete
  increasing : Increasing (run r steps).1.conditions
  listed : ∀ type, ((run r steps).1.get? type).isSome ↔ Listed r steps type

theorem mapped_run {r : Resource} (hsorted : Increasing r.conditions) (hlost : r.lost = [])
    (hcomplete : r.Complete) (steps : List Request) : Mapped r steps := by
  -- induction on the run, one step at its end
  induction steps using List.reverseRecOn with
  | nil =>
    refine { lost := hlost, types := rfl, complete := hcomplete, increasing := hsorted,
             listed := fun type => ?_ }
    have hall : type ∈ r.conditionTypes.all → (r.get? type).isSome :=
      fun h => hcomplete type h (by simp [hlost])
    have htype : (∃ c ∈ r.conditions, c.type = type) ↔ (r.get? type).isSome :=
      Condition.exists_type_iff
    have hcleared := clearedLast_nil type
    show (r.get? type).isSome ↔ _
    unfold Listed
    simp only [htype, List.not_mem_nil, false_and, exists_false]
    tauto
  | append_singleton steps s ih =>
    have hrun : (run r (steps ++ [s])).1 = (s.perform (run r steps).1).1 := by rw [run_concat]
    have hframe := frame_perform (run r steps).1 s
    refine { lost := ?_, types := ?_, complete := ?_, increasing := ?_, listed := fun type => ?_ }
    · rw [hrun, hframe.2, ih.lost]
    · rw [hrun, hframe.1, ih.types]
    · rw [hrun]
      exact complete_perform ih.complete s
    · rw [hrun]
      exact increasing_perform ih.increasing s
    · rw [hrun, isSome_perform ih.lost ih.complete, ih.types, ih.listed, listed_concat]

theorem perform_of_bind {s : Request} (h : s.operation = .bind) (r : Resource) :
    (s.perform r).1 = (atGeneration r s.generation).bind s.now := by
  rw [perform_eq, h]
  rfl

/-- Binding adds the types of the schema, which are listed anyway. -/
theorem listed_bind {r : Resource} (hlost : r.lost = []) (now : Instant) (steps : List Request)
    (type : String) : Listed (r.bind now) steps type ↔ Listed r steps type := by
  have htypes : (∃ c ∈ (r.bind now).conditions, c.type = type) ↔
      (∃ c ∈ r.conditions, c.type = type) ∨ type ∈ r.conditionTypes.all := by
    rw [Condition.exists_type_iff, Condition.exists_type_iff]
    exact Resource.isSome_bind hlost now type
  unfold Listed
  rw [htypes, Resource.conditionTypes_bind, or_assoc, or_self_left]

/-- The list of a resource that was bound by a first step and then went through others. -/
structure KeptSorted (r : Resource) (first : Request) (steps : List Request) : Prop where
  increasing : Increasing (run r (first :: steps)).1.conditions
  declared : ∀ type ∈ r.conditionTypes.all,
    ∃ c ∈ (run r (first :: steps)).1.conditions, c.type = type
  types : ∀ type,
    (∃ c ∈ (run r (first :: steps)).1.conditions, c.type = type) ↔ Listed r steps type
  /-- The first bind keeps every entry as it is. -/
  bound : r.conditions.Sublist (run r [first]).1.conditions
  /-- Every later one keeps the list. -/
  rebound : ∀ s : Request, s.operation = .bind →
    (run r (first :: steps ++ [s])).1.conditions = (run r (first :: steps)).1.conditions

/-- A sorted list stays a sorted map from types to conditions: whatever is done after a bind, it
is strictly sorted, its types can be told from the run, and binding takes nothing away and, when
repeated, adds nothing. -/
theorem list_kept_sorted {r : Resource} (hsorted : Increasing r.conditions) (hlost : r.lost = [])
    {first : Request} (hfirst : first.operation = .bind) (steps : List Request) :
    KeptSorted r first steps := by
  let r₀ := atGeneration r first.generation
  have hrun : ∀ steps, (run r (first :: steps)).1 = (run (r₀.bind first.now) steps).1 := by
    intro steps
    rw [run_cons]
    simp only [perform_of_bind hfirst, r₀]
  have hlost₀ : r₀.lost = [] := hlost
  have hsorted₀ : Increasing r₀.conditions := hsorted
  have hmapped : Mapped (r₀.bind first.now) steps :=
    mapped_run (Resource.increasing_bind first.now hsorted₀) (by rw [Resource.lost_bind, hlost₀])
      (Resource.complete_bind first.now r₀) steps
  have htypes : ∀ type, (∃ c ∈ (run r (first :: steps)).1.conditions, c.type = type) ↔
      Listed r steps type := by
    intro type
    rw [hrun, Condition.exists_type_iff]
    exact (hmapped.listed type).trans (listed_bind hlost₀ first.now steps type)
  refine { increasing := ?_, declared := ?_, types := htypes, bound := ?_, rebound := ?_ }
  · rw [hrun]
    exact hmapped.increasing
  · exact fun type htype => (htypes type).mpr ⟨Or.inr (Or.inl htype), fun h => h.1 htype⟩
  · rw [hrun]
    exact Resource.sublist_bind first.now hsorted₀ hlost₀
  · intro s hbind
    have hcomplete : (atGeneration (run (r₀.bind first.now) steps).1 s.generation).Complete :=
      hmapped.complete
    rw [run_concat]
    simp only [perform_of_bind hbind, hrun]
    rw [Resource.bind_of_complete s.now hcomplete hmapped.lost]
    rfl

/-- A resource with conditions outside its schema. -/
def drifting : Resource :=
  Resource.ofObject
    { metadata := .of .epoch "" "n"
      groupKind := ⟨"", "K"⟩
      conditionTypes := .of "Ready" ["B"]
      conditions := [.of .epoch "A" .true, .of .epoch "Z" .false] }

/-- One of them is cleared for good, the other one comes back. -/
def clearing : List Request :=
  [⟨Instant.epoch, 1, .clear "Z"⟩, ⟨Instant.epoch, 1, .clear "A"⟩,
    ⟨Instant.epoch, 2, .set (.of .epoch "A" .false)⟩]

theorem list_kept_sorted_drifting : Increasing drifting.conditions ∧ drifting.lost = [] ∧
    KeptSorted drifting ⟨Instant.epoch, 1, .bind⟩ clearing := by
  have hsorted : Increasing drifting.conditions := by
    refine List.pairwise_pair.mpr ?_
    decide
  exact ⟨hsorted, rfl, list_kept_sorted hsorted rfl rfl clearing⟩

end ConditionSet

end StatusWatch
