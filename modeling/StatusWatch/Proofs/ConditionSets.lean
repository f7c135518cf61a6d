import Mathlib.Data.List.Nodup
import StatusWatch.Resource.ConditionSet

/-!
# Condition lists as maps

A condition list is read by type, and the first entry of a type is the one that counts.
This module says what each operation of a condition set does to these lookups, whatever
the order of the list and however often a type is in it.

- `Condition.Distinct`: at most one entry per type, which all operations keep.
- `ofType_sortByType`, `find?_sortByType`: sorting by type is stable, so it changes no lookup.
- `get?_bind`, `get?_store`, `get?_dropped`: lookups after an operation.
- `stamped`: what a write stores if it stores anything.
- `Wrote`, `wrote_perform`: an operation writes the condition list and nothing else.
- `ConditionSet.perform_cases`: everything a step of a run can do.
-/

namespace StatusWatch

/-! ## Lists of conditions -/

namespace Condition

/-- At most one entry per type. -/
def Distinct (cs : List Condition) : Prop := (cs.map (·.type)).Nodup

theorem typeNotAfter_trans (a b c : Condition) (hab : typeNotAfter a b = true)
    (hbc : typeNotAfter b c = true) : typeNotAfter a c = true := by
  simp only [typeNotAfter, decide_eq_true_eq] at *
  exact String.le_trans hab hbc

theorem typeNotAfter_total (a b : Condition) : (typeNotAfter a b || typeNotAfter b a) = true := by
  simp only [typeNotAfter, Bool.or_eq_true, decide_eq_true_eq]
  exact String.le_total a.type b.type

theorem perm_sortByType (cs : List Condition) : (sortByType cs).Perm cs :=
  List.mergeSort_perm cs typeNotAfter

theorem type_of_find? {type : String} {cs : List Condition} {c : Condition}
    (h : find? type cs = some c) : c.type = type := by
  have := List.find?_some h
  simpa using this

theorem mem_of_find? {type : String} {cs : List Condition} {c : Condition}
    (h : find? type cs = some c) : c ∈ cs := List.mem_of_find?_eq_some h

theorem find?_append (type : String) (cs ds : List Condition) :
    find? type (cs ++ ds) = (find? type cs).or (find? type ds) := List.find?_append

theorem find?_singleton (type : String) (c : Condition) :
    find? type [c] = if c.type = type then some c else none := by
  simp [find?, List.find?_singleton]

/-- The entries of a type, in their order. -/
def ofType (type : String) (cs : List Condition) : List Condition :=
  cs.filter fun c => c.type = type

theorem find?_eq_head? (type : String) (cs : List Condition) :
    find? type cs = (ofType type cs).head? := by
  rw [find?, ofType, List.head?_filter]

/-- The sort is stable: entries of one type keep their order. -/
theorem ofType_sortByType (type : String) (cs : List Condition) :
    ofType type (sortByType cs) = ofType type cs := by
  -- entries of one type are in order already, so they survive as a sublist
  have hpairwise : (ofType type cs).Pairwise fun a b => typeNotAfter a b = true := by
    refine List.pairwise_of_forall_mem_list fun a ha b hb => ?_
    have ha : a.type = type := by simpa using (List.mem_filter.mp ha).2
    have hb : b.type = type := by simpa using (List.mem_filter.mp hb).2
    simp only [typeNotAfter, decide_eq_true_eq, ha, hb]
    exact String.le_refl type
  have hsub : (ofType type cs).Sublist (ofType type (sortByType cs)) := by
    have := List.sublist_mergeSort typeNotAfter_trans typeNotAfter_total hpairwise
      List.filter_sublist
    simpa [sortByType, ofType] using this.filter fun c => c.type = type
  exact (hsub.eq_of_length ((perm_sortByType cs).filter _).length_eq.symm).symm

theorem find?_sortByType (type : String) (cs : List Condition) :
    find? type (sortByType cs) = find? type cs := by
  rw [find?_eq_head?, ofType_sortByType, find?_eq_head?]

/-- Dropping types drops their lookups. -/
theorem find?_filter (p : String → Bool) (type : String) (cs : List Condition) :
    find? type (cs.filter fun c => p c.type) = if p type then find? type cs else none := by
  induction cs with
  | nil => simp [find?]
  | cons c cs ih =>
    unfold find? at ih ⊢
    rw [List.filter_cons]
    by_cases hc : c.type = type
    · subst hc
      by_cases hp : p c.type = true
      · simp [hp]
      · simpa [hp] using ih
    · by_cases hp : p c.type = true
      · simp [hp, hc, ih]
      · simp [hp, hc, ih]

theorem Distinct.filter {cs : List Condition} (h : Distinct cs) (p : Condition → Bool) :
    Distinct (cs.filter p) := h.sublist (List.filter_sublist.map _)

theorem Distinct.sortByType {cs : List Condition} (h : Distinct cs) :
    Distinct (sortByType cs) := ((perm_sortByType cs).map _).nodup_iff.mpr h

/-- A new type at the end of a list. -/
theorem Distinct.concat {cs : List Condition} (h : Distinct cs) {c : Condition}
    (hnone : find? c.type cs = none) : Distinct (cs ++ [c]) := by
  unfold Distinct
  rw [List.map_append]
  refine List.nodup_append.mpr ⟨h, List.nodup_singleton _, fun a ha b hb => ?_⟩
  obtain ⟨d, hd, rfl⟩ := List.mem_map.mp ha
  obtain rfl : b = c.type := List.mem_singleton.mp hb
  have := List.find?_eq_none.mp hnone d hd
  simpa using this

/-- In a list with one entry per type, lookups find every entry. -/
theorem Distinct.mem_iff {cs : List Condition} (h : Distinct cs) {c : Condition} :
    c ∈ cs ↔ find? c.type cs = some c := by
  constructor
  · intro hc
    have hsome : (find? c.type cs).isSome := by
      rw [find?, List.find?_isSome]
      exact ⟨c, hc, by simp⟩
    obtain ⟨d, hd⟩ := Option.isSome_iff_exists.mp hsome
    have heq : d = c := List.inj_on_of_nodup_map h (mem_of_find? hd) hc (type_of_find? hd)
    exact heq ▸ hd
  · exact mem_of_find?

end Condition

open Condition (Distinct)

namespace Resource

/-! ## Writing the list -/

@[simp] theorem conditionTypes_setConditions (r : Resource) (cs : List Condition) :
    (r.setConditions cs).conditionTypes = r.conditionTypes := rfl

@[simp] theorem lost_setConditions (r : Resource) (cs : List Condition) :
    (r.setConditions cs).lost = r.lost := rfl

@[simp] theorem metadata_setConditions (r : Resource) (cs : List Condition) :
    (r.setConditions cs).metadata = r.metadata := rfl

theorem get?_setConditions (r : Resource) (cs : List Condition) (type : String) :
    (r.setConditions cs).get? type =
      if type ∈ r.lost then none else Condition.find? type cs := by
  show Condition.find? type (cs.filter fun c => !r.lost.contains c.type) = _
  rw [Condition.find?_filter fun t => !r.lost.contains t]
  by_cases h : type ∈ r.lost <;> simp [h]

theorem conditions_setConditions {r : Resource} (hlost : r.lost = []) (cs : List Condition) :
    (r.setConditions cs).conditions = cs := by
  simp [setConditions, hlost]

theorem type_of_get? {r : Resource} {type : String} {c : Condition} (h : r.get? type = some c) :
    c.type = type := Condition.type_of_find? h

/-! ## Binding -/

@[simp] theorem type_awaiting (now : Instant) (generation : Int64) (type : String) :
    (awaiting now generation type).type = type := rfl

section AddMissing

variable (now : Instant) (generation : Int64)

theorem find?_addMissing (type : String) (types : List String) : ∀ cs : List Condition,
    Condition.find? type (addMissing now generation types cs) =
      (Condition.find? type cs).or
        (if type ∈ types then some (awaiting now generation type) else none) := by
  induction types with
  | nil => intro cs; simp [addMissing]
  | cons t types ih =>
    intro cs
    unfold addMissing
    split
    · rename_i hsome
      rw [ih]
      -- what is added stands behind all that was there, so it is found only where nothing was
      by_cases ht : type = t
      · subst ht
        obtain ⟨c, hc⟩ := Option.isSome_iff_exists.mp hsome
        simp [hc]
      · simp [ht]
    · rw [ih, Condition.find?_append, Condition.find?_singleton, type_awaiting]
      by_cases ht : type = t
      · subst ht
        cases Condition.find? type cs <;> simp
      · simp [ht, Ne.symm ht]

/-- What is missing is appended. -/
theorem prefix_addMissing (types : List String) : ∀ cs : List Condition,
    cs <+: addMissing now generation types cs := by
  induction types with
  | nil => exact fun cs => List.prefix_refl cs
  | cons t types ih =>
    intro cs
    unfold addMissing
    split
    · exact ih cs
    · exact (List.prefix_append cs _).trans (ih _)

theorem distinct_addMissing (types : List String) : ∀ {cs : List Condition}, Distinct cs →
    Distinct (addMissing now generation types cs) := by
  induction types with
  | nil => exact fun h => h
  | cons t types ih =>
    intro cs h
    unfold addMissing
    split
    · exact ih h
    · rename_i hnone
      exact ih (h.concat (Option.not_isSome_iff_eq_none.mp hnone))

end AddMissing

section Bind

variable (now : Instant) (r : Resource)

/-- Binding writes the list unless the schema is complete. -/
theorem bind_eq : r.bind now =
    if ∀ t ∈ r.conditionTypes.all, (r.get? t).isSome then r
    else r.setConditions (Condition.sortByType
      (addMissing now r.metadata.generation r.conditionTypes.all r.conditions)) := by
  unfold bind
  have hbegins := prefix_addMissing now r.metadata.generation r.conditionTypes.all r.conditions
  refine if_congr ⟨fun hlength t ht => ?_, fun hall => ?_⟩ rfl rfl
  · have heq := hbegins.eq_of_length hlength.symm
    unfold get?
    rw [heq, find?_addMissing, if_pos ht]
    cases Condition.find? t r.conditions <;> rfl
  · -- with nothing missing, nothing is appended
    have hsame : ∀ (types : List String), (∀ t ∈ types, (r.get? t).isSome) →
        addMissing now r.metadata.generation types r.conditions = r.conditions := by
      intro types
      induction types with
      | nil => exact fun _ => rfl
      | cons t types ih =>
        intro h
        have hsome : (Condition.find? t r.conditions).isSome := h t List.mem_cons_self
        unfold addMissing
        rw [if_pos hsome]
        exact ih fun t' ht' => h t' (List.mem_cons_of_mem _ ht')
    exact congrArg List.length (hsame _ hall)

@[simp] theorem conditionTypes_bind : (r.bind now).conditionTypes = r.conditionTypes := by
  rw [bind_eq]
  split <;> rfl

@[simp] theorem lost_bind : (r.bind now).lost = r.lost := by
  rw [bind_eq]
  split <;> rfl

@[simp] theorem metadata_bind : (r.bind now).metadata = r.metadata := by
  rw [bind_eq]
  split <;> rfl

/-- Binding finds what was there, and something for every type of the schema. -/
theorem get?_bind {type : String} (hkept : type ∉ r.lost) :
    (r.bind now).get? type = (r.get? type).or
      (if type ∈ r.conditionTypes.all then some (awaiting now r.metadata.generation type)
        else none) := by
  rw [bind_eq]
  split
  · rename_i hall
    by_cases ht : type ∈ r.conditionTypes.all
    · obtain ⟨c, hc⟩ := Option.isSome_iff_exists.mp (hall type ht)
      simp [hc]
    · simp [ht]
  · rw [get?_setConditions, if_neg hkept, Condition.find?_sortByType, find?_addMissing]
    rfl

theorem distinct_bind (h : Distinct r.conditions) : Distinct (r.bind now).conditions := by
  rw [bind_eq]
  split
  · exact h
  · exact (distinct_addMissing now _ _ h).sortByType.filter _

end Bind

/-! ## Storing -/

/-- Store a condition under its type. -/
def store (r : Resource) (c : Condition) : Resource := r.setConditions (replaced r.conditions c)

@[simp] theorem conditionTypes_store (r : Resource) (c : Condition) :
    (r.store c).conditionTypes = r.conditionTypes := rfl

@[simp] theorem lost_store (r : Resource) (c : Condition) : (r.store c).lost = r.lost := rfl

@[simp] theorem metadata_store (r : Resource) (c : Condition) :
    (r.store c).metadata = r.metadata := rfl

/-- Lookups after a condition was stored. -/
theorem get?_store (r : Resource) (c : Condition) (type : String) :
    (r.store c).get? type =
      if type ∈ r.lost then none else if c.type = type then some c else r.get? type := by
  unfold store
  rw [get?_setConditions, replaced, Condition.find?_sortByType, Condition.find?_append,
    Condition.find?_singleton]
  have hfilter : Condition.find? type (r.conditions.filter fun d => d.type ≠ c.type) =
      if c.type = type then none else r.get? type := by
    rw [Condition.find?_filter fun t => t ≠ c.type]
    by_cases h : c.type = type
    · simp [h]
    · simp [h, Ne.symm h, get?]
  rw [hfilter]
  by_cases h : c.type = type <;> simp [h]

theorem distinct_store {r : Resource} (h : Distinct r.conditions) (c : Condition) :
    Distinct (r.store c).conditions := by
  refine Distinct.filter (Distinct.sortByType ((h.filter _).concat ?_)) _
  have := Condition.find?_filter (fun t => t ≠ c.type) c.type r.conditions
  simpa using this

/-- What a write stores, given the present entry of the type. -/
def stamped (now : Instant) (r : Resource) (c : Condition) : Condition :=
  { c with
    observedGeneration := r.metadata.generation
    lastTransition := match r.get? c.type with
      | none => now
      | some old => if old.status = c.status then old.lastTransition else now }

/-- A write stores a stamped condition, unless the present one says the same. -/
theorem write?_eq (now : Instant) (r : Resource) (c : Condition) :
    write? now r c =
      if (r.get? c.type).any fun old => old.sameState c then none
      else some (r.store (stamped now r c)) := by
  unfold write? stamp? stamped store
  cases r.get? c.type with
  | none => rfl
  | some old =>
    by_cases hsame : old.sameState c = true
    · simp [hsame]
    · by_cases hstatus : old.status = c.status <;> simp [hsame, hstatus]

@[simp] theorem type_stamped (now : Instant) (r : Resource) (c : Condition) :
    (stamped now r c).type = c.type := rfl

theorem sameState_iff {a b : Condition} : a.sameState b = true ↔
    a.status = b.status ∧ a.reason = b.reason ∧ a.message = b.message ∧
      a.severity = b.severity := by
  simp [Condition.sameState, and_assoc]

/-- A write leaves the list alone or stores a stamped condition. -/
theorem write?_cases (now : Instant) (r : Resource) (c : Condition) :
    (∃ old, r.get? c.type = some old ∧ old.sameState c = true ∧ write? now r c = none) ∨
      ((∀ old, r.get? c.type = some old → old.sameState c = false) ∧
        write? now r c = some (r.store (stamped now r c))) := by
  rw [write?_eq]
  cases h : r.get? c.type with
  | none => exact Or.inr ⟨fun _ hold => (nomatch hold), rfl⟩
  | some old =>
    cases hsame : old.sameState c with
    | true => exact Or.inl ⟨old, rfl, hsame, by simp [hsame]⟩
    | false =>
      refine Or.inr ⟨?_, by simp [hsame]⟩
      intro old' hold
      cases hold
      exact hsame

/-! ## Setting -/

@[simp] theorem type_derivedRoot (clock : Readings) (r : Resource) :
    (r.derivedRoot clock).type = r.conditionTypes.root := by
  unfold derivedRoot
  simp only
  split <;> rfl

/-- Recomputing the root leaves the resource alone or stores the stamped derived root. -/
theorem recomputeRoot_cases (clock : Readings) (r : Resource) :
    (∃ old, r.root? = some old ∧ old.sameState (r.derivedRoot clock) = true ∧
        r.recomputeRoot clock = r) ∨
      ((∀ old, r.root? = some old → old.sameState (r.derivedRoot clock) = false) ∧
        r.recomputeRoot clock = r.store (stamped clock.root r (r.derivedRoot clock))) := by
  have htype := type_derivedRoot clock r
  unfold recomputeRoot root?
  rcases write?_cases clock.root r (r.derivedRoot clock) with ⟨old, hget, hsame, hw⟩ | ⟨hnew, hw⟩
  · exact Or.inl ⟨old, htype ▸ hget, hsame, by rw [hw]; rfl⟩
  · exact Or.inr ⟨fun old hold => hnew old (htype.symm ▸ hold), by rw [hw]; rfl⟩

theorem frame_recomputeRoot (clock : Readings) (r : Resource) :
    (r.recomputeRoot clock).conditionTypes = r.conditionTypes ∧
      (r.recomputeRoot clock).lost = r.lost := by
  rcases recomputeRoot_cases clock r with ⟨-, -, -, heq⟩ | ⟨-, heq⟩
  · rw [heq]
    exact ⟨rfl, rfl⟩
  · rw [heq]
    exact ⟨rfl, rfl⟩

/-- What a set does that changes something: store, and recompute the root for another type. -/
def put (clock : Readings) (r : Resource) (c : Condition) : Resource :=
  if c.type = r.conditionTypes.root then r.store (stamped clock.now r c)
  else (r.store (stamped clock.now r c)).recomputeRoot clock

/-- A set changes nothing if the present condition says the same. -/
theorem set_cases (clock : Readings) (r : Resource) (c : Condition) :
    (∃ old, r.get? c.type = some old ∧ old.sameState c = true ∧ r.set clock c = (r, false)) ∨
      ((∀ old, r.get? c.type = some old → old.sameState c = false) ∧
        r.set clock c = (r.put clock c, true)) := by
  unfold set put
  rcases write?_cases clock.now r c with ⟨old, hget, hsame, hw⟩ | ⟨hnew, hw⟩
  · exact Or.inl ⟨old, hget, hsame, by rw [hw]⟩
  · refine Or.inr ⟨hnew, ?_⟩
    rw [hw]
    by_cases hroot : c.type = r.conditionTypes.root
    · simp [ConditionTypes.isRoot, store, hroot]
    · simp [ConditionTypes.isRoot, store, hroot, Ne.symm hroot]

/-! ## Clearing -/

/-- The resource without the conditions of a type. -/
def dropped (r : Resource) (type : String) : Resource :=
  r.setConditions (r.conditions.filter fun c => c.type ≠ type)

/-- A clear refuses a type of the schema, finds nothing to drop, or drops what it finds. -/
theorem clear_cases (r : Resource) (type : String) :
    (r.conditionTypes.contains type = true ∧ r.clear type = .error (.schemaDeclared type)) ∨
      (r.conditionTypes.contains type = false ∧
        (r.conditions.filter fun c => c.type ≠ type) = r.conditions ∧
        r.clear type = .ok (r, false)) ∨
      (r.conditionTypes.contains type = false ∧
        (r.conditions.filter fun c => c.type ≠ type) ≠ r.conditions ∧
        r.clear type = .ok (r.dropped type, true)) := by
  by_cases hschema : r.conditionTypes.contains type = true
  · exact Or.inl ⟨hschema, if_pos hschema⟩
  · have hother := Bool.eq_false_iff.mpr hschema
    by_cases hlength : (r.conditions.filter fun c => c.type ≠ type).length = r.conditions.length
    · exact Or.inr (Or.inl ⟨hother, List.filter_sublist.eq_of_length hlength,
        (if_neg hschema).trans (if_pos hlength)⟩)
    · exact Or.inr (Or.inr ⟨hother, fun h => hlength (congrArg List.length h),
        (if_neg hschema).trans (if_neg hlength)⟩)

/-- Lookups after a type was dropped. -/
theorem get?_dropped (r : Resource) (type type' : String) :
    (r.dropped type).get? type' =
      if type' ∈ r.lost then none else if type' = type then none else r.get? type' := by
  unfold dropped
  rw [get?_setConditions, Condition.find?_filter fun t => t ≠ type]
  by_cases h : type' = type <;> simp [h, get?]

/-! ## What operations write -/

/-- The second resource is the first one with another condition list. -/
def Wrote (r r' : Resource) : Prop := ∃ cs, r' = { r with conditions := cs }

theorem Wrote.refl (r : Resource) : Wrote r r := ⟨r.conditions, rfl⟩

theorem Wrote.trans {r r' r'' : Resource} (h : Wrote r r') (h' : Wrote r' r'') :
    Wrote r r'' := by
  obtain ⟨cs, rfl⟩ := h
  obtain ⟨cs', rfl⟩ := h'
  exact ⟨cs', rfl⟩

theorem wrote_setConditions (r : Resource) (cs : List Condition) : Wrote r (r.setConditions cs) :=
  ⟨_, rfl⟩

theorem wrote_bind (now : Instant) (r : Resource) : Wrote r (r.bind now) := by
  rw [bind_eq]
  split
  · exact Wrote.refl r
  · exact wrote_setConditions r _

theorem wrote_recomputeRoot (clock : Readings) (r : Resource) :
    Wrote r (r.recomputeRoot clock) := by
  rcases recomputeRoot_cases clock r with ⟨-, -, -, heq⟩ | ⟨-, heq⟩
  · rw [heq]
    exact Wrote.refl r
  · rw [heq]
    exact wrote_setConditions r _

theorem wrote_put (clock : Readings) (r : Resource) (c : Condition) :
    Wrote r (r.put clock c) := by
  rw [put]
  split
  · exact wrote_setConditions r _
  · exact (wrote_setConditions r _).trans (wrote_recomputeRoot clock _)

end Resource

/-! ## Runs -/

namespace ConditionSet

open Resource (Wrote)

theorem run_cons (r : Resource) (s : Request) (steps : List Request) :
    run r (s :: steps) =
      let next := s.perform r
      let rest := run next.1 steps
      (rest.1, next.2 :: rest.2) := rfl

/-- One more step at the end of a run. -/
theorem run_concat (steps : List Request) (s : Request) : ∀ r : Resource,
    run r (steps ++ [s]) =
      let front := run r steps
      let last := s.perform front.1
      (last.1, front.2 ++ [last.2]) := by
  induction steps with
  | nil => exact fun _ => rfl
  | cons s' steps ih =>
    intro r
    simp only [List.cons_append, run_cons, ih]

/-- An operation writes the condition list and nothing else. -/
theorem wrote_perform (clock : Readings) (r : Resource) (op : Operation) :
    Wrote r (op.perform clock r).1 := by
  cases op with
  | bind => exact Resource.wrote_bind clock.now r
  | set c =>
    rw [Operation.perform]
    rcases Resource.set_cases clock r c with ⟨-, -, -, heq⟩ | ⟨-, heq⟩
    · rw [heq]
      exact Wrote.refl r
    · rw [heq]
      exact Resource.wrote_put clock r c
  | clear type =>
    rw [Operation.perform]
    rcases Resource.clear_cases r type with ⟨-, heq⟩ | ⟨-, -, heq⟩ | ⟨-, -, heq⟩
    · rw [heq]
      exact Wrote.refl r
    · rw [heq]
      exact Wrote.refl r
    · rw [heq]
      exact Resource.wrote_setConditions r _

/-- A resource at a generation. -/
def atGeneration (r : Resource) (generation : Int64) : Resource :=
  { r with metadata := { r.metadata with generation } }

theorem perform_eq (r : Resource) (s : Request) :
    s.perform r = s.operation.perform s.toReadings (atGeneration r s.generation) := rfl

/-- A set that changed something. -/
def changes (e : Request × Answer) : Bool :=
  match e.1.operation with
  | .set _ => e.2 = .changed true
  | _ => false

theorem changes_of_bind {s : Request} (h : s.operation = .bind) (answer : Answer) :
    changes (s, answer) = false := by
  simp [changes, h]

/-- What a step can do: bind, nothing, store a condition, or drop a type outside the schema. -/
theorem perform_cases (r : Resource) (s : Request) :
    (s.operation = .bind ∧ (s.perform r).1 = (atGeneration r s.generation).bind s.now) ∨
      (changes (s, (s.perform r).2) = false ∧ (s.perform r).1 = atGeneration r s.generation) ∨
      (∃ c, s.operation = .set c ∧ (s.perform r).2 = .changed true ∧
        (∀ old, r.get? c.type = some old → old.sameState c = false) ∧
        (s.perform r).1 = (atGeneration r s.generation).put s.toReadings c) ∨
      (∃ type, changes (s, (s.perform r).2) = false ∧
        r.conditionTypes.contains type = false ∧
        (s.perform r).1 = (atGeneration r s.generation).dropped type) := by
  rw [perform_eq]
  -- only a set counts as a change, as no root is derived from what is cleared
  cases hop : s.operation with
  | bind => exact Or.inl ⟨rfl, rfl⟩
  | set c =>
    unfold Operation.perform
    simp only
    rcases Resource.set_cases s.toReadings (atGeneration r s.generation) c with
      ⟨-, -, -, heq⟩ | ⟨hnew, heq⟩
    · rw [heq]
      exact Or.inr (Or.inl ⟨by simp [changes, hop], rfl⟩)
    · rw [heq]
      exact Or.inr (Or.inr (Or.inl ⟨c, rfl, rfl, hnew, rfl⟩))
  | clear type =>
    unfold Operation.perform
    simp only
    rcases Resource.clear_cases (atGeneration r s.generation) type with
      ⟨-, heq⟩ | ⟨-, -, heq⟩ | ⟨hschema, -, heq⟩
    · rw [heq]
      exact Or.inr (Or.inl ⟨by simp [changes, hop], rfl⟩)
    · rw [heq]
      exact Or.inr (Or.inl ⟨by simp [changes, hop], rfl⟩)
    · rw [heq]
      exact Or.inr (Or.inr (Or.inr ⟨type, by simp [changes, hop], hschema, rfl⟩))

/-- Steps change neither the schema nor what is lost. -/
theorem frame_perform (r : Resource) (s : Request) :
    (s.perform r).1.conditionTypes = r.conditionTypes ∧ (s.perform r).1.lost = r.lost := by
  rcases perform_cases r s with ⟨-, h⟩ | ⟨-, h⟩ | ⟨c, -, -, -, h⟩ | ⟨type, -, -, h⟩ <;> rw [h]
  · exact ⟨Resource.conditionTypes_bind _ _, Resource.lost_bind _ _⟩
  · exact ⟨rfl, rfl⟩
  · unfold Resource.put
    split
    · exact ⟨rfl, rfl⟩
    · exact Resource.frame_recomputeRoot _ _
  · exact ⟨rfl, rfl⟩

theorem frame_run (steps : List Request) : ∀ r : Resource,
    (run r steps).1.conditionTypes = r.conditionTypes ∧ (run r steps).1.lost = r.lost := by
  induction steps with
  | nil => exact fun _ => ⟨rfl, rfl⟩
  | cons s steps ih =>
    intro r
    have hstep := frame_perform r s
    have hrest := ih (s.perform r).1
    exact ⟨hrest.1.trans hstep.1, hrest.2.trans hstep.2⟩

/-- Every step has an answer. -/
theorem length_run (steps : List Request) :
    ∀ r : Resource, (run r steps).2.length = steps.length := by
  induction steps with
  | nil => exact fun _ => rfl
  | cons s steps ih =>
    intro r
    rw [run_cons, List.length_cons, List.length_cons, ih]

/-- The steps of a run with their answers. -/
def log (r : Resource) (steps : List Request) : List (Request × Answer) := steps.zip (run r steps).2

theorem log_concat (r : Resource) (steps : List Request) (s : Request) :
    log r (steps ++ [s]) = log r steps ++ [(s, (s.perform (run r steps).1).2)] := by
  unfold log
  rw [run_concat, List.zip_append (length_run steps r).symm]
  rfl

end ConditionSet

end StatusWatch
