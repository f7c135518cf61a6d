import Mathlib.Data.List.Induction
import StatusWatch.Proofs.ConditionSets

/-!
# The derived root

The root of a schema is not set like other conditions: every set of another type that
changes something derives it from the dependents. This module states what the derived
root is without saying how it is computed, and shows that the root stays derived until
somebody sets it directly, whatever else is done to the list and whatever its store loses.

- `DerivedRoot`: the root as the dependents determine it; `DerivedRoot.message_eq`: there is only
  one message that it can have.
- `ConditionSet.log`, `DependentsLast`: the answers of a run; somebody changed another
  type and nobody has changed the root since.
- `Complete`, `Stripped`, `Settled`: what holds once the schema is bound, once the list
  has been written, and once the root has been derived.
- `root_derived`: after a run the root is the derived one if the dependents came last.
-/

namespace StatusWatch

open Condition (Distinct)
open ConditionSet (Answer Operation Request)

/-! ## Schemas -/

namespace ConditionTypes

theorem distinct_spec (ds : List String) : ∀ seen : List String,
    (distinct seen ds).Nodup ∧ ∀ d, d ∈ distinct seen ds ↔ d ∈ ds ∧ d ∉ seen := by
  induction ds with
  | nil => exact fun _ => ⟨List.nodup_nil, fun d => by simp [distinct]⟩
  | cons d₀ ds ih =>
    intro seen
    unfold distinct
    split
    · rename_i hseen
      refine ⟨(ih seen).1, fun d => ?_⟩
      rw [(ih seen).2, List.mem_cons]
      constructor
      · exact fun h => ⟨Or.inr h.1, h.2⟩
      · rintro ⟨rfl | h, hd⟩
        · exact absurd hseen hd
        · exact ⟨h, hd⟩
    · rename_i hseen
      obtain ⟨hnodup, hmem⟩ := ih (d₀ :: seen)
      refine ⟨List.nodup_cons.mpr ⟨fun h => ?_, hnodup⟩, fun d => ?_⟩
      · exact ((hmem d₀).mp h).2 List.mem_cons_self
      · rw [List.mem_cons, hmem, List.mem_cons, List.mem_cons]
        constructor
        · rintro (rfl | ⟨h, hd⟩)
          · exact ⟨Or.inl rfl, hseen⟩
          · exact ⟨Or.inr h, fun hs => hd (Or.inr hs)⟩
        · rintro ⟨hd, hs⟩
          by_cases heq : d = d₀
          · exact Or.inl heq
          · exact Or.inr ⟨hd.resolve_left heq, fun h => h.elim heq hs⟩

theorem mem_dependents_of {root d : String} {ds : List String} :
    d ∈ (of root ds).dependents ↔ d ∈ ds ∧ d ≠ root := by
  show d ∈ distinct [root] ds ↔ _
  rw [(distinct_spec ds [root]).2, List.mem_singleton]

theorem nodup_dependents_of (root : String) (ds : List String) : (of root ds).dependents.Nodup :=
  (distinct_spec ds [root]).1

theorem mem_all {t : ConditionTypes} {type : String} :
    type ∈ t.all ↔ type ∈ t.dependents ∨ type = t.root := by
  simp [all]

theorem contains_iff {t : ConditionTypes} {type : String} :
    t.contains type = true ↔ type ∈ t.all := by
  rw [mem_all, contains, isRoot, isDependent, Bool.or_eq_true, decide_eq_true_eq,
    List.contains_iff_mem, eq_comm, or_comm]

end ConditionTypes

/-! ## What the root is -/

namespace Resource

/-- A dependent as the root sees it: one that is missing is unknown as of the reading at which
it is looked for. -/
def seen (clock : Readings) (r : Resource) (d : String) : Condition :=
  (r.get? d).getD
    (Condition.of (clock.missingAt (r.conditionTypes.dependents.idxOf d)) d .unknown)

/-- The later transition comes first, and of two at one time the smaller type. -/
def ReportedBefore (a b : Condition) : Prop :=
  b.lastTransition.rank < a.lastTransition.rank ∨
    (a.lastTransition.rank = b.lastTransition.rank ∧ a.type ≤ b.type)

/-- The root as the dependents of a resource determine it when the clock shows
these readings. -/
structure DerivedRoot (root : String) (ds : List String) (clock : Readings) (r : Resource)
    (c : Condition) : Prop where
  severity : c.severity = .error
  /-- If all dependents are true, so is the root, with its type as the reason. -/
  healthy : (∀ d ∈ ds, d ≠ root → (r.seen clock d).status = .true) →
    c.status = .true ∧ c.reason = root ∧ c.message = ""
  /-- Otherwise it is false if a dependent is and unknown if none is, and its message
  reports exactly the dependents that are not true. -/
  unhealthy : (∃ d ∈ ds, d ≠ root ∧ (r.seen clock d).status ≠ .true) →
    c.reason = unhealthyReason ∧
    ((∃ d ∈ ds, d ≠ root ∧ (r.seen clock d).status = .false) → c.status = .false) ∧
    ((¬ ∃ d ∈ ds, d ≠ root ∧ (r.seen clock d).status = .false) → c.status = .unknown) ∧
    ∃ bad : List Condition, Distinct bad ∧
      (∀ b, b ∈ bad ↔ ∃ d ∈ ds, d ≠ root ∧ r.seen clock d = b ∧ b.status ≠ .true) ∧
      bad.Pairwise ReportedBefore ∧
      c.message = ", ".intercalate (bad.map fun b => b.type ++ "=" ++ b.status.text)

theorem type_seen (clock : Readings) (r : Resource) (d : String) : (r.seen clock d).type = d := by
  unfold seen
  cases h : r.get? d with
  | none => rfl
  | some c => exact type_of_get? h

/-- Only what a condition says matters for being the derived root. -/
theorem DerivedRoot.of_sameState {root : String} {ds : List String} {clock : Readings}
    {r : Resource} {c c' : Condition} (h : DerivedRoot root ds clock r c')
    (hsame : c.sameState c' = true) :
    DerivedRoot root ds clock r c := by
  obtain ⟨hstatus, hreason, hmessage, hseverity⟩ := sameState_iff.mp hsame
  exact
    { severity := hseverity.trans h.severity
      healthy := by rw [hstatus, hreason, hmessage]; exact h.healthy
      unhealthy := by rw [hstatus, hreason, hmessage]; exact h.unhealthy }

/-- Conditions of different types are never reported each before the other. -/
theorem ReportedBefore.type_eq {a b : Condition} (hab : ReportedBefore a b)
    (hba : ReportedBefore b a) : a.type = b.type := by
  rcases hab with hab | ⟨hrank, hab⟩
  · rcases hba with hba | ⟨hrank, -⟩ <;> omega
  · rcases hba with hba | ⟨-, hba⟩
    · omega
    · exact String.le_antisymm hab hba

/-- Only one list of dependents that are not true has the order of the report, so the message is
known. -/
theorem DerivedRoot.message_eq {root : String} {ds : List String} {clock : Readings} {r : Resource}
    {c : Condition} (h : DerivedRoot root ds clock r c) (bad : List Condition)
    (hne : bad ≠ []) (hdistinct : Distinct bad)
    (hmem : ∀ b, b ∈ bad ↔ ∃ d ∈ ds, d ≠ root ∧ r.seen clock d = b ∧ b.status ≠ .true)
    (hsorted : bad.Pairwise ReportedBefore) :
    c.message = ", ".intercalate (bad.map fun b => b.type ++ "=" ++ b.status.text) := by
  obtain ⟨b, hb⟩ := List.exists_mem_of_ne_nil _ hne
  obtain ⟨d, hd, hroot, rfl, hstatus⟩ := (hmem b).mp hb
  obtain ⟨-, -, -, bad', hdistinct', hmem', hsorted', hmessage⟩ :=
    h.unhealthy ⟨d, hd, hroot, hstatus⟩
  have hperm : bad'.Perm bad :=
    (List.perm_ext_iff_of_nodup (.of_map _ hdistinct') (.of_map _ hdistinct)).mpr fun b =>
      (hmem' b).trans (hmem b).symm
  have heq : bad' = bad := by
    refine hperm.eq_of_pairwise (fun a b ha hb hab hba => ?_) hsorted' hsorted
    exact List.inj_on_of_nodup_map hdistinct' ha (hperm.mem_iff.mpr hb) (hab.type_eq hba)
  rw [hmessage, heq]

/-! ## What is computed -/

theorem laterFirst_iff {a b : Condition} : laterFirst a b = true ↔ ReportedBefore a b := by
  simp [laterFirst, ReportedBefore]

theorem laterFirst_trans (a b c : Condition) (hab : laterFirst a b = true)
    (hbc : laterFirst b c = true) : laterFirst a c = true := by
  rw [laterFirst_iff] at *
  unfold ReportedBefore at *
  rcases hab with hab | ⟨hab, hab'⟩ <;> rcases hbc with hbc | ⟨hbc, hbc'⟩
  · exact Or.inl (by omega)
  · exact Or.inl (by omega)
  · exact Or.inl (by omega)
  · exact Or.inr ⟨by omega, String.le_trans hab' hbc'⟩

theorem laterFirst_total (a b : Condition) : (laterFirst a b || laterFirst b a) = true := by
  rw [Bool.or_eq_true, laterFirst_iff, laterFirst_iff]
  unfold ReportedBefore
  rcases Int.lt_trichotomy a.lastTransition.rank b.lastTransition.rank with h | h | h
  · exact Or.inr (Or.inl h)
  · rcases String.le_total a.type b.type with h' | h'
    · exact Or.inl (Or.inr ⟨h, h'⟩)
    · exact Or.inr (Or.inr ⟨h.symm, h'⟩)
  · exact Or.inl (Or.inl h)

/-- Clocks that agree on the dependents that are missing find the same ones unhealthy. -/
theorem unhealthy_congr {r : Resource} {clock clock' : Readings}
    (h : ∀ i (hi : i < r.conditionTypes.dependents.length),
      r.get? r.conditionTypes.dependents[i] = none → clock.missingAt i = clock'.missingAt i) :
    r.unhealthy clock = r.unhealthy clock' := by
  refine congrArg _ (List.ext_getElem (by simp) fun i hi _ => ?_)
  rw [List.length_mapIdx] at hi
  rw [List.getElem_mapIdx, List.getElem_mapIdx]
  cases hget : r.get? r.conditionTypes.dependents[i] with
  | none => rw [h i hi hget]
  | some c => rfl

section Derived

variable {root : String} {ds : List String} {r : Resource}
  (h : r.conditionTypes = ConditionTypes.of root ds) (clock : Readings)

include h

/-- Every dependent has a place of its own, and with it a reading of its own. -/
theorem unhealthy_eq : r.unhealthy clock =
    (r.conditionTypes.dependents.map (r.seen clock)).filter fun c => !c.isTrue := by
  have hnodup : r.conditionTypes.dependents.Nodup := by
    rw [h]
    exact ConditionTypes.nodup_dependents_of root ds
  refine congrArg _ (List.ext_getElem (by simp) fun i hi _ => ?_)
  simp [seen, hnodup.idxOf_getElem i]

theorem mem_unhealthy {b : Condition} : b ∈ r.unhealthy clock ↔
    ∃ d ∈ ds, d ≠ root ∧ r.seen clock d = b ∧ b.status ≠ .true := by
  rw [unhealthy_eq h, List.mem_filter, List.mem_map, h]
  simp only [ConditionTypes.mem_dependents_of, Condition.isTrue, Bool.not_eq_true',
    decide_eq_false_iff_not]
  constructor
  · rintro ⟨⟨d, ⟨hd, hne⟩, rfl⟩, hb⟩
    exact ⟨d, hd, hne, rfl, hb⟩
  · rintro ⟨d, hd, hne, rfl, hb⟩
    exact ⟨⟨d, ⟨hd, hne⟩, rfl⟩, hb⟩

theorem distinct_unhealthy : Distinct (r.unhealthy clock) := by
  rw [unhealthy_eq h]
  refine Distinct.filter ?_ _
  unfold Distinct
  have htypes : (r.conditionTypes.dependents.map (r.seen clock)).map (·.type) =
      r.conditionTypes.dependents := by
    rw [List.map_map]
    exact (List.map_congr_left fun d _ => r.type_seen clock d).trans (List.map_id _)
  show ((r.conditionTypes.dependents.map (r.seen clock)).map (·.type)).Nodup
  rw [htypes, h]
  exact ConditionTypes.nodup_dependents_of root ds

/-- The computed root is the derived one. -/
theorem derivedRoot_spec : DerivedRoot root ds clock r (r.derivedRoot clock) := by
  have hroot : r.conditionTypes.root = root := by rw [h]; rfl
  unfold derivedRoot
  simp only
  by_cases hbad : r.unhealthy clock = []
  · -- nothing to report, so every dependent is true
    rw [if_pos hbad]
    have hall : ∀ d ∈ ds, d ≠ root → (r.seen clock d).status = .true := by
      intro d hd hne
      by_contra hstatus
      have := (mem_unhealthy h clock).mpr ⟨d, hd, hne, rfl, hstatus⟩
      rw [hbad] at this
      cases this
    refine { severity := rfl, healthy := fun _ => ⟨rfl, hroot, rfl⟩, unhealthy := ?_ }
    rintro ⟨d, hd, hne, hstatus⟩
    exact absurd (hall d hd hne) hstatus
  · -- the sorted list is what the message reports
    rw [if_neg hbad]
    obtain ⟨b, hb⟩ := List.exists_mem_of_ne_nil _ hbad
    have hany : (r.unhealthy clock).any Condition.isFalse = true ↔
        ∃ d ∈ ds, d ≠ root ∧ (r.seen clock d).status = .false := by
      rw [List.any_eq_true]
      simp only [mem_unhealthy h clock, Condition.isFalse, decide_eq_true_eq]
      constructor
      · rintro ⟨-, ⟨d, hd, hne, rfl, -⟩, hfalse⟩
        exact ⟨d, hd, hne, hfalse⟩
      · rintro ⟨d, hd, hne, hfalse⟩
        exact ⟨_, ⟨d, hd, hne, rfl, by rw [hfalse]; decide⟩, hfalse⟩
    refine { severity := rfl, healthy := ?_, unhealthy := ?_ }
    · intro hall
      obtain ⟨d, hd, hne, rfl, hstatus⟩ := (mem_unhealthy h clock).mp hb
      exact absurd (hall d hd hne) hstatus
    · intro _
      refine ⟨rfl, fun hfalse => ?_, fun hfalse => ?_, (r.unhealthy clock).mergeSort laterFirst,
        ?_, ?_, ?_, rfl⟩
      · show (if _ then _ else _) = _
        rw [if_pos (hany.mpr hfalse)]
      · show (if _ then _ else _) = _
        rw [if_neg fun hany' => hfalse (hany.mp hany')]
      · exact ((List.mergeSort_perm _ _).map _).nodup_iff.mpr (distinct_unhealthy h clock)
      · intro b'
        rw [List.mem_mergeSort]
        exact mem_unhealthy h clock
      · exact (List.pairwise_mergeSort laterFirst_trans laterFirst_total _).imp
          laterFirst_iff.mp

end Derived

/-! ## What steps keep -/

/-- Every type of the schema that is not lost is there. -/
def Complete (r : Resource) : Prop :=
  ∀ d ∈ r.conditionTypes.all, d ∉ r.lost → (r.get? d).isSome

/-- No type that is lost is there. -/
def Stripped (r : Resource) : Prop := ∀ d ∈ r.lost, r.get? d = none

/-- The root is the one that was derived when the clock showed these readings. -/
def Settled (clock : Readings) (r : Resource) : Prop :=
  ∃ c, r.root? = some c ∧ c.sameState (r.derivedRoot clock) = true

theorem stripped_setConditions (r : Resource) (cs : List Condition) :
    (r.setConditions cs).Stripped := by
  intro d hd
  rw [get?_setConditions]
  exact if_pos hd

/-- What is derived depends on the dependents alone. -/
theorem derivedRoot_congr {r r' : Resource} (htypes : r'.conditionTypes = r.conditionTypes)
    (h : ∀ d ∈ r.conditionTypes.dependents, r'.get? d = r.get? d)
    (clock : Readings) : r'.derivedRoot clock = r.derivedRoot clock := by
  have hbad : r'.unhealthy clock = r.unhealthy clock := by
    rw [unhealthy, unhealthy, htypes]
    refine congrArg _ (List.ext_getElem (by simp) fun i hi _ => ?_)
    simp [h _ (List.getElem_mem _)]
  unfold derivedRoot
  rw [hbad, htypes]

theorem Settled.congr {clock : Readings} {r r' : Resource} (hs : Settled clock r)
    (htypes : r'.conditionTypes = r.conditionTypes)
    (h : ∀ d ∈ r.conditionTypes.all, r'.get? d = r.get? d) : Settled clock r' := by
  obtain ⟨c, hc, hsame⟩ := hs
  refine ⟨c, ?_, ?_⟩
  · unfold root? at hc ⊢
    rw [htypes, h _ (ConditionTypes.mem_all.mpr (Or.inr rfl)), hc]
  · rw [derivedRoot_congr htypes fun d hd => h d (ConditionTypes.mem_all.mpr (Or.inl hd))]
    exact hsame

/-- Storing a condition takes no other away. -/
theorem Complete.store {r : Resource} (hr : r.Complete) (c : Condition) : (r.store c).Complete := by
  intro d hd hkept
  rw [lost_store] at hkept
  rw [get?_store, if_neg hkept]
  split
  · rfl
  · exact hr d hd hkept

theorem Complete.recomputeRoot {r : Resource} (hr : r.Complete) (clock : Readings) :
    (r.recomputeRoot clock).Complete := by
  rcases recomputeRoot_cases clock r with ⟨-, -, -, heq⟩ | ⟨-, heq⟩
  · rw [heq]
    exact hr
  · rw [heq]
    exact hr.store _

/-- Dropping a type outside the schema changes no lookup of the schema, apart from what is
lost. -/
theorem get?_dropped_of_schema {r : Resource} {type d : String}
    (hschema : r.conditionTypes.contains type = false) (hd : d ∈ r.conditionTypes.all)
    (hkept : d ∉ r.lost) : (r.dropped type).get? d = r.get? d := by
  rw [get?_dropped, if_neg hkept, if_neg]
  rintro rfl
  rw [ConditionTypes.contains_iff.mpr hd] at hschema
  cases hschema

theorem complete_bind (now : Instant) (r : Resource) : (r.bind now).Complete := by
  intro d hd hkept
  rw [conditionTypes_bind] at hd
  rw [lost_bind] at hkept
  rw [get?_bind now r hkept, if_pos hd]
  cases r.get? d <;> rfl

/-- Binding a complete list changes no lookup of the schema. -/
theorem get?_bind_of_complete {r : Resource} (hr : r.Complete) (hstripped : r.Stripped)
    (now : Instant) {d : String} (hd : d ∈ r.conditionTypes.all) :
    (r.bind now).get? d = r.get? d := by
  by_cases hlost : d ∈ r.lost
  · rw [hstripped d hlost, bind_eq]
    split
    · exact hstripped d hlost
    · exact stripped_setConditions r _ d hlost
  · obtain ⟨c, hc⟩ := Option.isSome_iff_exists.mp (hr d hd hlost)
    rw [get?_bind now r hlost, hc, Option.some_or]

theorem stripped_put (clock : Readings) (r : Resource) (c : Condition) :
    (r.put clock c).Stripped := by
  unfold put
  split
  · exact stripped_setConditions r _
  · rcases recomputeRoot_cases clock (r.store (stamped clock.now r c)) with
      ⟨-, -, -, heq⟩ | ⟨-, heq⟩
    · rw [heq]
      exact stripped_setConditions r _
    · rw [heq]
      exact stripped_setConditions _ _

/-- Deriving the root settles it. -/
theorem settled_recomputeRoot {r : Resource} {root : String} {ds : List String}
    (hschema : r.conditionTypes = ConditionTypes.of root ds) (hroot : root ∉ r.lost)
    (hstripped : r.Stripped) (clock : Readings) : Settled clock (r.recomputeRoot clock) := by
  rcases recomputeRoot_cases clock r with ⟨old, hold, hsame, heq⟩ | ⟨-, heq⟩
  · rw [heq]
    exact ⟨old, hold, hsame⟩
  · have hrootType : r.conditionTypes.root = root := by rw [hschema]; rfl
    rw [heq]
    -- the dependents are read as before, since the root is none of them
    have hsame : ∀ d ∈ r.conditionTypes.dependents,
        (r.store (stamped clock.root r (r.derivedRoot clock))).get? d = r.get? d := by
      intro d hd
      rw [get?_store]
      split
      · rename_i hlost
        exact (hstripped d hlost).symm
      · rw [hschema, ConditionTypes.mem_dependents_of] at hd
        rw [if_neg]
        rw [type_stamped, type_derivedRoot, hrootType]
        exact fun e => hd.2 e.symm
    refine ⟨stamped clock.root r (r.derivedRoot clock), ?_, ?_⟩
    · show (r.store _).get? r.conditionTypes.root = _
      rw [get?_store, hrootType, if_neg hroot,
        if_pos (by rw [type_stamped, type_derivedRoot, hrootType])]
    · rw [derivedRoot_congr (conditionTypes_store r _) hsame]
      exact sameState_iff.mpr ⟨rfl, rfl, rfl, rfl⟩

end Resource

namespace ConditionSet

open Resource (Complete Settled Stripped)

/-! ## What a run tells -/

/-- The clock readings of the last set that changed something. -/
def lastChange? (entries : List (Request × Answer)) : Option Readings :=
  (entries.reverse.find? changes).map (·.1.toReadings)

/-- A set of another type than the root has changed something, and no set of the root has
since. -/
def DependentsLast (root : String) (entries : List (Request × Answer)) : Prop :=
  ∃ front s c back, entries = front ++ (s, .changed true) :: back ∧ s.operation = .set c ∧
    c.type ≠ root ∧
    ∀ e ∈ back, ∀ c', e.1.operation = .set c' → e.2 = .changed true → c'.type ≠ root

theorem lastChange?_concat (entries : List (Request × Answer)) (e : Request × Answer) :
    lastChange? (entries ++ [e]) =
      if changes e then some e.1.toReadings else lastChange? entries := by
  unfold lastChange?
  rw [List.reverse_append, List.reverse_singleton, List.singleton_append, List.find?_cons]
  cases changes e <;> rfl

/-- What the last entry has to do with it. -/
theorem dependentsLast_concat {root : String} {entries : List (Request × Answer)}
    {e : Request × Answer} (h : DependentsLast root (entries ++ [e])) :
    (∀ c, e.1.operation = .set c → e.2 = .changed true → c.type ≠ root) ∧
      (changes e = false → DependentsLast root entries) := by
  obtain ⟨front, s, c, back, hsplit, hset, hc, hback⟩ := h
  rcases List.eq_nil_or_concat back with rfl | ⟨back, e', rfl⟩
  · -- the last entry is the change itself
    obtain ⟨-, heq⟩ := List.append_inj' hsplit rfl
    obtain rfl : e = (s, .changed true) := by simpa using heq
    refine ⟨fun c' hset' _ => ?_, fun hquiet => ?_⟩
    · obtain rfl : c = c' := Operation.set.inj (hset.symm.trans hset')
      exact hc
    · simp [changes, hset] at hquiet
  · rw [List.concat_eq_append] at hsplit hback
    have hsplit : entries ++ [e] = (front ++ (s, .changed true) :: back) ++ [e'] := by
      simpa using hsplit
    obtain ⟨rfl, heq⟩ := List.append_inj' hsplit rfl
    obtain rfl : e = e' := by simpa using heq
    refine ⟨hback e (by simp), fun _ => ⟨front, s, c, back, rfl, hset, hc, ?_⟩⟩
    exact fun e' he' => hback e' (List.mem_append_left _ he')

/-- An entry that is no set does not come last. -/
theorem dependentsLast_of_cons {root : String} {entries : List (Request × Answer)}
    {e : Request × Answer} (he : ∀ c, e.1.operation ≠ .set c)
    (h : DependentsLast root (e :: entries)) : DependentsLast root entries := by
  obtain ⟨front, s, c, back, hsplit, hset, hrest⟩ := h
  cases front with
  | nil =>
    obtain ⟨rfl, -⟩ := List.cons.inj hsplit
    exact absurd hset (he c)
  | cons e' front => exact ⟨front, s, c, back, (List.cons.inj hsplit).2, hset, hrest⟩

theorem lastChange?_cons_of_some {entries : List (Request × Answer)} {e : Request × Answer}
    {clock : Readings} (h : lastChange? entries = some clock) :
    lastChange? (e :: entries) = some clock := by
  unfold lastChange? at h ⊢
  obtain ⟨e', he', ht⟩ := Option.map_eq_some_iff.mp h
  rw [List.reverse_cons, List.find?_append, he', Option.some_or]
  exact congrArg some ht

/-! ## Steps -/

theorem complete_perform {r : Resource} (h : r.Complete) (s : Request) :
    (s.perform r).1.Complete := by
  have hgeneration : (atGeneration r s.generation).Complete := h
  rcases perform_cases r s with ⟨-, heq⟩ | ⟨-, heq⟩ | ⟨c, -, -, -, heq⟩ |
    ⟨type, -, hschema, heq⟩ <;>
    rw [heq]
  · exact Resource.complete_bind _ _
  · exact h
  · unfold Resource.put
    split
    · exact hgeneration.store _
    · exact (hgeneration.store _).recomputeRoot _
  · intro d hd hkept
    have hsame :=
      Resource.get?_dropped_of_schema (r := atGeneration r s.generation) hschema hd hkept
    rw [hsame]
    exact h d hd hkept

theorem stripped_perform {r : Resource} (h : r.Stripped) (s : Request) :
    (s.perform r).1.Stripped := by
  rcases perform_cases r s with ⟨-, heq⟩ | ⟨-, heq⟩ | ⟨c, -, -, -, heq⟩ | ⟨type, -, -, heq⟩ <;>
    rw [heq]
  · rw [Resource.bind_eq]
    split
    · exact h
    · exact Resource.stripped_setConditions _ _
  · exact h
  · exact Resource.stripped_put _ _ _
  · exact Resource.stripped_setConditions _ _

/-- A step that sets nothing changes no lookup of the schema. -/
theorem get?_perform_of_quiet {r : Resource} (hcomplete : r.Complete) (hstripped : r.Stripped)
    {s : Request} (hquiet : changes (s, (s.perform r).2) = false) {d : String}
    (hd : d ∈ r.conditionTypes.all) : (s.perform r).1.get? d = r.get? d := by
  rcases perform_cases r s with ⟨-, heq⟩ | ⟨-, heq⟩ | ⟨c, hset, hchanged, -, -⟩ |
    ⟨type, -, hschema, heq⟩
  · rw [heq]
    have hgeneration : (atGeneration r s.generation).Complete := hcomplete
    exact Resource.get?_bind_of_complete hgeneration hstripped s.now hd
  · rw [heq]
    rfl
  · simp [changes, hset, hchanged] at hquiet
  · rw [heq]
    by_cases hlost : d ∈ r.lost
    · rw [hstripped d hlost]
      exact Resource.stripped_setConditions (atGeneration r s.generation) _ d hlost
    · exact Resource.get?_dropped_of_schema hschema hd hlost

/-- A set of another type than the root settles the root. -/
theorem settled_perform {r : Resource} {root : String} {ds : List String}
    (hschema : r.conditionTypes = ConditionTypes.of root ds) (hroot : root ∉ r.lost) {s : Request}
    (hchange : changes (s, (s.perform r).2) = true)
    (hother : ∀ c, s.operation = .set c → (s.perform r).2 = .changed true → c.type ≠ root) :
    (s.perform r).1.Stripped ∧ Settled s.toReadings (s.perform r).1 := by
  rcases perform_cases r s with ⟨hbind, -⟩ | ⟨hquiet, -⟩ | ⟨c, hset, hchanged, -, heq⟩ |
    ⟨type, hquiet, -⟩
  · rw [changes_of_bind hbind] at hchange
    cases hchange
  · rw [hchange] at hquiet
    cases hquiet
  · rw [heq]
    refine ⟨Resource.stripped_put _ _ _, ?_⟩
    have hne : c.type ≠ r.conditionTypes.root := by
      rw [hschema]
      exact hother c hset hchanged
    let stored := (atGeneration r s.generation).store
      (Resource.stamped s.now (atGeneration r s.generation) c)
    have hput : (atGeneration r s.generation).put s.toReadings c =
        stored.recomputeRoot s.toReadings :=
      if_neg hne
    have htypes : stored.conditionTypes = ConditionTypes.of root ds := hschema
    have hkept : root ∉ stored.lost := hroot
    rw [hput]
    exact Resource.settled_recomputeRoot htypes hkept (Resource.stripped_setConditions _ _)
      s.toReadings
  · rw [hchange] at hquiet
    cases hquiet

/-! ## Runs -/

/-- What holds after a run that begins with a bound list. -/
structure Invariant (r : Resource) (steps : List Request) : Prop where
  types : (run r steps).1.conditionTypes = r.conditionTypes
  lost : (run r steps).1.lost = r.lost
  complete : (run r steps).1.Complete
  settled : DependentsLast r.conditionTypes.root (log r steps) →
    ∃ clock, lastChange? (log r steps) = some clock ∧ (run r steps).1.Stripped ∧
      Settled clock (run r steps).1

theorem invariant_run {r : Resource} {root : String} {ds : List String}
    (hschema : r.conditionTypes = ConditionTypes.of root ds) (hroot : root ∉ r.lost)
    (hcomplete : r.Complete) (steps : List Request) : Invariant r steps := by
  -- induction on the run, one step at its end
  induction steps using List.reverseRecOn with
  | nil =>
    refine { types := rfl, lost := rfl, complete := hcomplete, settled := ?_ }
    rintro ⟨front, s, c, back, hsplit, -⟩
    simp [log] at hsplit
  | append_singleton steps s ih =>
    have hrun : (run r (steps ++ [s])).1 = (s.perform (run r steps).1).1 := by rw [run_concat]
    have hframe := frame_perform (run r steps).1 s
    refine { types := ?_, lost := ?_, complete := ?_, settled := ?_ }
    · rw [hrun, hframe.1, ih.types]
    · rw [hrun, hframe.2, ih.lost]
    · rw [hrun]
      exact complete_perform ih.complete s
    · intro hlast
      rw [log_concat] at hlast
      obtain ⟨hother, hbefore⟩ := dependentsLast_concat hlast
      rw [log_concat, lastChange?_concat, hrun]
      cases hchange : changes (s, (s.perform (run r steps).1).2) with
      | true =>
        -- the step itself is the last change
        have htypes := ih.types.trans hschema
        have hkept : root ∉ (run r steps).1.lost := by rwa [ih.lost]
        have hothers : r.conditionTypes.root = root := by rw [hschema]; rfl
        rw [hothers] at hother
        exact ⟨s.toReadings, rfl, settled_perform htypes hkept hchange hother⟩
      | false =>
        -- nothing was set, so what was derived before still is
        obtain ⟨clock, hclock, hstripped, hsettled⟩ := ih.settled (hbefore hchange)
        refine ⟨clock, hclock, stripped_perform hstripped s, hsettled.congr hframe.1 fun d hd => ?_⟩
        exact get?_perform_of_quiet ih.complete hstripped hchange hd

/-- Once the schema is bound, the root is the derived one whenever a set of another type has
changed something and no set of the root has since. Whatever was lost counts as unknown, each
type as of the reading at which the last change looked for it. -/
theorem root_derived {r : Resource} {root : String} {ds : List String}
    (hschema : r.conditionTypes = ConditionTypes.of root ds) (hroot : root ∉ r.lost)
    (clock : Readings) (generation : Int64) (steps : List Request)
    (hlast : DependentsLast root (log r (⟨clock, generation, .bind⟩ :: steps))) :
    ∃ shown c, lastChange? (log r (⟨clock, generation, .bind⟩ :: steps)) = some shown ∧
      (run r (⟨clock, generation, .bind⟩ :: steps)).1.root? = some c ∧
      Resource.DerivedRoot root ds shown (run r (⟨clock, generation, .bind⟩ :: steps)).1 c := by
  let bound := (atGeneration r generation).bind clock.now
  have htypes : bound.conditionTypes = ConditionTypes.of root ds :=
    (Resource.conditionTypes_bind clock.now _).trans hschema
  have hkept : root ∉ bound.lost := by
    rw [Resource.lost_bind]
    exact hroot
  have hinvariant := invariant_run htypes hkept (Resource.complete_bind clock.now _) steps
  have hrun : (run r (⟨clock, generation, .bind⟩ :: steps)).1 = (run bound steps).1 := rfl
  have hlog : log r (⟨clock, generation, .bind⟩ :: steps) =
      (⟨clock, generation, .bind⟩, .done) :: log bound steps := rfl
  rw [hlog] at hlast ⊢
  rw [hrun]
  -- binding is no set, so the run from the bound list tells the same
  have hname : bound.conditionTypes.root = root := by rw [htypes]; rfl
  have hlast : DependentsLast bound.conditionTypes.root (log bound steps) := by
    rw [hname]
    exact dependentsLast_of_cons (by simp) hlast
  obtain ⟨shown, hshown, -, c, hc, hsame⟩ := hinvariant.settled hlast
  refine ⟨shown, c, lastChange?_cons_of_some hshown, hc, ?_⟩
  exact (Resource.derivedRoot_spec (hinvariant.types.trans htypes) shown).of_sameState hsame

/-- A resource with a stale root in its list twice, whose store loses both dependents. -/
def lossy : Resource :=
  { Resource.ofObject
      { metadata := .of .epoch "" "n"
        groupKind := ⟨"", "K"⟩
        conditionTypes := .of "Ready" ["B", "C", "B", "Ready"]
        conditions :=
          [.of .epoch "Ready" .true, .of .epoch "B" .true, .of .epoch "Ready" .false] } with
    lost := ["B", "C"] }

/-- A clock that shows another second at every reading. -/
def ticking : Readings :=
  let second (n : Nat) : Instant := (Instant.of? Date.epoch 0 n 0).getD .epoch
  ⟨second 1, [second 2, second 3], second 4⟩

/-- A condition outside the schema is set, and then the dependents are bound once more. -/
def failing : List Request :=
  [⟨ticking, 1, .set (.of .epoch "Z" .true)⟩, ⟨ticking, 2, .bind⟩]

/-- The set changes something, since nothing of its type was there; the store takes both dependents
away again. -/
theorem run_failing :
    log lossy (⟨ticking, 1, .bind⟩ :: failing) =
        [(⟨ticking, 1, .bind⟩, .done), (⟨ticking, 1, .set (.of .epoch "Z" .true)⟩, .changed true),
          (⟨ticking, 2, .bind⟩, .done)] ∧
      (run lossy (⟨ticking, 1, .bind⟩ :: failing)).1.Stripped := by
  let bound := (atGeneration lossy 1).bind ticking.now
  let setting : Request := ⟨ticking, 1, .set (.of .epoch "Z" .true)⟩
  have habsent : bound.get? "Z" = none := by
    rw [Resource.get?_bind _ _ (by decide)]
    rfl
  have hset : setting.perform bound =
      ((atGeneration bound 1).put ticking (.of .epoch "Z" .true), .changed true) := by
    rcases Resource.set_cases ticking (atGeneration bound 1) (.of .epoch "Z" .true) with
      ⟨old, hold, -⟩ | ⟨-, heq⟩
    · cases habsent.symm.trans hold
    · rw [perform_eq, Operation.perform, heq]
  constructor
  · show [_, (_, (setting.perform bound).2), _] = _
    rw [hset]
  · show ((⟨ticking, 2, .bind⟩ : Request).perform (setting.perform bound).1).1.Stripped
    rw [hset]
    exact stripped_perform (Resource.stripped_put _ _ _) _

/-- Both dependents are missing, so they are seen as of the readings that looked for them. -/
theorem seen_failing {d : String} (hd : d ∈ ["B", "C"]) :
    (run lossy (⟨ticking, 1, .bind⟩ :: failing)).1.seen ticking d =
      .of (ticking.missingAt (["B", "C"].idxOf d)) d .unknown := by
  obtain ⟨htypes, hlost⟩ := frame_run (⟨ticking, 1, .bind⟩ :: failing) lossy
  rw [Resource.seen, run_failing.2 d (hlost ▸ hd), htypes]
  rfl

/-- The root of a lossy resource: what was lost is reported in the order in which it was looked
for, the last one first. -/
theorem root_derived_failing :
    (∃ shown c, lastChange? (log lossy (⟨ticking, 1, .bind⟩ :: failing)) = some shown ∧
      (run lossy (⟨ticking, 1, .bind⟩ :: failing)).1.root? = some c ∧
      Resource.DerivedRoot "Ready" ["B", "C", "B", "Ready"] shown
        (run lossy (⟨ticking, 1, .bind⟩ :: failing)).1 c) ∧
    (run lossy (⟨ticking, 1, .bind⟩ :: failing)).1.root?.map (·.message) =
      some "C=Unknown, B=Unknown" := by
  have hlog := run_failing.1
  have hlast : DependentsLast "Ready" (log lossy (⟨ticking, 1, .bind⟩ :: failing)) := by
    rw [hlog]
    refine ⟨[_], _, .of .epoch "Z" .true, [_], rfl, rfl, by decide, fun e he c hset => ?_⟩
    rw [List.mem_singleton.mp he] at hset
    cases hset
  have hderived := root_derived rfl (by decide) ticking 1 failing hlast
  refine ⟨hderived, ?_⟩
  obtain ⟨shown, c, hshown, hroot, hderived⟩ := hderived
  rw [hlog] at hshown
  obtain rfl : ticking = shown := Option.some.inj hshown
  rw [hroot, Option.map_some, hderived.message_eq
    [.of (ticking.missingAt 1) "C" .unknown, .of (ticking.missingAt 0) "B" .unknown] (by simp)
    (by unfold Condition.Distinct; decide)]
  · rfl
  · intro b
    rw [List.mem_pair]
    constructor
    · rintro (rfl | rfl)
      · exact ⟨"C", by simp, by decide, seen_failing (by simp), by simp [Condition.of]⟩
      · exact ⟨"B", by simp, by decide, seen_failing (by simp), by simp [Condition.of]⟩
    · rintro ⟨d, hd, hne, rfl, -⟩
      simp only [List.mem_cons, List.not_mem_nil, or_false, hne] at hd
      rcases hd with rfl | rfl | rfl
      · exact Or.inr (seen_failing (by simp))
      · exact Or.inl (seen_failing (by simp))
      · exact Or.inr (seen_failing (by simp))
  · exact List.pairwise_pair.mpr (Or.inl (by decide))

end ConditionSet

end StatusWatch
