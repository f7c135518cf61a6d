import StatusWatch.Proofs.Creation
import StatusWatch.Proofs.SortedLists
import StatusWatch.Proofs.Transitions

/-!
# The order of a bound list

Lists of conditions, snapshots and the reports about them are meant to be in the order of types.
Nothing but a write sorts a list, and binding writes only if the schema lacks an entry: a complete
list keeps the order in which it was stored. This module says which lists are in order once they
are bound, and what that means for snapshots and events.

- `Lacking`, `ordered_bind_iff`: what binding puts in order.
- `announced`, `inTypeOrder_reconcile`: the events of a reconcile are in the order of the entries
  that they are about.
- `misled`: an observation before which makes any two entries be announced together.
- `ShownInOrder`, `shown_in_order`: lists, snapshots and events are in order for the same resources.
-/

namespace StatusWatch

open Condition (Ordered)
open Metrics (Registry)

namespace Resource

/-! ## Lists -/

/-- A type of the schema is not found in the list. -/
def Lacking (r : Resource) : Prop := ∃ type ∈ r.conditionTypes.all, r.get? type = none

/-- Binding sorts the list if an entry is missing, and leaves it alone otherwise. -/
theorem ordered_bind_iff (now : Instant) (r : Resource) :
    Ordered (r.bind now).conditions ↔ Ordered r.conditions ∨ r.Lacking := by
  have hcomplete : (∀ type ∈ r.conditionTypes.all, (r.get? type).isSome) ↔ ¬ r.Lacking := by
    unfold Lacking
    push Not
    simp only [Option.isSome_iff_ne_none]
  rw [bind_eq]
  split
  · rename_i hall
    exact ⟨Or.inl, fun h => h.resolve_right (hcomplete.mp hall)⟩
  · rename_i hmissing
    have hlacking : r.Lacking := not_not.mp (mt hcomplete.mpr hmissing)
    exact ⟨fun _ => Or.inr hlacking,
      fun _ => List.Pairwise.sublist List.filter_sublist (Condition.ordered_sortByType _)⟩

end Resource

namespace Watch

/-! ## Events -/

/-- The entries that a move is announced for: their status was another. -/
def announced (previous : Option Snapshot) (current : Snapshot) : List Condition :=
  current.conditions.filter fun c =>
    (previous.bind (·.get? c.type)).any fun old => old.status ≠ c.status

/-- The transitions among the events are in the order of types. -/
def InTypeOrder (events : List StatusEvent) : Prop :=
  (events.filter (·.isTransition)).Pairwise fun a b => a.reason ≤ b.reason

/-- There is one event for each of the entries, and its reason is the type. -/
theorem reasons_moves (now : Instant) (involved : ObjectReference) (previous : Option Snapshot)
    (current : Snapshot) :
    ((moves previous current).flatMap (Move.events now involved)).map (·.reason) =
      (announced previous current).map (·.type) := by
  unfold moves announced
  induction current.conditions with
  | nil => rfl
  | cons c cs ih =>
    rw [List.filterMap_cons, List.filter_cons]
    unfold Observer.movedFrom at ih ⊢
    cases hold : previous.bind (·.get? c.type) with
    | none => simpa [Move.events] using ih
    | some old =>
      -- an event is published only if the status has moved, and that is what is announced
      by_cases hsame : old.status = c.status
      · simpa [hsame] using ih
      · simpa [hsame, Move.events, StatusEvent.transition, StatusEvent.of] using ih

/-- The order of the events is that of the entries. -/
theorem inTypeOrder_reconcile (w : Watch) (now : Instant) (key : ResourceKey)
    (resource : Resource) :
    InTypeOrder (w.reconcile now key (.ok (some resource))).2.events ↔
      Ordered (announced (w.observer.snapshots.get? key) (observe now resource)) := by
  have hreasons := reasons_moves now (w.observer.reference key (observe now resource).uid)
    (w.observer.snapshots.get? key) (observe now resource)
  have hmap : ∀ events : List StatusEvent, events.Pairwise (fun a b => a.reason ≤ b.reason) ↔
      (events.map (·.reason)).Pairwise (· ≤ ·) := fun events => List.pairwise_map.symm
  unfold InTypeOrder
  rw [reconcile_eq w ⟨now, key, .ok (some resource)⟩, filter_published_found, hmap, hreasons]
  exact List.pairwise_map

/-! ## What was seen before -/

/-- The resource with two entries only, which say something else about two types. -/
def misled (resource : Resource) (a b : Condition) : Resource :=
  let other (c : Condition) : Condition :=
    { c with status := if c.status = .unknown then .true else .unknown }
  { resource with conditions := [other a, other b], lost := [] }

/-- Once that was seen, both types are found to have moved. -/
theorem announced_after_misled {now : Instant} (resource : Resource) {a b c : Condition}
    (hne : a.type ≠ b.type) (hc : c = a ∨ c = b) :
    (((observe now (misled resource a b)).get? c.type).any
      fun old => old.status ≠ c.status) = true := by
  have hget : (observe now (misled resource a b)).get? c.type =
      ((misled resource a b).bind now).get? c.type := rfl
  have hkept : c.type ∉ (misled resource a b).lost := List.not_mem_nil
  rw [hget, Resource.get?_bind now _ hkept]
  rcases hc with rfl | rfl
  · cases hstatus : c.status <;>
      simp [misled, Resource.get?, Condition.find?, hstatus]
  · cases hstatus : c.status <;>
      simp [misled, Resource.get?, Condition.find?, hne, hstatus]

/-- The snapshot of a resource that was observed last. -/
theorem snapshot_run (w : Watch) (steps : List Step) (now : Instant) (key : ResourceKey)
    (resource : Resource) :
    (w.run (steps ++ [⟨now, key, .ok (some resource)⟩])).1.observer.snapshots.get? key =
      some (remembered (observe now resource) ((w.run steps).1.observer.snapshots.get? key)) := by
  rw [run_concat, reconcile_eq]
  simp [Step.remember, OrderedMap.get?_insert]

/-- If the bound list is out of order, there is something to be seen before that makes a reconcile
announce two entries the wrong way round. -/
theorem exists_disorder (w : Watch) (now : Instant) (key : ResourceKey) {resource : Resource}
    (h : ¬ Ordered (resource.bind now).conditions) : ∃ steps,
    ¬ InTypeOrder ((w.run steps).1.reconcile now key (.ok (some resource))).2.events := by
  have hpair : ∃ a b, [a, b].Sublist (resource.bind now).conditions ∧ ¬ a.type ≤ b.type := by
    unfold Ordered at h
    rw [List.pairwise_iff_forall_sublist] at h
    simp only [not_forall, exists_prop] at h
    exact h
  obtain ⟨a, b, hsub, hwrong⟩ := hpair
  have hne : a.type ≠ b.type := fun heq => hwrong (heq ▸ String.le_refl _)
  refine ⟨[⟨now, key, .ok (some (misled resource a b))⟩], ?_⟩
  rw [inTypeOrder_reconcile]
  have hsnapshot := snapshot_run w [] now key (misled resource a b)
  rw [List.nil_append] at hsnapshot
  rw [hsnapshot]
  generalize hprevious : remembered (observe now (misled resource a b)) _ = previous
  have hlookup : ∀ type, previous.get? type = (observe now (misled resource a b)).get? type := by
    intro type
    rw [← hprevious]
    rfl
  -- both entries are announced, in the order of the list
  have hboth : [a, b].Sublist (announced (some previous) (observe now resource)) := by
    have hmoved : ∀ c ∈ [a, b],
        ((some previous).bind (·.get? c.type)).any (fun old => old.status ≠ c.status) = true := by
      intro c hc
      rw [Option.bind_some, hlookup]
      exact announced_after_misled resource hne (List.mem_pair.mp hc)
    have hfilter := hsub.filter fun c =>
      ((some previous).bind (·.get? c.type)).any fun old => old.status ≠ c.status
    rwa [List.filter_eq_self.mpr hmoved] at hfilter
  intro hordered
  have hpair : Ordered [a, b] := List.Pairwise.sublist hboth hordered
  exact hwrong ((List.pairwise_cons.mp hpair).1 b (List.mem_singleton.mpr rfl))

/-! ## Lists, snapshots and events -/

/-- What is shown of a resource is in the order of types exactly if its list was stored so or has
to be completed. -/
structure ShownInOrder (w : Watch) (now : Instant) (key : ResourceKey) (resource : Resource) :
    Prop where
  /-- The list of a bound condition set. -/
  list : Ordered (resource.bind now).conditions ↔ Ordered resource.conditions ∨ resource.Lacking
  /-- The snapshot that a reconcile takes, whatever was done before. -/
  snapshot : ∀ steps, ∃ snapshot,
    (w.run (steps ++ [⟨now, key, .ok (some resource)⟩])).1.observer.snapshots.get? key =
        some snapshot ∧
      (Ordered snapshot.conditions ↔ Ordered resource.conditions ∨ resource.Lacking)
  /-- The events of that reconcile, given what was seen before. -/
  events : ∀ steps,
    InTypeOrder ((w.run steps).1.reconcile now key (.ok (some resource))).2.events ↔
      Ordered (announced ((w.run steps).1.observer.snapshots.get? key) (observe now resource))
  /-- Its events, whatever was seen before. -/
  always : (∀ steps,
      InTypeOrder ((w.run steps).1.reconcile now key (.ok (some resource))).2.events) ↔
    Ordered resource.conditions ∨ resource.Lacking

/-- Binding does not put every list in order: a list that is complete stays as it was stored, and
so do the snapshots and the events that come of it. All others are in order. -/
theorem shown_in_order (w : Watch) (now : Instant) (key : ResourceKey) (resource : Resource) :
    ShownInOrder w now key resource := by
  have hbound := Resource.ordered_bind_iff now resource
  refine { list := hbound, snapshot := fun steps => ?_, events := fun steps => ?_, always := ?_ }
  · exact ⟨_, snapshot_run w steps now key resource, hbound⟩
  · exact inTypeOrder_reconcile ..
  · rw [← hbound]
    constructor
    · intro halways
      by_contra hdisorder
      obtain ⟨steps, hsteps⟩ := exists_disorder w now key hdisorder
      exact hsteps (halways steps)
    · intro hordered steps
      rw [inTypeOrder_reconcile]
      exact List.Pairwise.sublist List.filter_sublist hordered

/-! ## A complete list out of order -/

/-- A document with an entry for each type of the schema, the root first. -/
def rootFirst : Json :=
  .object
    [("apiVersion", .string "apps/v1"), ("kind", .string "Deployment"),
      ("metadata", .object [("name", .string "n")]),
      ("status", .object
        [("conditions", .array
          [.object [("lastTransitionTime", .string "2024-01-01T00:00:00Z"),
              ("status", .string "True"), ("type", .string "Ready")],
            .object [("lastTransitionTime", .string "2024-01-01T00:00:00Z"),
              ("status", .string "True"), ("type", .string "Available")]])])]

/-- It is accepted, bound and kept as it is. -/
theorem rootFirst_out_of_order : ∃ resource,
    Resource.ofDocument rootFirst (.of "Ready" ["Available"]) = .ok resource ∧
      ¬ Ordered (resource.bind .epoch).conditions ∧
      ∃ r o snapshot,
        Observer.create (Registry.new "operator") ⟨"apps", "Deployment"⟩ default = (r, .ok o) ∧
          ((⟨o, r⟩ : Watch).run
              [⟨.epoch, ⟨"", "n"⟩, .ok (some resource)⟩]).1.observer.snapshots.get? ⟨"", "n"⟩ =
            some snapshot ∧
          ¬ Ordered snapshot.conditions := by
  have htypes : (Resource.ofDocument rootFirst (.of "Ready" ["Available"])).toOption.map
      (fun resource => (resource.bind .epoch).conditions.map (·.type)) =
        some ["Ready", "Available"] := by
    decide +kernel
  cases hadapted : Resource.ofDocument rootFirst (.of "Ready" ["Available"]) with
  | error e =>
    rw [hadapted] at htypes
    cases htypes
  | ok resource =>
    rw [hadapted] at htypes
    have hlist : (resource.bind .epoch).conditions.map (·.type) = ["Ready", "Available"] :=
      Option.some.inj htypes
    -- the list begins with the root, which its type does not
    have hwrong : ¬ Ordered (resource.bind .epoch).conditions := by
      intro hordered
      have hsorted : ((resource.bind .epoch).conditions.map (·.type)).Pairwise (· ≤ ·) :=
        List.pairwise_map.mpr hordered
      rw [hlist, List.pairwise_pair] at hsorted
      exact absurd hsorted (by decide)
    obtain ⟨r, o, h⟩ := create_default
    exact ⟨resource, rfl, hwrong, r, o, _, h, snapshot_run ⟨o, r⟩ [] .epoch ⟨"", "n"⟩ resource,
      hwrong⟩

end Watch

end StatusWatch
