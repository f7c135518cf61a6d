import Mathlib.Data.List.Basic
import StatusWatch.Metrics.ConditionMetrics

/-!
# Writes as data

A handle writes to the same six families of every surface it has, so what it does to one
family can be told apart from what it does to the others. This module turns the writes of
a handle into data and reads off what they do to each family.

- `SeriesOp`: a write or a deletion on one family, `SeriesOp.apply` what it does to it.
- `Role`: the six families of a surface; `ConditionFamilies.collector` finds them.
- `ConditionMetrics.performAll`: carry out operations on every surface.
- `setCondition_eq`, `forget_eq`, …: every method of a handle is such a list of operations.
- `at?_performCalls`: a family sees exactly the operations on its role.
-/

namespace StatusWatch.Metrics

/-! ## Operations on one family -/

/-- A family of any type. -/
inductive AnyFamily where
  | gauge (f : Family Float)
  | counter (f : Family Nat)
  | histogram (h : HistogramFamily)

/-- The families of one type are numbered; the slot is the type and the number. -/
def Collector.slot : Collector → Nat × Nat
  | .gauge ref => (0, ref.index)
  | .counter ref => (1, ref.index)
  | .histogram ref => (2, ref.index)

/-- The family that a collector refers to. -/
def Registry.at? (r : Registry) : Collector → Option AnyFamily
  | .gauge ref => (r.gauges[ref.index]?).map .gauge
  | .counter ref => (r.counters[ref.index]?).map .counter
  | .histogram ref => (r.histograms[ref.index]?).map .histogram

/-- An operation on the series of a family. -/
inductive SeriesOp where
  /-- Set a gauge, count up a counter, or add a value to a histogram. -/
  | write (labels : Labels) (value : Float)
  /-- Delete the series with the given values of the labels that the family declares. -/
  | delete (labels : Labels)

namespace SeriesOp

/-- Carry out an operation on a family of a registry. -/
def perform (c : Collector) (r : Registry) : SeriesOp → Registry
  | write labels value => r.write c labels value
  | delete labels => (r.deleteMatching c (c.declared labels)).1

/-- What an operation does to a gauge family. -/
def onGauge (c : Collector) (f : Family Float) : SeriesOp → Family Float
  | write labels value => f.record labels fun _ => value
  | delete labels => (f.deleteMatching (c.declared labels)).1

/-- What an operation does to a counter family. -/
def onCounter (c : Collector) (f : Family Nat) : SeriesOp → Family Nat
  | write labels _ => f.record labels fun n => n.getD 0 + 1
  | delete labels => (f.deleteMatching (c.declared labels)).1

/-- What an operation does to a histogram family. -/
def onHistogram (c : Collector) (h : HistogramFamily) : SeriesOp → HistogramFamily
  | write labels value =>
    { h with family := h.family.record labels fun old =>
        (old.getD (Histogram.empty h.bounds)).observe value }
  | delete labels => { h with family := (h.family.deleteMatching (c.declared labels)).1 }

/-- What an operation does to a family. -/
def apply (c : Collector) (op : SeriesOp) : AnyFamily → AnyFamily
  | .gauge f => .gauge (op.onGauge c f)
  | .counter f => .counter (op.onCounter c f)
  | .histogram h => .histogram (op.onHistogram c h)

end SeriesOp

namespace Registry

/-- Deleting from a family changes that family in place. -/
theorem deleteMatching_eq (r : Registry) (c : Collector) (labels : Labels) :
    (r.deleteMatching c labels).1 =
      match c with
      | .gauge ref => { r with
          gauges := r.gauges.modify ref.index fun f => (f.deleteMatching labels).1 }
      | .counter ref => { r with
          counters := r.counters.modify ref.index fun f => (f.deleteMatching labels).1 }
      | .histogram ref => { r with
          histograms := r.histograms.modify ref.index fun h =>
            { h with family := (h.family.deleteMatching labels).1 } } := by
  cases c with
  | gauge ref =>
    simp only [deleteMatching, deleteGauges, List.modify_eq_set_getElem?]
    cases r.gauges[ref.index]? <;> rfl
  | counter ref =>
    simp only [deleteMatching, deleteCounters, List.modify_eq_set_getElem?]
    cases r.counters[ref.index]? <;> rfl
  | histogram ref =>
    simp only [deleteMatching, deleteHistograms, List.modify_eq_set_getElem?]
    cases r.histograms[ref.index]? <;> rfl

end Registry

/-- An operation changes the family that it is carried out on and no other. -/
theorem at?_perform (c c' : Collector) (r : Registry) (op : SeriesOp) :
    (op.perform c r).at? c' =
      if c.slot = c'.slot then (r.at? c').map (op.apply c) else r.at? c' := by
  -- an operation changes the family in its slot and leaves all other slots alone
  cases op with
  | write labels value =>
    cases c <;> cases c' <;>
      simp [SeriesOp.perform, Registry.write, Registry.setGauge, Registry.incCounter,
        Registry.observe, Registry.at?, Collector.slot, List.getElem?_modify] <;>
      split <;> simp [SeriesOp.apply, SeriesOp.onGauge, SeriesOp.onCounter, SeriesOp.onHistogram,
        Function.comp_def]
  | delete labels =>
    cases c <;> cases c' <;>
      simp [SeriesOp.perform, Registry.deleteMatching_eq, Registry.at?, Collector.slot,
        List.getElem?_modify] <;>
      split <;> simp [SeriesOp.apply, SeriesOp.onGauge, SeriesOp.onCounter, SeriesOp.onHistogram,
        Function.comp_def]

/-! ## Operations on all surfaces -/

/-- The families of a surface by what they show. -/
inductive Role where
  | count
  | age
  | transitions
  | stays
  | terminating
  | terminations
deriving DecidableEq

/-- The family of a surface with the given role. -/
def ConditionFamilies.collector (f : ConditionFamilies) : Role → Collector
  | .count => .gauge f.count
  | .age => .gauge f.currentStatusSeconds
  | .transitions => .counter f.transitionsTotal
  | .stays => .histogram f.transitionSeconds
  | .terminating => .gauge f.terminationCurrentSeconds
  | .terminations => .histogram f.terminationDurationSeconds

/-- Operations with the roles of the families that they are meant for. -/
abbrev RoleOps := List (Role × SeriesOp)

/-- Carry out operations on one surface. -/
def ConditionFamilies.performAll (f : ConditionFamilies) (r : Registry) (ops : RoleOps) :
    Registry :=
  ops.foldl (fun r op => op.2.perform (f.collector op.1) r) r

/-- The operations on the families with one role. -/
def RoleOps.on (ops : RoleOps) (role : Role) : List SeriesOp :=
  ops.filterMap fun op => if op.1 = role then some op.2 else none

@[simp] theorem RoleOps.on_append (ops ops' : RoleOps) (role : Role) :
    RoleOps.on (ops ++ ops') role = ops.on role ++ ops'.on role :=
  List.filterMap_append

theorem RoleOps.on_flatten (calls : List RoleOps) (role : Role) :
    RoleOps.on calls.flatten role = calls.flatMap fun ops => RoleOps.on ops role := by
  induction calls with
  | nil => rfl
  | cons ops calls ih => rw [List.flatten_cons, RoleOps.on_append, ih, List.flatMap_cons]

/-- Calls that are one operation each on some role. -/
theorem RoleOps.flatMap_on_map {β : Type} {calls : β → RoleOps} {op : β → SeriesOp} {role : Role}
    (h : ∀ x, RoleOps.on (calls x) role = [op x]) (xs : List β) :
    (xs.map calls).flatMap (fun ops => RoleOps.on ops role) = xs.map op := by
  induction xs with
  | nil => rfl
  | cons x xs ih =>
    rw [List.map_cons, List.flatMap_cons, h, ih, List.map_cons, List.singleton_append]

namespace ConditionMetrics

theorem mem_surfaces_of_legacy {m : ConditionMetrics} {f : ConditionFamilies}
    (h : m.legacy = some f) : f ∈ m.surfaces :=
  List.mem_cons_of_mem _ (Option.mem_toList.mpr h)

/-- Carry out operations on every surface of a handle. -/
def performAll (m : ConditionMetrics) (r : Registry) (ops : RoleOps) : Registry :=
  m.surfaces.foldl (fun r f => f.performAll r ops) r

/-- Carry out the operations of several calls one after the other. -/
def performCalls (m : ConditionMetrics) (r : Registry) (calls : List RoleOps) : Registry :=
  calls.foldl m.performAll r

@[simp] theorem performCalls_nil (m : ConditionMetrics) (r : Registry) :
    m.performCalls r [] = r := rfl

@[simp] theorem performCalls_cons (m : ConditionMetrics) (r : Registry) (ops : RoleOps)
    (calls : List RoleOps) :
    m.performCalls r (ops :: calls) = m.performCalls (m.performAll r ops) calls := rfl

theorem performCalls_append (m : ConditionMetrics) (r : Registry) (calls calls' : List RoleOps) :
    m.performCalls r (calls ++ calls') = m.performCalls (m.performCalls r calls) calls' :=
  List.foldl_append

/-- No two families of the surfaces of a handle share a slot. -/
structure Separate (m : ConditionMetrics) : Prop where
  surfaces : m.surfaces.Nodup
  slots : ∀ f ∈ m.surfaces, ∀ g ∈ m.surfaces, ∀ a b,
    (f.collector a).slot = (g.collector b).slot → f = g ∧ a = b

/-! ## What a family sees -/

section Views

variable {m : ConditionMetrics} (h : m.Separate) {f : ConditionFamilies} (hf : f ∈ m.surfaces)
  (role : Role)

include h hf

theorem at?_performAll_same (ops : RoleOps) : ∀ r : Registry,
    (f.performAll r ops).at? (f.collector role) = (r.at? (f.collector role)).map fun fam =>
      (ops.on role).foldl (fun fam op => op.apply (f.collector role) fam) fam := by
  induction ops with
  | nil => intro r; simp [ConditionFamilies.performAll, RoleOps.on]
  | cons op ops ih =>
    intro r
    show (f.performAll (op.2.perform (f.collector op.1) r) ops).at? _ = _
    rw [ih, at?_perform]
    by_cases hr : op.1 = role
    · subst hr
      simp [RoleOps.on, Function.comp_def]
    · have hslot : (f.collector op.1).slot ≠ (f.collector role).slot := fun e =>
        hr (h.slots f hf f hf _ _ e).2
      simp [RoleOps.on, hslot, hr]

theorem at?_performAll_other {g : ConditionFamilies} (hg : g ∈ m.surfaces) (hne : g ≠ f)
    (ops : RoleOps) : ∀ r : Registry,
    (g.performAll r ops).at? (f.collector role) = r.at? (f.collector role) := by
  induction ops with
  | nil => exact fun _ => rfl
  | cons op ops ih =>
    intro r
    show (g.performAll (op.2.perform (g.collector op.1) r) ops).at? _ = _
    rw [ih, at?_perform, if_neg fun e => hne (h.slots g hg f hf _ _ e).1]

/-- A family of a surface sees exactly the operations on its role. -/
theorem at?_performAll (ops : RoleOps) (r : Registry) :
    (m.performAll r ops).at? (f.collector role) = (r.at? (f.collector role)).map fun fam =>
      (ops.on role).foldl (fun fam op => op.apply (f.collector role) fam) fam := by
  -- of the surfaces, one holds the family and the others leave it alone
  obtain ⟨before, after, hsplit⟩ := List.append_of_mem hf
  have hnodup := hsplit ▸ h.surfaces
  have hother : ∀ gs : List ConditionFamilies, (∀ g ∈ gs, g ∈ m.surfaces ∧ g ≠ f) →
      ∀ r : Registry, (gs.foldl (fun r g => g.performAll r ops) r).at? (f.collector role) =
        r.at? (f.collector role) := by
    intro gs
    induction gs with
    | nil => exact fun _ _ => rfl
    | cons g gs ih =>
      intro hgs r
      obtain ⟨hg, hne⟩ := hgs g List.mem_cons_self
      rw [List.foldl_cons, ih fun g' hg' => hgs g' (List.mem_cons_of_mem _ hg')]
      exact at?_performAll_other h hf role hg hne ops r
  unfold performAll
  rw [hsplit, List.foldl_append, List.foldl_cons]
  rw [hother after fun g hg => ⟨hsplit ▸ List.mem_append_right _ (List.mem_cons_of_mem _ hg), ?_⟩]
  · rw [at?_performAll_same h hf role ops, hother before fun g hg =>
      ⟨hsplit ▸ List.mem_append_left _ hg, ?_⟩]
    rintro rfl
    exact (List.nodup_append.mp hnodup).2.2 g hg g List.mem_cons_self rfl
  · rintro rfl
    exact (List.nodup_cons.mp (List.nodup_append.mp hnodup).2.1).1 hg

/-- A family of a surface sees exactly the operations of all calls on its role. -/
theorem at?_performCalls (calls : List RoleOps) : ∀ r : Registry,
    (m.performCalls r calls).at? (f.collector role) = (r.at? (f.collector role)).map fun fam =>
      (RoleOps.on calls.flatten role).foldl
        (fun fam op => op.apply (f.collector role) fam) fam := by
  induction calls with
  | nil => intro r; simp [RoleOps.on]
  | cons ops calls ih =>
    intro r
    rw [performCalls_cons, ih, at?_performAll h hf, List.flatten_cons, RoleOps.on_append,
      Option.map_map]
    simp only [Function.comp_def, List.foldl_append]

end Views

/-! ## The methods of a handle -/

section Methods

variable (m : ConditionMetrics) (r : Registry) (key : ResourceKey) (labels : Labels)

/-- Presence and age of a condition. -/
def conditionOps (c : Condition) (now : Instant) : RoleOps :=
  let labels := m.labelSet (some key) labels (stateOf c)
  [(.count, .write labels 1.0), (.age, .write labels (secondsBetween now c.lastTransition))]

/-- Removal of presence and age of a condition state. -/
def staleOps (c : Condition) : RoleOps :=
  let labels := m.resourceSet key (stateOf c)
  [(.count, .delete labels), (.age, .delete labels)]

/-- Removal of everything about a resource. -/
def forgetOps : RoleOps :=
  let labels := m.resourceSet key []
  [(.count, .delete labels), (.age, .delete labels), (.terminating, .delete labels)]

/-- Count of a state that is entered. -/
def transitionOps (c : Condition) : RoleOps :=
  [(.transitions, .write (m.labelSet none labels (stateOf c)) 1.0)]

/-- The labels of a stay in the status of a condition. -/
def stayLabels (old : Condition) : Labels :=
  m.labelSet none labels [(typeLabel, old.type), (statusLabel, old.status.text)]

/-- Length of a stay in a status that is left. -/
def stayOps (old : Condition) (seconds : Float) : RoleOps :=
  [(.stays, .write (m.stayLabels labels old) seconds)]

/-- Length of a termination so far. -/
def terminatingOps (seconds : Float) : RoleOps :=
  [(.terminating, .write (m.labelSet (some key) labels []) seconds)]

/-- Length of a termination that is over. -/
def terminationOps (seconds : Float) : RoleOps :=
  [(.terminations, .write (m.labelSet none labels []) seconds)]

theorem setCondition_eq (c : Condition) (now : Instant) :
    m.setCondition r key labels c now = m.performAll r (m.conditionOps key labels c now) := rfl

theorem recordTransition_eq (c : Condition) :
    m.recordTransition r labels c = m.performAll r (m.transitionOps labels c) := rfl

theorem observeTransition_eq (old : Condition) (seconds : Float) :
    m.observeTransition r labels old seconds = m.performAll r (m.stayOps labels old seconds) := rfl

theorem setTermination_eq (seconds : Float) :
    m.setTermination r key labels seconds = m.performAll r (m.terminatingOps key labels seconds) :=
  rfl

theorem observeTermination_eq (seconds : Float) :
    m.observeTermination r labels seconds = m.performAll r (m.terminationOps labels seconds) := rfl

/-- Deleting on every surface, the numbers of series aside. -/
theorem deleteOnEach_fst (delete : ConditionFamilies → Registry → Registry × Nat) :
    (m.deleteOnEach r delete).1 = m.surfaces.foldl (fun r f => (delete f r).1) r := by
  unfold deleteOnEach
  generalize 0 = n
  induction m.surfaces generalizing r n with
  | nil => rfl
  | cons f fs ih => exact ih _ _

theorem deleteCondition_eq (c : Condition) :
    (m.deleteCondition r key c).1 = m.performAll r (m.staleOps key c) :=
  m.deleteOnEach_fst r _

theorem forget_eq : (m.forget r key).1 = m.performAll r (m.forgetOps key) :=
  m.deleteOnEach_fst r _

end Methods

end ConditionMetrics

end StatusWatch.Metrics
