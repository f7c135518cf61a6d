import Mathlib.Data.List.Induction
import Mathlib.Data.List.Infix
import StatusWatch.Proofs.LabelSets
import StatusWatch.Proofs.Writes

/-!
# Families against plain maps

A family is two copies of one thing, an index and a vector, that every call changes one after
the other. What it stands for is a plain map from tuples of label values to values, and this
module holds the families of a registry against the maps of the same calls.

The index compares tuples and the vector their texts, so the two are treated apart: whatever
depends on the index alone holds of all runs, and whatever reads the vector holds for as long
as the keys of the map have different texts.

- `FamilyCall`: a call of a family of any type, with what it answers.
- `FamilyCall.onMap`: the same call of a plain map.
- `Follows.step`, `follows_run`: whatever the tuples are, the index holds the keys of the map
  and calls answer as those of the map.
- `Follows.onVec?_eq`: the vector is asked for full tuples only.
- `Follows.readsAs_step`, `depicts_iff`: the vector holds the entries of the map exactly as long
  as it tells their keys apart.
- `FamilyView`: one family of a registry; `gaugeView`, `counterView`, `histogramView`.
- `FamilyView.Refines`, `families_refine_maps`: all of it for new families of each type.
-/

namespace StatusWatch

namespace Metrics

/-! ## Maps by tuples -/

/-- Tuples are ordered by their first difference. -/
instance : LT LabelTuple := ⟨List.lt⟩

instance : DecidableLT LabelTuple := fun s t => List.decidableLT s t

instance : StrictOrder LabelTuple where
  irrefl := List.lt_irrefl
  trans := List.lt_trans
  connected h₁ h₂ := List.le_antisymm (List.not_lt.1 h₂) (List.not_lt.1 h₁)

/-- The values of label names, in order; missing names are empty, undeclared ones ignored. -/
def valuesOf (names : List String) (labels : Labels) : LabelTuple :=
  names.map fun name => (labels.get? name).getD ""

/-- A tuple has every given value under its name. -/
def Agrees (names : List String) (labels : Labels) (tuple : LabelTuple) : Prop :=
  ∀ e ∈ labels.entries, e ∈ names.zip tuple

instance (names : List String) (labels : Labels) (tuple : LabelTuple) :
    Decidable (Agrees names labels tuple) :=
  inferInstanceAs (Decidable (∀ e ∈ labels.entries, e ∈ names.zip tuple))

theorem agrees_empty (names : List String) (tuple : LabelTuple) : Agrees names ∅ tuple :=
  fun _ he => absurd he List.not_mem_nil

/-- No tuple has a value for a name that is not declared. -/
theorem not_agrees {names : List String} {labels : Labels} {name : String} (hname : name ∉ names)
    (hgiven : (labels.get? name).isSome) (tuple : LabelTuple) : ¬ Agrees names labels tuple := by
  intro hagrees
  obtain ⟨value, hvalue⟩ := Option.isSome_iff_exists.mp hgiven
  exact hname (List.of_mem_zip (hagrees _ ((labels.mem_entries_iff name value).mpr hvalue))).1

/-! ## Calls -/

/-- A call of a family. -/
inductive FamilyCall where
  /-- Set a gauge, count up a counter, or add a value to a histogram. -/
  | write (c : Collector) (labels : Labels) (value : Float)
  /-- Delete the series with these labels, which only gauges can. -/
  | delete (ref : GaugeRef) (labels : Labels)
  /-- Delete the series that have all the given values. -/
  | deleteMatching (c : Collector) (labels : Labels)

/-- What a call answers. -/
inductive CallAnswer where
  | written
  | existed (b : Bool)
  | removed (n : Nat)
deriving DecidableEq

namespace FamilyCall

/-- The family that is called. -/
def target : FamilyCall → Collector
  | write c _ _ => c
  | delete ref _ => .gauge ref
  | deleteMatching c _ => c

/-- Carry out a call on a registry. -/
def perform (r : Registry) : FamilyCall → Registry × CallAnswer
  | write c labels value => (r.write c labels value, .written)
  | delete ref labels =>
    let (r, b) := r.deleteGauge ref labels
    (r, .existed b)
  | deleteMatching c labels =>
    let (r, n) := r.deleteMatching c labels
    (r, .removed n)

/-- Carry out several calls. -/
def performAll (r : Registry) (calls : List FamilyCall) : Registry :=
  calls.foldl (fun r call => (call.perform r).1) r

variable {α : Type}

/-- What a call does to the family that it is for, by what a write makes of a value. -/
def onFamily (put : Option α → Float → α) (f : Family α) : FamilyCall → Family α × CallAnswer
  | write _ labels value => (f.record labels fun old => put old value, .written)
  | delete _ labels =>
    let (f, b) := f.delete labels
    (f, .existed b)
  | deleteMatching _ labels =>
    let (f, n) := f.deleteMatching labels
    (f, .removed n)

/-- What the same call does to a plain map. -/
def onMap (put : Option α → Float → α) (names : List String) (m : OrderedMap LabelTuple α) :
    FamilyCall → OrderedMap LabelTuple α × CallAnswer
  | write _ labels value =>
    let key := valuesOf names labels
    (m.insert key (put (m.get? key) value), .written)
  | delete _ labels =>
    let key := valuesOf names labels
    (m.erase key, .existed (m.contains key))
  | deleteMatching _ labels =>
    (m.filter fun key _ => ¬ Agrees names labels key,
      .removed (m.filter fun key _ => Agrees names labels key).size)

/-- The vector after a call, if it refuses none of the tuples that it is asked for. -/
def onVec? (put : Option α → Float → α) (f : Family α) : FamilyCall → Option (SeriesVec α)
  | write _ labels value => f.vec.write? (f.index.tuple labels) fun old => put old value
  | delete _ labels =>
    if f.index.contains (f.index.tuple labels) then f.vec.remove? (f.index.tuple labels)
    else some f.vec
  | deleteMatching _ labels => (f.matching labels).foldlM SeriesVec.remove? f.vec

end FamilyCall

/-! ## Keys of maps -/

section Keys

variable {α : Type} {m : OrderedMap LabelTuple α}

theorem nodup_keys (m : OrderedMap LabelTuple α) : m.keys.Nodup := by
  rw [OrderedMap.keys, List.Nodup, List.pairwise_map]
  refine m.increasing.imp fun {a b} hlt heq => ?_
  rw [heq] at hlt
  exact StrictOrder.irrefl b.1 hlt

theorem mem_keys_iff {key : LabelTuple} : key ∈ m.keys ↔ (m.get? key).isSome :=
  find?_isSome_iff.symm

theorem filter_all {p : LabelTuple → Bool} (h : ∀ key, p key = true) :
    (m.filter fun key _ => p key) = m := by
  refine OrderedMap.ext_get? fun key => ?_
  rw [OrderedMap.get?_filter, h]
  cases m.get? key <;> rfl

theorem filter_none {p : LabelTuple → Bool} (h : ∀ key, p key = false) :
    (m.filter fun key _ => p key) = ∅ := by
  refine OrderedMap.ext_get? fun key => ?_
  rw [OrderedMap.get?_filter, h]
  cases m.get? key <;> rfl

end Keys

/-! ## The index -/

namespace Family

variable {α : Type}

theorem remove?_eq {f : Family α} (h : f.WellFormed) {tuple : LabelTuple}
    (hlen : tuple.length = f.index.labelNames.length) :
    f.vec.remove? tuple = some (f.drop tuple).vec := by
  rw [series_drop h hlen]
  simp [SeriesVec.remove?, h.width, hlen]

theorem foldlM_remove? {tuples : List LabelTuple} : ∀ {f : Family α}, f.WellFormed →
    (∀ t ∈ tuples, t.length = f.index.labelNames.length) →
    tuples.foldlM SeriesVec.remove? f.vec = some (tuples.foldl drop f).vec := by
  induction tuples with
  | nil => exact fun _ _ => rfl
  | cons t ts ih =>
    intro f h hlen
    have ht := hlen t List.mem_cons_self
    rw [List.foldlM_cons, remove?_eq h ht]
    exact ih (h.drop ht) fun t' ht' => hlen t' (List.mem_cons_of_mem _ ht')

/-- What of a family does not depend on how its vector tells series apart: the index has the
keys of a map. -/
structure Follows (f : Family α) (names : List String) (m : OrderedMap LabelTuple α) : Prop where
  wellFormed : f.WellFormed
  names : f.index.labelNames = names
  keys : ∀ key, key ∈ f.index.live ↔ (m.get? key).isSome

namespace Follows

variable {f : Family α} {names : List String} {m : OrderedMap LabelTuple α}

theorem tuple (h : f.Follows names m) (labels : Labels) :
    f.index.tuple labels = valuesOf names labels := by
  rw [← h.names]
  rfl

theorem perm_keys (h : f.Follows names m) : f.index.live.Perm m.keys :=
  (List.perm_ext_iff_of_nodup h.wellFormed.distinct (nodup_keys m)).mpr fun key =>
    (h.keys key).trans mem_keys_iff.symm

/-- The index compares positions, which is comparing values by name. -/
theorem agrees_iff (h : f.Follows names m) (hnames : names.Nodup) {labels : Labels}
    {key : LabelTuple} (hlive : key ∈ f.index.live) :
    f.index.agrees labels key = true ↔ Agrees names labels key := by
  have hnodup : f.index.labelNames.Nodup := h.names ▸ hnames
  simp only [SeriesIndex.agrees, List.all_eq_true, decide_eq_true_eq, Agrees]
  refine forall₂_congr fun e _ => ?_
  rw [← h.names]
  exact (SeriesIndex.mem_zip_iff hnodup (h.wellFormed.full key hlive) e.1 e.2).symm

/-- As many tuples are deleted as the map has entries that agree. -/
theorem length_matching (h : f.Follows names m) (hnames : names.Nodup) (labels : Labels) :
    (f.matching labels).length = (m.filter fun key _ => Agrees names labels key).size := by
  -- index and map have the same tuples, each of them once
  have hperm : (f.matching labels).Perm
      (m.filter fun key _ => decide (Agrees names labels key)).keys := by
    refine (List.perm_ext_iff_of_nodup (h.wellFormed.distinct.filter _) (nodup_keys _)).mpr
      fun key => ?_
    show key ∈ f.matching labels ↔ _
    rw [mem_keys_iff, OrderedMap.get?_filter, mem_matching, h.keys key]
    cases hget : m.get? key with
    | none => simp
    | some a =>
      have hlive : key ∈ f.index.live := (h.keys key).mpr (by simp [hget])
      simp [h.agrees_iff hnames hlive]
  rw [hperm.length_eq, OrderedMap.keys, List.length_map]
  rfl

theorem record (h : f.Follows names m) (labels : Labels) (write : Option α → α) (a : α) :
    (f.record labels write).Follows names (m.insert (valuesOf names labels) a) where
  wellFormed := h.wellFormed.record labels write
  names := (labelNames_record f labels write).trans h.names
  keys key := by
    rw [live_record, OrderedMap.get?_insert, h.tuple, h.keys key]
    by_cases hkey : valuesOf names labels = key
    · simp [hkey]
    · simp [hkey, Ne.symm hkey]

theorem delete (h : f.Follows names m) (labels : Labels) :
    (f.delete labels).1.Follows names (m.erase (valuesOf names labels)) where
  wellFormed := h.wellFormed.delete labels
  names := (labelNames_delete labels).trans h.names
  keys key := by
    rw [live_delete, OrderedMap.get?_erase, h.tuple, h.keys key]
    by_cases hkey : valuesOf names labels = key
    · simp [hkey]
    · simp [hkey, Ne.symm hkey]

/-- A series existed if the map has its key. -/
theorem delete_snd (h : f.Follows names m) (labels : Labels) :
    (f.delete labels).2 = m.contains (valuesOf names labels) := by
  have hcontains : f.index.contains (f.index.tuple labels) =
      m.contains (valuesOf names labels) := by
    rw [Bool.eq_iff_iff, SeriesIndex.contains, List.contains_iff_mem, h.tuple, h.keys]
    rfl
  rw [Family.delete, ← hcontains]
  cases f.index.contains (f.index.tuple labels) <;> rfl

theorem deleteMatching (h : f.Follows names m) (hnames : names.Nodup) (labels : Labels) :
    (f.deleteMatching labels).1.Follows names
      (m.filter fun key _ => ¬ Agrees names labels key) where
  wellFormed := h.wellFormed.deleteMatching labels
  names := (labelNames_deleteMatching h.wellFormed labels).trans h.names
  keys key := by
    rw [live_deleteMatching h.wellFormed, OrderedMap.get?_filter]
    by_cases hlive : key ∈ f.index.live
    · obtain ⟨a, hget⟩ := Option.isSome_iff_exists.mp ((h.keys key).mp hlive)
      simp [hget, hlive, ← h.agrees_iff hnames hlive]
    · have hnone : m.get? key = none :=
        Option.not_isSome_iff_eq_none.mp fun hsome => hlive ((h.keys key).mpr hsome)
      simp [hnone, hlive]

/-- One call: the index has the keys of the map again, and both answer alike. -/
theorem step (h : f.Follows names m) (hnames : names.Nodup) (put : Option α → Float → α)
    (call : FamilyCall) :
    (call.onFamily put f).1.Follows names (call.onMap put names m).1 ∧
      (call.onFamily put f).2 = (call.onMap put names m).2 := by
  cases call with
  | write c labels value => exact ⟨h.record labels _ _, rfl⟩
  | delete ref labels => exact ⟨h.delete labels, congrArg CallAnswer.existed (h.delete_snd labels)⟩
  | deleteMatching c labels =>
    exact ⟨h.deleteMatching hnames labels,
      congrArg CallAnswer.removed (h.length_matching hnames labels)⟩

/-- The vector is asked for full tuples only, so it does all that the family asks of it. -/
theorem onVec?_eq (h : f.Follows names m) (put : Option α → Float → α) (call : FamilyCall) :
    call.onVec? put f = some (call.onFamily put f).1.vec := by
  cases call with
  | write c labels value =>
    show f.vec.write? (f.index.tuple labels) _ = some (f.record labels _).vec
    rw [series_record h.wellFormed]
    simp [SeriesVec.write?, h.wellFormed.width]
  | delete ref labels =>
    simp only [FamilyCall.onVec?, FamilyCall.onFamily, Family.delete]
    split
    · exact remove?_eq h.wellFormed (length_tuple _ _)
    · rfl
  | deleteMatching c labels =>
    exact foldlM_remove? h.wellFormed (full_matching h.wellFormed labels)

end Follows

/-! ## The vector -/

/-- The family holds the entries of a map, and its index their keys. -/
structure Depicts (f : Family α) (m : OrderedMap LabelTuple α) : Prop where
  index : (f.vec.series.map (·.1)).Perm f.index.live
  series : f.vec.series.Perm m.entries

/-- Under every tuple, the vector shows the value that a map has for it. -/
def ReadsAs (f : Family α) (m : OrderedMap LabelTuple α) : Prop :=
  ∀ key, f.value? key = m.get? key

section ReadsAs

variable {f : Family α} {names : List String} {m : OrderedMap LabelTuple α}
  (h : f.Follows names m)

include h

/-- What a vector holds, it tells apart. -/
theorem Follows.apart_of_depicts (hdepicts : f.Depicts m) : Apart m.keys := by
  have hshown : ∀ key ∈ m.keys, (f.value? key).isSome := fun key hkey =>
    find?_isSome_iff.mpr ((hdepicts.series.map (·.1)).mem_iff.mpr hkey)
  exact fun a ha b hb => h.wellFormed.eq_of_joined (hshown a ha) (hshown b hb)

variable (hreads : f.ReadsAs m)

include hreads

theorem Follows.mirrors : f.Mirrors := fun key => by
  rw [h.keys key, hreads key]

theorem Follows.depicts : f.Depicts m where
  index := (List.perm_ext_iff_of_nodup h.wellFormed.tuples h.wellFormed.distinct).mpr fun key =>
    find?_isSome_iff.symm.trans (h.mirrors hreads key).symm
  series := by
    refine (List.perm_ext_iff_of_nodup (List.Nodup.of_map _ h.wellFormed.tuples)
      (List.Nodup.of_map _ (nodup_keys m))).mpr ?_
    rintro ⟨key, a⟩
    rw [mem_iff_find? h.wellFormed.tuples, OrderedMap.mem_entries_iff, ← hreads key]
    rfl

theorem Follows.readsAs_record (labels : Labels) (write : Option α → α)
    (hapart : Apart (m.insert (valuesOf names labels)
      (write (m.get? (valuesOf names labels)))).keys) :
    (f.record labels write).ReadsAs
      (m.insert (valuesOf names labels) (write (m.get? (valuesOf names labels)))) := by
  have hkey : ∀ t, (f.value? t).isSome ∨ t = valuesOf names labels →
      t ∈ (m.insert (valuesOf names labels) (write (m.get? (valuesOf names labels)))).keys := by
    intro t ht
    rw [mem_keys_iff, OrderedMap.get?_insert]
    by_cases heq : valuesOf names labels = t
    · simp [heq]
    · rw [if_neg heq, ← hreads t]
      exact ht.resolve_right fun e => heq e.symm
  -- all tuples that are shown are keys of the new map, and these have different texts
  have hone : ∀ t, (f.value? t).isSome → t.joined = (f.index.tuple labels).joined →
      t = f.index.tuple labels := by
    rw [h.tuple]
    exact fun t ht hj => hapart t (hkey t (Or.inl ht)) _ (hkey _ (Or.inr rfl)) hj
  intro key
  rw [value?_record h.wellFormed labels write hone, OrderedMap.get?_insert, h.tuple, hreads, hreads]
  by_cases heq : valuesOf names labels = key
  · simp [heq]
  · simp [heq, Ne.symm heq]

theorem Follows.readsAs_delete (labels : Labels) :
    (f.delete labels).1.ReadsAs (m.erase (valuesOf names labels)) := by
  intro key
  rw [value?_delete labels h.wellFormed (h.mirrors hreads), OrderedMap.get?_erase, h.tuple,
    hreads key]
  by_cases heq : valuesOf names labels = key
  · simp [heq]
  · simp [heq, Ne.symm heq]

theorem Follows.readsAs_deleteMatching (hnames : names.Nodup) (labels : Labels) :
    (f.deleteMatching labels).1.ReadsAs (m.filter fun key _ => ¬ Agrees names labels key) := by
  intro key
  rw [value?_deleteMatching h.wellFormed labels (h.mirrors hreads), OrderedMap.get?_filter,
    hreads key]
  cases hget : m.get? key with
  | none => simp
  | some a =>
    have hlive : key ∈ f.index.live := (h.keys key).mpr (by simp [hget])
    by_cases hagrees : Agrees names labels key
    · simp [hagrees, (h.agrees_iff hnames hlive).mpr hagrees]
    · have hnot : f.index.agrees labels key = false :=
        Bool.eq_false_iff.mpr fun e => hagrees ((h.agrees_iff hnames hlive).mp e)
      simp [hagrees, hnot, Option.filter]

/-- One call: if the vector can tell the keys of the new map apart, it holds its entries. Only
writes can bring in a key that runs together with another one. -/
theorem Follows.readsAs_step (hnames : names.Nodup) (put : Option α → Float → α)
    (call : FamilyCall) (hapart : Apart (call.onMap put names m).1.keys) :
    (call.onFamily put f).1.ReadsAs (call.onMap put names m).1 := by
  cases call with
  | write c labels value => exact h.readsAs_record hreads labels (put · value) hapart
  | delete ref labels => exact h.readsAs_delete hreads labels
  | deleteMatching c labels => exact h.readsAs_deleteMatching hreads hnames labels

end ReadsAs

end Family

/-! ## Calls on a registry -/

/-- What a call does to a family of any type. -/
def FamilyCall.apply (call : FamilyCall) : AnyFamily → AnyFamily × CallAnswer
  | .gauge f =>
    let (f, a) := call.onFamily (fun _ value => value) f
    (.gauge f, a)
  | .counter f =>
    let (f, a) := call.onFamily (fun n _ => n.getD 0 + 1) f
    (.counter f, a)
  | .histogram h =>
    let (f, a) := call.onFamily (fun old value => (old.getD (.empty h.bounds)).observe value)
      h.family
    (.histogram { h with family := f }, a)

theorem Registry.deleteGauge_eq (r : Registry) (ref : GaugeRef) (labels : Labels) :
    (r.deleteGauge ref labels).1 =
      { r with gauges := r.gauges.modify ref.index fun f => (f.delete labels).1 } := by
  simp only [deleteGauge, List.modify_eq_set_getElem?]
  cases r.gauges[ref.index]? <;> rfl

/-- A call changes the family that it is for and no other. -/
theorem at?_call (c : Collector) (r : Registry) (call : FamilyCall) :
    (call.perform r).1.at? c =
      if call.target.slot = c.slot then (r.at? c).map fun a => (call.apply a).1
      else r.at? c := by
  cases call with
  | write c' labels value =>
    have hwrite : (SeriesOp.write labels value).apply c' =
        fun a => ((FamilyCall.write c' labels value).apply a).1 := by
      funext a
      cases a <;> rfl
    have hview := at?_perform c' c r (.write labels value)
    rwa [hwrite] at hview
  | delete ref labels =>
    cases c <;> simp [FamilyCall.perform, FamilyCall.target, Registry.deleteGauge_eq,
      Registry.at?, Collector.slot, List.getElem?_modify]
    split <;> simp [FamilyCall.apply, FamilyCall.onFamily, Function.comp_def]
  | deleteMatching c' labels =>
    cases c' <;> cases c <;>
      simp [FamilyCall.perform, FamilyCall.target, Registry.deleteMatching_eq, Registry.at?,
        Collector.slot, List.getElem?_modify] <;>
      split <;> simp [FamilyCall.apply, FamilyCall.onFamily, Function.comp_def]

/-- A call answers for the family that it is for. -/
theorem answer_call {r : Registry} {call : FamilyCall} {a : AnyFamily}
    (h : r.at? call.target = some a) : (call.perform r).2 = (call.apply a).2 := by
  cases call with
  -- writes answer nothing, and both deletions answer from the family that is held
  | write c labels value => cases a <;> rfl
  | delete ref labels =>
    obtain ⟨f, hf, rfl⟩ := Option.map_eq_some_iff.mp h
    simp only [FamilyCall.perform, Registry.deleteGauge, hf]
    rfl
  | deleteMatching c labels =>
    cases c with
    | gauge ref =>
      obtain ⟨f, hf, rfl⟩ := Option.map_eq_some_iff.mp h
      simp only [FamilyCall.perform, Registry.deleteMatching, Registry.deleteGauges, hf]
      rfl
    | counter ref =>
      obtain ⟨f, hf, rfl⟩ := Option.map_eq_some_iff.mp h
      simp only [FamilyCall.perform, Registry.deleteMatching, Registry.deleteCounters, hf]
      rfl
    | histogram ref =>
      obtain ⟨f, hf, rfl⟩ := Option.map_eq_some_iff.mp h
      simp only [FamilyCall.perform, Registry.deleteMatching, Registry.deleteHistograms, hf]
      rfl

theorem at?_congr {r : Registry} {c c' : Collector} (h : c.slot = c'.slot) :
    r.at? c = r.at? c' := by
  cases c <;> cases c' <;> simp_all [Collector.slot, Registry.at?]

/-! ## One family of a registry -/

/-- One family of a registry, by its place, its type, and what a write makes of a value. -/
structure FamilyView (α : Type) where
  collector : Collector
  wrap : Family α → AnyFamily
  put : Option α → Float → α
  wrap_injective : ∀ {f g : Family α}, wrap f = wrap g → f = g
  apply_wrap : ∀ (call : FamilyCall) (f : Family α),
    call.apply (wrap f) = (wrap (call.onFamily put f).1, (call.onFamily put f).2)

/-- A gauge: the last value counts. -/
def gaugeView (ref : GaugeRef) : FamilyView Float where
  collector := .gauge ref
  wrap := .gauge
  put _ value := value
  wrap_injective := AnyFamily.gauge.inj
  apply_wrap _ _ := rfl

/-- A counter: writes are counted, from nothing. -/
def counterView (ref : CounterRef) : FamilyView Nat where
  collector := .counter ref
  wrap := .counter
  put n _ := n.getD 0 + 1
  wrap_injective := AnyFamily.counter.inj
  apply_wrap _ _ := rfl

/-- A histogram: values are added to those before, from none. -/
def histogramView (ref : HistogramRef) (bounds : List Float) : FamilyView Histogram where
  collector := .histogram ref
  wrap f := .histogram ⟨bounds, f⟩
  put old value := (old.getD (.empty bounds)).observe value
  wrap_injective h := (HistogramFamily.mk.inj (AnyFamily.histogram.inj h)).2
  apply_wrap _ _ := rfl

namespace FamilyView

variable {α : Type} (v : FamilyView α) (names : List String) (start : Registry)

/-- The registry has the family in its place. -/
def Holds (r : Registry) (f : Family α) : Prop := r.at? v.collector = some (v.wrap f)

/-- Whether a call is for the family. -/
def Called (call : FamilyCall) : Prop := call.target.slot = v.collector.slot

instance (call : FamilyCall) : Decidable (v.Called call) :=
  inferInstanceAs (Decidable (call.target.slot = v.collector.slot))

/-- The plain map of the calls that are for the family. -/
def mapOf (calls : List FamilyCall) : OrderedMap LabelTuple α :=
  (calls.filter v.Called).foldl (fun m call => (call.onMap v.put names m).1) ∅

theorem mapOf_concat (calls : List FamilyCall) (call : FamilyCall) :
    v.mapOf names (calls ++ [call]) =
      if v.Called call then (call.onMap v.put names (v.mapOf names calls)).1
      else v.mapOf names calls := by
  unfold mapOf
  rw [List.filter_append, List.foldl_append]
  by_cases hcalled : v.Called call <;> simp [hcalled]

variable {v names start} {f : Family α} {r : Registry}

theorem Holds.unique {f g : Family α} (hf : v.Holds r f) (hg : v.Holds r g) : f = g :=
  v.wrap_injective (Option.some.inj (hf.symm.trans hg))

theorem Holds.called (h : v.Holds r f) {call : FamilyCall} (hcall : v.Called call) :
    v.Holds (call.perform r).1 (call.onFamily v.put f).1 ∧
      (call.perform r).2 = (call.onFamily v.put f).2 := by
  constructor
  · show (call.perform r).1.at? v.collector = _
    rw [at?_call, if_pos (by exact hcall), h, Option.map_some, v.apply_wrap]
  · rw [answer_call ((at?_congr hcall).trans h), v.apply_wrap]

theorem Holds.left (h : v.Holds r f) {call : FamilyCall} (hcall : ¬ v.Called call) :
    v.Holds (call.perform r).1 f := by
  show (call.perform r).1.at? v.collector = _
  rw [at?_call, if_neg (by exact hcall)]
  exact h

theorem performAll_concat (calls : List FamilyCall) (call : FamilyCall) :
    FamilyCall.performAll start (calls ++ [call]) =
      (call.perform (FamilyCall.performAll start calls)).1 := by
  simp [FamilyCall.performAll]

section Run

variable (hholds : v.Holds start f) (hfollows : f.Follows names ∅) (hnames : names.Nodup)

include hholds hfollows hnames

/-- After any calls of any families, the index has the keys of the map. -/
theorem follows_run (calls : List FamilyCall) : ∃ f',
    v.Holds (FamilyCall.performAll start calls) f' ∧ f'.Follows names (v.mapOf names calls) := by
  induction calls using List.reverseRecOn with
  | nil => exact ⟨f, hholds, hfollows⟩
  | append_singleton calls call ih =>
    obtain ⟨f', hheld, hkept⟩ := ih
    rw [performAll_concat, mapOf_concat]
    -- calls to other families leave this one and the map as they are
    by_cases hcall : v.Called call
    · rw [if_pos hcall]
      exact ⟨_, (hheld.called hcall).1, (hkept.step hnames v.put call).1⟩
    · rw [if_neg hcall]
      exact ⟨f', hheld.left hcall, hkept⟩

/-- If the vector can tell the keys of the map apart after each of the calls, it holds its
entries after the last of them. -/
theorem readsAs_run (hreads : f.ReadsAs ∅) (calls : List FamilyCall)
    (hapart : ∀ p, p <+: calls → Apart (v.mapOf names p).keys) : ∃ f',
    v.Holds (FamilyCall.performAll start calls) f' ∧ f'.Follows names (v.mapOf names calls) ∧
      f'.ReadsAs (v.mapOf names calls) := by
  induction calls using List.reverseRecOn with
  | nil => exact ⟨f, hholds, hfollows, hreads⟩
  | append_singleton calls call ih =>
    obtain ⟨f', hheld, hkept, hread⟩ :=
      ih fun p hp => hapart p (hp.trans (List.prefix_append calls [call]))
    have hlast := hapart _ List.prefix_rfl
    rw [mapOf_concat] at hlast
    rw [performAll_concat, mapOf_concat]
    by_cases hcall : v.Called call
    · rw [if_pos hcall] at hlast ⊢
      exact ⟨_, (hheld.called hcall).1, (hkept.step hnames v.put call).1,
        hkept.readsAs_step hread hnames v.put call hlast⟩
    · rw [if_neg hcall]
      exact ⟨f', hheld.left hcall, hkept, hread⟩

end Run

/-! ## Refinement -/

/-- How far a family of a registry and its plain map agree after every run of calls. -/
structure Refines (v : FamilyView α) (names : List String) (start : Registry) : Prop where
  /-- The index has the keys of the map, and the vector refuses no call. -/
  index : ∀ calls, ∃ f, v.Holds (FamilyCall.performAll start calls) f ∧
    f.index.live.Perm (v.mapOf names calls).keys ∧
    ∀ call : FamilyCall, call.onVec? v.put f = some (call.onFamily v.put f).1.vec
  /-- Calls answer as those of the map. -/
  answers : ∀ calls call, v.Called call →
    (call.perform (FamilyCall.performAll start calls)).2 =
      (call.onMap v.put names (v.mapOf names calls)).2
  /-- A value for a name that is not declared spares all. -/
  undeclared : ∀ calls c labels, v.Called (.deleteMatching c labels) →
    (∃ name ∉ names, (labels.get? name).isSome) →
      (FamilyCall.perform (FamilyCall.performAll start calls) (.deleteMatching c labels)).2 =
          .removed 0 ∧
        v.mapOf names (calls ++ [.deleteMatching c labels]) = v.mapOf names calls
  /-- No values given spares none. -/
  everything : ∀ calls c, v.Called (.deleteMatching c ∅) →
    (FamilyCall.perform (FamilyCall.performAll start calls) (.deleteMatching c ∅)).2 =
        .removed (v.mapOf names calls).size ∧
      v.mapOf names (calls ++ [.deleteMatching c ∅]) = ∅
  /-- The vector has the entries of the map after each of the calls if and only if it tells
  their keys apart after each of them. -/
  series : ∀ calls,
    (∀ p, p <+: calls → ∃ f, v.Holds (FamilyCall.performAll start p) f ∧
      f.Depicts (v.mapOf names p)) ↔
    ∀ p, p <+: calls → Apart (v.mapOf names p).keys

section Refines

variable (hholds : v.Holds start f) (hfollows : f.Follows names ∅) (hnames : names.Nodup)

include hholds hfollows hnames

theorem answer_run (calls : List FamilyCall) {call : FamilyCall} (hcall : v.Called call) :
    (call.perform (FamilyCall.performAll start calls)).2 =
      (call.onMap v.put names (v.mapOf names calls)).2 := by
  obtain ⟨f', hheld, hkept⟩ := follows_run hholds hfollows hnames calls
  exact (hheld.called hcall).2.trans (hkept.step hnames v.put call).2

/-- The vector has the entries of the map exactly as long as it tells their keys apart. -/
theorem depicts_iff (hreads : f.ReadsAs ∅) (calls : List FamilyCall) :
    (∀ p, p <+: calls → ∃ f', v.Holds (FamilyCall.performAll start p) f' ∧
      f'.Depicts (v.mapOf names p)) ↔
    ∀ p, p <+: calls → Apart (v.mapOf names p).keys := by
  constructor
  · -- the family that follows the map is the one that is held, so it is the one that depicts it
    intro hdepicted p hp
    obtain ⟨f₁, hheld, hkept⟩ := follows_run hholds hfollows hnames p
    obtain ⟨f₂, hheld', hdepicts⟩ := hdepicted p hp
    rw [hheld.unique hheld'] at hkept
    exact hkept.apart_of_depicts hdepicts
  · intro hapart p hp
    obtain ⟨f', hheld, hkept, hread⟩ := readsAs_run hholds hfollows hnames hreads p
      fun p' hp' => hapart p' (hp'.trans hp)
    exact ⟨f', hheld, hkept.depicts hread⟩

theorem refines (hreads : f.ReadsAs ∅) : v.Refines names start where
  index calls := by
    obtain ⟨f', hheld, hkept⟩ := follows_run hholds hfollows hnames calls
    exact ⟨f', hheld, hkept.perm_keys, hkept.onVec?_eq v.put⟩
  answers calls _ hcall := answer_run hholds hfollows hnames calls hcall
  undeclared calls c labels hcall hundeclared := by
    obtain ⟨name, hname, hgiven⟩ := hundeclared
    have hnot : ∀ key, ¬ Agrees names labels key := not_agrees hname hgiven
    rw [answer_run hholds hfollows hnames calls hcall, mapOf_concat, if_pos hcall]
    constructor
    · show CallAnswer.removed ((v.mapOf names calls).filter _).size = _
      rw [filter_none fun key => decide_eq_false (hnot key)]
      rfl
    · exact filter_all fun key => decide_eq_true (hnot key)
  everything calls c hcall := by
    have hall : ∀ key, Agrees names ∅ key := agrees_empty names
    rw [answer_run hholds hfollows hnames calls hcall, mapOf_concat, if_pos hcall]
    constructor
    · show CallAnswer.removed ((v.mapOf names calls).filter _).size = _
      rw [filter_all fun key => decide_eq_true (hall key)]
    · exact filter_none fun key => decide_eq_false (not_not.mpr (hall key))
  series := depicts_iff hholds hfollows hnames hreads

end Refines

end FamilyView

theorem Family.Follows.new (α : Type) (d : Descriptor) :
    (Family.new d : Family α).Follows d.labelNames ∅ where
  wellFormed := wellFormed_new d
  names := rfl
  keys key := by simp [Family.new]

/-- Every new family of a registry, with distinct label names and whatever is called on it or
on other families, stands for the plain map of the calls that are for it. -/
theorem families_refine_maps (r : Registry) (d : Descriptor) (hnames : d.labelNames.Nodup) :
    (gaugeView (r.newGauge d).2).Refines d.labelNames (r.newGauge d).1 ∧
      (counterView (r.newCounter d).2).Refines d.labelNames (r.newCounter d).1 ∧
      ∀ bounds, (histogramView (r.newHistogram d bounds).2 (bucketBounds bounds)).Refines
        d.labelNames (r.newHistogram d bounds).1 := by
  refine ⟨?gauge, ?counter, fun bounds => ?histogram⟩
  case gauge =>
    have hholds : (gaugeView (r.newGauge d).2).Holds (r.newGauge d).1 (.new d) := by
      simp [FamilyView.Holds, gaugeView, Registry.newGauge, Registry.at?]
    exact FamilyView.refines hholds (.new Float d) hnames fun _ => rfl
  case counter =>
    have hholds : (counterView (r.newCounter d).2).Holds (r.newCounter d).1 (.new d) := by
      simp [FamilyView.Holds, counterView, Registry.newCounter, Registry.at?]
    exact FamilyView.refines hholds (.new Nat d) hnames fun _ => rfl
  case histogram =>
    have hholds : (histogramView (r.newHistogram d bounds).2 (bucketBounds bounds)).Holds
        (r.newHistogram d bounds).1 (.new d) := by
      simp [FamilyView.Holds, histogramView, Registry.newHistogram, Registry.at?]
    exact FamilyView.refines hholds (.new Histogram d) hnames fun _ => rfl

/-- Objects counted by namespace and phase. -/
def phaseDescriptor : Descriptor :=
  ⟨"operator_phases", "Objects by phase", ["namespace", "phase"]⟩

/-- Two objects fail, one has no phase, and the failed ones of another namespace are deleted. -/
def phaseCalls (c : Collector) : List FamilyCall :=
  [.write c (.ofList [("namespace", "prod"), ("phase", "Failed"), ("team", "web")]) 1.0,
    .write c (.ofList [("namespace", "prod"), ("phase", "Failed")]) 1.0,
    .write c (.ofList [("namespace", "prod")]) 1.0,
    .deleteMatching c (.ofList [("namespace", "test"), ("phase", "Failed")])]

/-- A registry with a new counter of phases. -/
def phaseStart : Registry × CounterRef := (Registry.new "operator").newCounter phaseDescriptor

/-- The tuples of these calls stay apart, so a counter holds what they add up to. -/
theorem families_refine_maps_phases :
    let calls := phaseCalls (.counter phaseStart.2)
    let m := (counterView phaseStart.2).mapOf phaseDescriptor.labelNames calls
    phaseDescriptor.labelNames.Nodup ∧
      m.entries = [(["prod", ""], 1), (["prod", "Failed"], 2)] ∧
      (∃ f, (counterView phaseStart.2).Holds (FamilyCall.performAll phaseStart.1 calls) f ∧
        f.Depicts m) ∧
      (FamilyCall.perform (FamilyCall.performAll phaseStart.1 calls)
        (.deleteMatching (.counter phaseStart.2) (.ofList [("phase", "Failed")]))).2 =
          .removed 1 := by
  intro calls m
  have hnames : phaseDescriptor.labelNames.Nodup := by decide
  obtain ⟨-, hcounter, -⟩ := families_refine_maps (.new "operator") phaseDescriptor hnames
  have hapart : ∀ p ∈ calls.inits,
      Apart ((counterView phaseStart.2).mapOf phaseDescriptor.labelNames p).keys := by
    decide +kernel
  refine ⟨hnames, by decide +kernel, ?_, ?_⟩
  · exact (hcounter.series calls).mpr (fun p hp => hapart p ((List.mem_inits p calls).mpr hp))
      calls List.prefix_rfl
  · have hcall : (counterView phaseStart.2).Called (.deleteMatching (.counter phaseStart.2)
        (.ofList [("phase", "Failed")])) := by decide
    exact (hcounter.answers calls _ hcall).trans (by decide +kernel)

end Metrics

end StatusWatch
