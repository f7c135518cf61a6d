import Mathlib.Data.List.Basic
import Mathlib.Data.List.Nodup
import Mathlib.Data.List.Perm.Basic
import StatusWatch.Metrics.Family

/-!
# Families as maps

A family answers to tuples of label values, but its vector tells series apart by the text
that the values run together to, and its index is kept beside the vector. This module
gives both of them one view and says when they agree.

- `Family.value?`: the value of the series that shows a tuple, the view of the vector.
- `Family.WellFormed`: what every family keeps: one index entry per tuple and one series
  per text.
- `Apart`: different tuples have different texts.
- `Family.Mirrors`: the index holds exactly the tuples that are shown.
- `value?_record`, `value?_deleteMatching`: as long as the live tuples are apart, a family
  is a map from tuples to values.
- `value?_record_of_runTogether`: a tuple that runs together with another live one gets no
  series of its own.
- `Family.labelled`: the series with their labels, which is what is exposed.
-/

namespace StatusWatch.Metrics

/-! ## Lists of entries -/

/-- With distinct keys, the entries are what lookups find. -/
theorem mem_iff_find? {κ α : Type} [DecidableEq κ] {l : List (κ × α)} (h : (l.map (·.1)).Nodup)
    (k : κ) (a : α) : (k, a) ∈ l ↔ OrderedMap.find? k l = some a := by
  induction l with
  | nil => simp [OrderedMap.find?]
  | cons e l ih =>
    obtain ⟨k₀, a₀⟩ := e
    obtain ⟨hk, hl⟩ := List.nodup_cons.mp h
    have ih := ih hl
    by_cases hk₀ : k₀ = k
    · subst hk₀
      have hnot : (k₀, a) ∉ l := fun hm => hk (List.mem_map_of_mem (f := (·.1)) hm)
      simp [OrderedMap.find?, hnot, eq_comm]
    · simp [OrderedMap.find?, hk₀, Ne.symm hk₀, ih]

theorem find?_isSome_iff {κ α : Type} [DecidableEq κ] {l : List (κ × α)} {k : κ} :
    (OrderedMap.find? k l).isSome ↔ k ∈ l.map (·.1) := by
  induction l with
  | nil => simp [OrderedMap.find?]
  | cons e l ih =>
    by_cases h : e.1 = k
    · simp [OrderedMap.find?, h]
    · simp only [OrderedMap.find?, h, if_false, ih, List.map_cons, List.mem_cons]
      exact ⟨Or.inr, fun hm => hm.resolve_left fun e' => h e'.symm⟩

/-! ## Texts of tuples -/

/-- Different tuples of the list have different texts. -/
def Apart (tuples : List LabelTuple) : Prop :=
  ∀ a ∈ tuples, ∀ b ∈ tuples, a.joined = b.joined → a = b

instance (tuples : List LabelTuple) : Decidable (Apart tuples) :=
  inferInstanceAs (Decidable (∀ a ∈ tuples, ∀ b ∈ tuples, a.joined = b.joined → a = b))

theorem Apart.mono {l l' : List LabelTuple} (h : Apart l') (hs : l ⊆ l') : Apart l :=
  fun a ha b hb => h a (hs ha) b (hs hb)

namespace SeriesVec

variable {α : Type}

/-- The texts of a vector after a write: that of the written tuple joins them. -/
theorem joined_put (tuple : LabelTuple) (f : Option α → α) (l : List (LabelTuple × α)) :
    (put tuple f l).map (·.1.joined) =
      if tuple.joined ∈ l.map (·.1.joined) then l.map (·.1.joined)
      else l.map (·.1.joined) ++ [tuple.joined] := by
  induction l with
  | nil => simp [put]
  | cons s l ih =>
    by_cases h : s.1.joined = tuple.joined
    · simp [put, h]
    · simp only [put, h, if_false, List.map_cons, List.mem_cons, Ne.symm h, false_or, ih]
      split <;> rfl

/-- A write to a tuple that shares its text with no other one is a write to a map. -/
theorem find?_put {tuple : LabelTuple} (f : Option α → α) {l : List (LabelTuple × α)}
    (h : ∀ s ∈ l, s.1.joined = tuple.joined → s.1 = tuple) (t : LabelTuple) :
    OrderedMap.find? t (put tuple f l) =
      if t = tuple then some (f (OrderedMap.find? tuple l)) else OrderedMap.find? t l := by
  induction l with
  | nil => simp [put, OrderedMap.find?, eq_comm]
  | cons s l ih =>
    obtain ⟨t₀, a₀⟩ := s
    have ih := ih fun s hs => h s (List.mem_cons_of_mem _ hs)
    -- entries are found by their texts, and the hypothesis makes texts tell tuples apart
    by_cases hj : t₀.joined = tuple.joined
    · have heq : t₀ = tuple := h (t₀, a₀) List.mem_cons_self hj
      subst heq
      by_cases ht : t = t₀
      · simp [put, OrderedMap.find?, ht]
      · simp [put, OrderedMap.find?, ht, Ne.symm ht]
    · have hne : t₀ ≠ tuple := fun e => hj (e ▸ rfl)
      simp only [put, hj, if_false, OrderedMap.find?, hne, ih]
      by_cases ht : t₀ = t
      · subst ht
        simp [hne]
      · simp [ht]

/-- A write makes no other tuple shown. -/
theorem find?_put_ne {tuple t : LabelTuple} (f : Option α → α) (l : List (LabelTuple × α))
    (ht : t ≠ tuple) (hnone : OrderedMap.find? t l = none) :
    OrderedMap.find? t (put tuple f l) = none := by
  induction l with
  | nil => simp [put, OrderedMap.find?, Ne.symm ht]
  | cons s l ih =>
    by_cases hs : s.1 = t
    · simp [OrderedMap.find?, hs] at hnone
    · simp only [OrderedMap.find?, hs, if_false] at hnone
      unfold put
      split
      · simp [OrderedMap.find?, hs, hnone]
      · simp [OrderedMap.find?, hs, ih hnone]

/-- A write to a tuple whose text belongs to another one does not make it shown. -/
theorem find?_put_of_joined_mem {tuple : LabelTuple} (f : Option α → α)
    {l : List (LabelTuple × α)} (hmem : tuple.joined ∈ l.map (·.1.joined))
    (hnone : OrderedMap.find? tuple l = none) :
    OrderedMap.find? tuple (put tuple f l) = none := by
  induction l with
  | nil => simp at hmem
  | cons s l ih =>
    by_cases hs : s.1 = tuple
    · simp [OrderedMap.find?, hs] at hnone
    · simp only [OrderedMap.find?, hs, if_false] at hnone
      by_cases hj : s.1.joined = tuple.joined
      · simp [put, hj, OrderedMap.find?, hs, hnone]
      · have hmem : tuple.joined ∈ l.map (·.1.joined) := by
          simpa [Ne.symm hj] using hmem
        simp [put, hj, OrderedMap.find?, hs, ih hmem hnone]

theorem find?_filter_joined (text : String) (l : List (LabelTuple × α)) (t : LabelTuple) :
    OrderedMap.find? t (l.filter fun s => s.1.joined ≠ text) =
      if t.joined = text then none else OrderedMap.find? t l := by
  induction l with
  | nil => simp [OrderedMap.find?]
  | cons s l ih =>
    obtain ⟨t₀, a₀⟩ := s
    rw [List.filter_cons]
    by_cases hj : t₀.joined = text
    · rw [if_neg (by simp [hj]), ih]
      by_cases ht : t.joined = text
      · simp [ht]
      · have hne : t₀ ≠ t := fun e => ht (e ▸ hj)
        simp [ht, OrderedMap.find?, hne]
    · rw [if_pos (by simp [hj])]
      simp only [OrderedMap.find?, ih]
      by_cases ht : t₀ = t
      · subst ht
        simp [hj]
      · simp [ht]

end SeriesVec

theorem SeriesIndex.live_add (i : SeriesIndex) (tuple : LabelTuple) :
    (i.add tuple).live = if tuple ∈ i.live then i.live else i.live ++ [tuple] := by
  unfold add contains
  by_cases h : tuple ∈ i.live <;> simp [h]

namespace Family

variable {α : Type}

/-! ## The view of a family -/

/-- The value of the series that shows a tuple. -/
def value? (f : Family α) (tuple : LabelTuple) : Option α := OrderedMap.find? tuple f.vec.series

/-- What every family keeps: full tuples only, one index entry per tuple, one series per
text, and no series outside the index. -/
structure WellFormed (f : Family α) : Prop where
  width : f.vec.width = f.index.labelNames.length
  full : ∀ t ∈ f.index.live, t.length = f.index.labelNames.length
  distinct : f.index.live.Nodup
  texts : (f.vec.series.map (·.1.joined)).Nodup
  indexed : ∀ t, (f.value? t).isSome → t ∈ f.index.live

/-- The index holds exactly the tuples that are shown. -/
def Mirrors (f : Family α) : Prop := ∀ t, t ∈ f.index.live ↔ (f.value? t).isSome

theorem WellFormed.tuples {f : Family α} (h : f.WellFormed) : (f.vec.series.map (·.1)).Nodup :=
  List.Nodup.of_map LabelTuple.joined (by simpa [Function.comp_def] using h.texts)

/-- Shown tuples are apart. -/
theorem WellFormed.eq_of_joined {f : Family α} (h : f.WellFormed) {a b : LabelTuple}
    (ha : (f.value? a).isSome) (hb : (f.value? b).isSome) (hj : a.joined = b.joined) : a = b := by
  obtain ⟨s, hs, rfl⟩ := List.mem_map.mp (find?_isSome_iff.mp ha)
  obtain ⟨s', hs', rfl⟩ := List.mem_map.mp (find?_isSome_iff.mp hb)
  exact congrArg Prod.fst (List.inj_on_of_nodup_map h.texts hs hs' hj)

theorem Mirrors.apart {f : Family α} (hm : f.Mirrors) (h : f.WellFormed) : Apart f.index.live :=
  fun a ha b hb => h.eq_of_joined ((hm a).mp ha) ((hm b).mp hb)

theorem wellFormed_new (d : Descriptor) : (new d : Family α).WellFormed :=
  { width := rfl, full := fun _ ht => (nomatch ht),
    distinct := List.nodup_nil, texts := List.nodup_nil, indexed := fun _ ht => (nomatch ht) }

@[simp] theorem length_tuple (i : SeriesIndex) (labels : Labels) :
    (i.tuple labels).length = i.labelNames.length := by
  simp [SeriesIndex.tuple]

/-! ## Writing -/

@[simp] theorem labelNames_record (f : Family α) (labels : Labels) (step : Option α → α) :
    (f.record labels step).index.labelNames = f.index.labelNames := by
  simp only [record, SeriesIndex.add]
  split <;> rfl

@[simp] theorem tuple_record (f : Family α) (labels labels' : Labels) (step : Option α → α) :
    (f.record labels step).index.tuple labels' = f.index.tuple labels' := by
  simp [SeriesIndex.tuple]

theorem live_record (f : Family α) (labels : Labels) (step : Option α → α) (t : LabelTuple) :
    t ∈ (f.record labels step).index.live ↔ t = f.index.tuple labels ∨ t ∈ f.index.live := by
  simp only [record, SeriesIndex.live_add]
  split
  · rename_i hmem
    exact ⟨Or.inr, fun h => h.elim (fun e => e ▸ hmem) id⟩
  · simp [or_comm]

/-- Tuples read off label maps are full, so the vector takes every write. -/
theorem series_record {f : Family α} (h : f.WellFormed) (labels : Labels) (step : Option α → α) :
    (f.record labels step).vec =
      { f.vec with series := SeriesVec.put (f.index.tuple labels) step f.vec.series } := by
  simp [record, SeriesVec.write?, h.width]

/-- Writing a tuple that runs together with no shown one is writing a map. -/
theorem value?_record {f : Family α} (h : f.WellFormed) (labels : Labels) (step : Option α → α)
    (hapart : ∀ t, (f.value? t).isSome → t.joined = (f.index.tuple labels).joined →
      t = f.index.tuple labels) (t : LabelTuple) :
    (f.record labels step).value? t =
      if t = f.index.tuple labels then some (step (f.value? (f.index.tuple labels)))
      else f.value? t := by
  unfold value?
  rw [series_record h]
  refine SeriesVec.find?_put step (fun s hs hj => hapart s.1 ?_ hj) t
  exact find?_isSome_iff.mpr (List.mem_map_of_mem hs)

/-- A write shows no other tuple than the one it writes. -/
theorem value?_record_ne {f : Family α} (h : f.WellFormed) {labels : Labels}
    (step : Option α → α) {t : LabelTuple} (ht : t ≠ f.index.tuple labels)
    (hnone : f.value? t = none) : (f.record labels step).value? t = none := by
  unfold value?
  rw [series_record h]
  exact SeriesVec.find?_put_ne step _ ht hnone

theorem WellFormed.record {f : Family α} (h : f.WellFormed) (labels : Labels)
    (step : Option α → α) : (f.record labels step).WellFormed where
  width := by rw [series_record h]; simpa using h.width
  full t ht := by
    rcases (live_record f labels step t).mp ht with rfl | ht
    · simp
    · simpa using h.full t ht
  distinct := by
    simp only [Family.record, SeriesIndex.live_add]
    split
    · exact h.distinct
    · rename_i hnot
      exact List.nodup_append.mpr ⟨h.distinct, List.nodup_singleton _, fun a ha b hb e =>
        hnot (List.mem_singleton.mp hb ▸ e ▸ ha)⟩
  texts := by
    rw [series_record h]
    show ((SeriesVec.put (f.index.tuple labels) step f.vec.series).map (·.1.joined)).Nodup
    rw [SeriesVec.joined_put]
    split
    · exact h.texts
    · rename_i hnot
      exact List.nodup_append.mpr ⟨h.texts, List.nodup_singleton _, fun a ha b hb e =>
        hnot (List.mem_singleton.mp hb ▸ e ▸ ha)⟩
  indexed t ht := by
    rw [live_record]
    -- a record shows no tuple but its own that was not shown before
    by_contra hnot
    push Not at hnot
    have hnone : f.value? t = none :=
      Option.not_isSome_iff_eq_none.mp fun hs => hnot.2 (h.indexed t hs)
    rw [value?_record_ne h step hnot.1 hnone] at ht
    cases ht

/-- A tuple that runs together with a shown one gets no series of its own. -/
theorem value?_record_of_runTogether {f : Family α} (h : f.WellFormed) (labels : Labels)
    (step : Option α → α) {t : LabelTuple} (ht : (f.value? t).isSome)
    (hj : t.joined = (f.index.tuple labels).joined) (hne : t ≠ f.index.tuple labels) :
    (f.record labels step).value? (f.index.tuple labels) = none := by
  have hnone : f.value? (f.index.tuple labels) = none := by
    by_contra hsome
    exact hne (h.eq_of_joined ht (Option.isSome_iff_ne_none.mpr hsome) hj)
  have hmem : (f.index.tuple labels).joined ∈ f.vec.series.map (·.1.joined) := by
    obtain ⟨s, hs, rfl⟩ := List.mem_map.mp (find?_isSome_iff.mp ht)
    exact hj ▸ List.mem_map_of_mem (f := (·.1.joined)) hs
  unfold value?
  rw [series_record h]
  exact SeriesVec.find?_put_of_joined_mem step hmem hnone

/-- While the live tuples stay apart, index and vector stay in step. -/
theorem Mirrors.record {f : Family α} (hm : f.Mirrors) (h : f.WellFormed) {labels : Labels}
    (step : Option α → α) (hapart : Apart (f.index.tuple labels :: f.index.live)) :
    (f.record labels step).Mirrors := by
  intro t
  have hone : ∀ t, (f.value? t).isSome → t.joined = (f.index.tuple labels).joined →
      t = f.index.tuple labels := fun t ht hj =>
    hapart t (List.mem_cons_of_mem _ ((hm t).mpr ht)) _ List.mem_cons_self hj
  rw [live_record, value?_record h labels step hone]
  by_cases ht : t = f.index.tuple labels
  · simp [ht]
  · simpa [ht] using hm t

/-! ## Deleting -/

@[simp] theorem labelNames_drop (f : Family α) (tuple : LabelTuple) :
    (f.drop tuple).index.labelNames = f.index.labelNames := rfl

theorem live_drop (f : Family α) (tuple t : LabelTuple) :
    t ∈ (f.drop tuple).index.live ↔ t ∈ f.index.live ∧ t ≠ tuple := by
  simp [drop, SeriesIndex.remove]

theorem series_drop {f : Family α} (h : f.WellFormed) {tuple : LabelTuple}
    (hlen : tuple.length = f.index.labelNames.length) :
    (f.drop tuple).vec =
      { f.vec with series := f.vec.series.filter fun s => s.1.joined ≠ tuple.joined } := by
  simp [drop, SeriesVec.remove?, h.width, hlen]

theorem value?_drop {f : Family α} (h : f.WellFormed) {tuple : LabelTuple}
    (hlen : tuple.length = f.index.labelNames.length) (t : LabelTuple) :
    (f.drop tuple).value? t = if t.joined = tuple.joined then none else f.value? t := by
  unfold value?
  rw [series_drop h hlen]
  exact SeriesVec.find?_filter_joined tuple.joined f.vec.series t

theorem WellFormed.drop {f : Family α} (h : f.WellFormed) {tuple : LabelTuple}
    (hlen : tuple.length = f.index.labelNames.length) : (f.drop tuple).WellFormed where
  width := by rw [series_drop h hlen]; exact h.width
  full t ht := h.full t ((live_drop f tuple t).mp ht).1
  distinct := h.distinct.filter _
  texts := by
    rw [series_drop h hlen]
    exact h.texts.sublist (List.filter_sublist.map _)
  indexed t ht := by
    rw [value?_drop h hlen] at ht
    split at ht
    · cases ht
    · rename_i hne
      exact (live_drop f tuple t).mpr ⟨h.indexed t ht, fun e => hne (e ▸ rfl)⟩

/-- Dropping live tuples one after the other: index, vector and well-formedness. -/
theorem foldl_drop {tuples : List LabelTuple} : ∀ {f : Family α}, f.WellFormed →
    (∀ t ∈ tuples, t.length = f.index.labelNames.length) →
    (tuples.foldl drop f).WellFormed ∧
      (tuples.foldl drop f).index.labelNames = f.index.labelNames ∧
      (∀ t, t ∈ (tuples.foldl drop f).index.live ↔ t ∈ f.index.live ∧ t ∉ tuples) ∧
      (∀ t, (tuples.foldl drop f).value? t =
        if t.joined ∈ tuples.map LabelTuple.joined then none else f.value? t) := by
  induction tuples with
  | nil => exact fun h _ => ⟨h, rfl, by simp, by simp⟩
  | cons d ds ih =>
    intro f h hlen
    have hd := hlen d List.mem_cons_self
    obtain ⟨hwf, hnames, hlive, hvalue⟩ :=
      ih (h.drop hd) fun t ht => hlen t (List.mem_cons_of_mem _ ht)
    refine ⟨hwf, hnames, fun t => ?_, fun t => ?_⟩
    · rw [List.foldl_cons, hlive, live_drop, List.mem_cons, not_or, and_assoc]
    · rw [List.foldl_cons, hvalue, value?_drop h hd, List.map_cons]
      by_cases h₁ : t.joined = d.joined
      · simp [h₁]
      · simp [h₁]

section Delete

variable {f : Family α} (labels : Labels)

@[simp] theorem labelNames_delete :
    (f.delete labels).1.index.labelNames = f.index.labelNames := by
  rw [delete]
  split <;> rfl

theorem live_delete (t : LabelTuple) :
    t ∈ (f.delete labels).1.index.live ↔ t ∈ f.index.live ∧ t ≠ f.index.tuple labels := by
  rw [delete]
  cases hfound : f.index.contains (f.index.tuple labels) with
  | true => exact live_drop f _ t
  | false =>
    have hnot : f.index.tuple labels ∉ f.index.live := by
      simpa [SeriesIndex.contains] using hfound
    exact ⟨fun ht => ⟨ht, fun e => hnot (e ▸ ht)⟩, And.left⟩

variable (h : f.WellFormed)

include h

theorem WellFormed.delete : (f.delete labels).1.WellFormed := by
  rw [Family.delete]
  split
  · exact h.drop (length_tuple _ _)
  · exact h

/-- As long as index and vector are in step, deleting a series is erasing it from a map. -/
theorem value?_delete (hm : f.Mirrors) (t : LabelTuple) :
    (f.delete labels).1.value? t = if t = f.index.tuple labels then none else f.value? t := by
  rw [Family.delete]
  cases hfound : f.index.contains (f.index.tuple labels) with
  | true =>
    have hshown : (f.value? (f.index.tuple labels)).isSome :=
      (hm _).mp (List.contains_iff_mem.mp hfound)
    show (f.drop _).value? t = _
    rw [value?_drop h (length_tuple _ _)]
    by_cases ht : t = f.index.tuple labels
    · simp [ht]
    · by_cases hj : t.joined = (f.index.tuple labels).joined
      · -- no other tuple that is shown has the text of the one that is dropped
        have hnone : f.value? t = none := Option.not_isSome_iff_eq_none.mp fun hsome =>
          ht (h.eq_of_joined hsome hshown hj)
        simp [hj, ht, hnone]
      · simp [hj, ht]
  | false =>
    have hnone : f.value? (f.index.tuple labels) = none := by
      refine Option.not_isSome_iff_eq_none.mp fun hsome => ?_
      rw [SeriesIndex.contains, List.contains_iff_mem.mpr ((hm _).mpr hsome)] at hfound
      cases hfound
    show f.value? t = _
    split
    · rename_i heq
      rw [heq, hnone]
    · rfl

end Delete

section DeleteMatching

variable {f : Family α} (h : f.WellFormed) (labels : Labels)

theorem mem_matching {t : LabelTuple} :
    t ∈ f.matching labels ↔ t ∈ f.index.live ∧ f.index.agrees labels t = true := by
  simp [matching]

include h

theorem full_matching : ∀ t ∈ f.matching labels, t.length = f.index.labelNames.length :=
  fun t ht => h.full t ((mem_matching labels).mp ht).1

theorem WellFormed.deleteMatching : (f.deleteMatching labels).1.WellFormed :=
  (foldl_drop h (full_matching h labels)).1

theorem labelNames_deleteMatching :
    (f.deleteMatching labels).1.index.labelNames = f.index.labelNames :=
  (foldl_drop h (full_matching h labels)).2.1

theorem live_deleteMatching (t : LabelTuple) :
    t ∈ (f.deleteMatching labels).1.index.live ↔
      t ∈ f.index.live ∧ f.index.agrees labels t = false := by
  show t ∈ ((f.matching labels).foldl drop f).index.live ↔ _
  rw [(foldl_drop h (full_matching h labels)).2.2.1 t, mem_matching, not_and,
    Bool.not_eq_true, and_congr_right_iff]
  exact fun ht => ⟨fun hn => hn ht, fun hn _ => hn⟩

/-- A deletion shows nothing new. -/
theorem value?_deleteMatching_of_none {t : LabelTuple} (hnone : f.value? t = none) :
    (f.deleteMatching labels).1.value? t = none := by
  show ((f.matching labels).foldl drop f).value? t = none
  rw [(foldl_drop h (full_matching h labels)).2.2.2 t, hnone, ite_self]

/-- As long as index and vector are in step, deleting by partial labels is filtering a
map. -/
theorem value?_deleteMatching (hm : f.Mirrors) (t : LabelTuple) :
    (f.deleteMatching labels).1.value? t =
      if f.index.agrees labels t then none else f.value? t := by
  show ((f.matching labels).foldl drop f).value? t = _
  rw [(foldl_drop h (full_matching h labels)).2.2.2 t]
  cases hv : f.value? t with
  | none => simp
  | some a =>
    have hsome : (f.value? t).isSome := by simp [hv]
    -- shown tuples have different texts, so what goes with the text of a match is that match
    have hiff : t.joined ∈ (f.matching labels).map LabelTuple.joined ↔
        f.index.agrees labels t = true := by
      constructor
      · intro hmem
        obtain ⟨d, hd, hj⟩ := List.mem_map.mp hmem
        obtain ⟨hlive, hagrees⟩ := (mem_matching labels).mp hd
        exact h.eq_of_joined ((hm d).mp hlive) hsome hj ▸ hagrees
      · exact fun hagrees =>
          List.mem_map_of_mem ((mem_matching labels).mpr ⟨(hm t).mpr hsome, hagrees⟩)
    simp only [hiff]

theorem Mirrors.deleteMatching (hm : f.Mirrors) : (f.deleteMatching labels).1.Mirrors := by
  intro t
  rw [live_deleteMatching h, value?_deleteMatching h labels hm, hm t]
  cases f.index.agrees labels t <;> simp

end DeleteMatching

/-! ## Series with their labels -/

/-- The series of a family, each with its labels. -/
def labelled (f : Family α) : List (List (String × String) × α) :=
  f.vec.series.map fun s => (f.index.labelNames.zip s.1, s.2)

section Labelled

variable {f : Family α} (h : f.WellFormed)

include h

/-- Shown tuples are full. -/
theorem length_of_shown {s : LabelTuple × α} (hs : s ∈ f.vec.series) :
    s.1.length = f.index.labelNames.length := by
  refine h.full s.1 (h.indexed s.1 ?_)
  exact find?_isSome_iff.mpr (List.mem_map_of_mem hs)

/-- No labels are shown twice. -/
theorem nodup_labelled : (f.labelled.map (·.1)).Nodup := by
  unfold labelled
  rw [List.map_map]
  have hnodup := h.tuples
  unfold List.Nodup at hnodup ⊢
  rw [List.pairwise_map] at hnodup ⊢
  refine hnodup.imp_of_mem fun {a b} ha hb hne heq => hne ?_
  have := congrArg (List.map (·.2)) heq
  simpa [List.map_snd_zip, length_of_shown h ha, length_of_shown h hb] using this

variable {expected : List (List (String × String) × α)}
  (hnames : ∀ e ∈ expected, e.1.map (·.1) = f.index.labelNames)

include hnames

/-- Comparing series with their labels is comparing tuples. -/
theorem perm_labelled_iff_tuples :
    f.labelled.Perm expected ↔ f.vec.series.Perm (expected.map fun e => (e.1.map (·.2), e.2)) := by
  have hback : f.labelled.map (fun e => (e.1.map (·.2), e.2)) = f.vec.series := by
    unfold labelled
    rw [List.map_map]
    refine (List.map_congr_left fun s hs => ?_).trans (List.map_id _)
    simp [List.map_snd_zip, length_of_shown h hs]
  have hforth : (expected.map fun e => (e.1.map (·.2), e.2)).map
      (fun s => (f.index.labelNames.zip s.1, s.2)) = expected := by
    rw [List.map_map]
    refine (List.map_congr_left fun e he => ?_).trans (List.map_id _)
    simp [← hnames e he, List.zip_map', List.map_id']
  constructor
  · intro hperm
    exact hback ▸ hperm.map _
  · intro hperm
    exact hforth ▸ hperm.map _

/-- A family shows some series exactly if its view finds them and no others. -/
theorem perm_labelled_iff (hnodup : (expected.map fun e => e.1.map (·.2)).Nodup) :
    f.labelled.Perm expected ↔
      ∀ t v, f.value? t = some v ↔ (t, v) ∈ expected.map fun e => (e.1.map (·.2), e.2) := by
  rw [perm_labelled_iff_tuples h hnames]
  constructor
  · intro hperm t v
    rw [← hperm.mem_iff]
    exact (mem_iff_find? h.tuples t v).symm
  · intro hview
    have hkeys : ((expected.map fun e => (e.1.map (·.2), e.2)).map (·.1)).Nodup := by
      rw [List.map_map]
      exact hnodup
    refine (List.perm_ext_iff_of_nodup (List.Nodup.of_map _ h.tuples)
      (List.Nodup.of_map _ hkeys)).mpr ?_
    rintro ⟨t, v⟩
    rw [← hview t v]
    exact mem_iff_find? h.tuples t v

end Labelled

end Family

end StatusWatch.Metrics
