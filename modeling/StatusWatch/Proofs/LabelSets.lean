import StatusWatch.Metrics.ConditionMetrics
import StatusWatch.Proofs.Family

/-!
# Label sets

One label map serves families that declare different names. This module computes lookups
in the label maps of a handle, the tuples that families read off them, and the tuples that
partial label maps cover.

- `LabelProjection.values`: the projected labels of a resource, by name.
- `get?_labelSet`: a label set holds the fixed labels and the projected ones.
- `tuple_eq`: a family reads the values of the names that it declares.
- `agrees_iff`: what it takes for a tuple to be covered by a partial label map.
-/

namespace StatusWatch

/-! ## Maps made from pairs -/

namespace OrderedMap

section

variable {κ α : Type} [LT κ] [DecidableEq κ] [StrictOrder κ]

theorem get?_filter (p : κ → α → Bool) (m : OrderedMap κ α) (k : κ) :
    (m.filter p).get? k = (m.get? k).filter (p k) := by
  refine Option.ext fun v => ?_
  rw [← mem_entries_iff, Option.filter_eq_some_iff, ← mem_entries_iff]
  exact List.mem_filter

variable [DecidableLT κ]

/-- Pairs with distinct keys win over the map that they are put into. -/
theorem get?_foldl_insert (k : κ) (es : List (κ × α)) : (es.map (·.1)).Nodup →
    ∀ m : OrderedMap κ α, (es.foldl (fun m e => m.insert e.1 e.2) m).get? k =
      (find? k es).or (m.get? k) := by
  induction es with
  | nil => exact fun _ _ => rfl
  | cons e es ih =>
    intro hd m
    obtain ⟨hfresh, hd⟩ := List.nodup_cons.mp hd
    rw [List.foldl_cons, ih hd, get?_insert]
    by_cases h : e.1 = k
    · subst h
      have hnone : find? e.1 es = none :=
        find?_eq_none_of_forall fun e' he' h' => hfresh (List.mem_map.mpr ⟨e', he', h'⟩)
      simp [find?, hnone]
    · simp [find?, h]

theorem get?_ofList (k : κ) {es : List (κ × α)} (hd : (es.map (·.1)).Nodup) :
    (ofList es).get? k = find? k es := by
  unfold ofList
  rw [get?_foldl_insert k es hd, get?_empty, Option.or_none]

end

end OrderedMap

/-! ## Projections -/

namespace LabelProjection

/-- The projected labels of a resource, by name, in configuration order. -/
def values (p : LabelProjection) (labels : Labels) : List (String × String) :=
  p.entries.map fun e => (e.2, (labels.get? e.1).getD "")

@[simp] theorem map_fst_values (p : LabelProjection) (labels : Labels) :
    (p.values labels).map (·.1) = p.labelNames := by
  simp [values, labelNames, Function.comp_def]

theorem isProjectedName_projectedName (key : String) :
    isProjectedName (projectedName key) = true := by
  simp [isProjectedName, projectedName]

/-- Names are kept once each, and only those that are not taken. -/
theorem distinctNames_spec (keys : List String) : ∀ seen : List String,
    ((distinctNames seen keys).map (·.2)).Nodup ∧
      ∀ n ∈ (distinctNames seen keys).map (·.2), n ∉ seen ∧ isProjectedName n = true := by
  -- over all names seen so far, as each key that is taken adds its own to them
  induction keys with
  | nil => exact fun _ => ⟨List.nodup_nil, fun _ h => nomatch h⟩
  | cons key keys ih =>
    intro seen
    unfold distinctNames
    simp only
    split
    · exact ih seen
    · rename_i hfresh
      obtain ⟨hnodup, hnames⟩ := ih (projectedName key :: seen)
      refine ⟨List.nodup_cons.mpr ⟨fun h => (hnames _ h).1 List.mem_cons_self, hnodup⟩, ?_⟩
      intro n hn
      rcases List.mem_cons.mp hn with rfl | hn
      · exact ⟨hfresh, isProjectedName_projectedName key⟩
      · exact ⟨fun h => (hnames n hn).1 (List.mem_cons_of_mem _ h), (hnames n hn).2⟩

/-- A projection with distinct names, all of them names of projected labels. -/
structure WellFormed (p : LabelProjection) : Prop where
  distinct : p.labelNames.Nodup
  projected : ∀ n ∈ p.labelNames, isProjectedName n = true

theorem wellFormed_of (keys : List String) : (of keys).WellFormed where
  distinct := (distinctNames_spec keys []).1
  projected n hn := ((distinctNames_spec keys []).2 n hn).2

theorem get?_project {p : LabelProjection} (h : p.WellFormed) (labels : Labels) (name : String) :
    (p.project labels).get? name = OrderedMap.find? name (p.values labels) :=
  OrderedMap.get?_ofList name (by
    show ((p.values labels).map (·.1)).Nodup
    rw [map_fst_values]
    exact h.distinct)

/-- Projections that are equal as maps have equal values. -/
theorem values_eq_of_project_eq {p : LabelProjection} (h : p.WellFormed) {labels labels' : Labels}
    (he : p.project labels = p.project labels') : p.values labels = p.values labels' := by
  have hfind : ∀ n, OrderedMap.find? n (p.values labels) = OrderedMap.find? n (p.values labels') :=
    fun n => by rw [← get?_project h, ← get?_project h, he]
  refine List.map_congr_left fun e hm => Prod.ext rfl ?_
  have hl : (e.2, (labels.get? e.1).getD "") ∈ p.values labels := List.mem_map_of_mem hm
  have hl' : (e.2, (labels'.get? e.1).getD "") ∈ p.values labels' := List.mem_map_of_mem hm
  rw [Metrics.mem_iff_find? (by simpa using h.distinct)] at hl hl'
  rw [hfind, hl'] at hl
  exact (Option.some.inj hl).symm

end LabelProjection

namespace Metrics

/-! ## Label sets -/

namespace ConditionMetrics

/-- The labels of a write that are not projected. -/
def fixedLabels (m : ConditionMetrics) (key : Option ResourceKey)
    (extra : List (String × String)) : List (String × String) :=
  (match key with
    | some k => [(namespaceLabel, k.ns), (nameLabel, k.name)]
    | none => []) ++
  [(groupLabel, m.groupKind.group), (kindLabel, m.groupKind.kind)] ++ extra

section

variable {m : ConditionMetrics} (h : m.projection.WellFormed) {key : Option ResourceKey}
  {extra : List (String × String)} (hd : ((m.fixedLabels key extra).map (·.1)).Nodup)
  (hfixed : ∀ e ∈ m.fixedLabels key extra, isProjectedName e.1 = false)

include h hd

/-- A label set holds the fixed labels and, besides, the projected ones. -/
theorem get?_labelSet (labels : Labels) (name : String) :
    (m.labelSet key labels extra).get? name =
      (OrderedMap.find? name (m.fixedLabels key extra)).or
        (OrderedMap.find? name (m.projection.values labels)) := by
  rw [← LabelProjection.get?_project h]
  exact OrderedMap.get?_foldl_insert name _ hd _

include hfixed

/-- Without the projected labels, only the fixed ones are left. -/
theorem get?_withoutProjection (labels : Labels) (name : String) :
    (withoutProjection (m.labelSet key labels extra)).get? name =
      OrderedMap.find? name (m.fixedLabels key extra) := by
  unfold withoutProjection
  rw [OrderedMap.get?_filter, get?_labelSet h hd]
  -- fixed labels come first, so a projected one is found only where no fixed one is
  cases hf : OrderedMap.find? name (m.fixedLabels key extra) with
  | some v =>
    have hm : (name, v) ∈ m.fixedLabels key extra := (mem_iff_find? hd name v).mpr hf
    simp [hfixed _ hm]
  | none =>
    cases hp : OrderedMap.find? name (m.projection.values labels) with
    | none => rfl
    | some v =>
      have hname : name ∈ m.projection.labelNames := by
        rw [← LabelProjection.map_fst_values m.projection labels]
        exact find?_isSome_iff.mp (by simp [hp])
      simp [h.projected name hname]

/-- The pairs of a label set: the fixed ones and the projected ones. -/
theorem get?_labelSet_of_mem (labels : Labels) {e : String × String}
    (he : e ∈ m.fixedLabels key extra ++ m.projection.values labels) :
    (m.labelSet key labels extra).get? e.1 = some e.2 := by
  rw [get?_labelSet h hd]
  rcases List.mem_append.mp he with he | he
  · rw [(mem_iff_find? hd e.1 e.2).mp he, Option.some_or]
  · have hname : e.1 ∈ m.projection.labelNames := by
      rw [← LabelProjection.map_fst_values m.projection labels]
      exact List.mem_map_of_mem he
    -- no fixed label has the name of a projected one
    have hnone : OrderedMap.find? e.1 (m.fixedLabels key extra) = none :=
      OrderedMap.find?_eq_none_of_forall fun e' he' heq => by
        have := hfixed e' he'
        rw [heq, h.projected e.1 hname] at this
        cases this
    rw [hnone, Option.none_or]
    refine (mem_iff_find? ?_ e.1 e.2).mp he
    rw [LabelProjection.map_fst_values]
    exact h.distinct

end

end ConditionMetrics

/-! ## Reading and covering tuples -/

/-- A family that declares the names of some pairs reads their values. -/
theorem tuple_eq {i : SeriesIndex} {labels : Labels} {pairs : List (String × String)}
    (hnames : i.labelNames = pairs.map (·.1)) (h : ∀ e ∈ pairs, labels.get? e.1 = some e.2) :
    i.tuple labels = pairs.map (·.2) := by
  rw [SeriesIndex.tuple, hnames, List.map_map]
  exact List.map_congr_left fun e he => by simp [h e he]

/-- A partial label map covers a tuple if the tuple has all its values. -/
theorem agrees_iff {i : SeriesIndex} {labels : Labels} {pairs : List (String × String)}
    (hnames : i.labelNames = pairs.map (·.1)) :
    i.agrees labels (pairs.map (·.2)) = true ↔
      ∀ name value, labels.get? name = some value → OrderedMap.find? name pairs = some value := by
  have hzip : i.labelNames.zip (pairs.map (·.2)) = pairs := by
    rw [hnames, ← List.unzip_fst, ← List.unzip_snd, List.zip_unzip]
  simp only [SeriesIndex.agrees, SeriesIndex.valueOf?, hzip, List.all_eq_true, decide_eq_true_eq]
  constructor
  · exact fun h name value hv => h (name, value) ((labels.mem_entries_iff name value).mpr hv)
  · exact fun h e he => h e.1 e.2 ((labels.mem_entries_iff e.1 e.2).mp he)

/-- The labels of a full tuple are its values under their names. -/
theorem SeriesIndex.mem_zip_iff {i : SeriesIndex} (hnodup : i.labelNames.Nodup) {t : LabelTuple}
    (hfull : t.length = i.labelNames.length) (name value : String) :
    (name, value) ∈ i.labelNames.zip t ↔ i.valueOf? t name = some value := by
  refine mem_iff_find? ?_ name value
  rw [List.map_fst_zip (Nat.le_of_eq hfull.symm)]
  exact hnodup

/-- Lookups in the labels that a family declares. -/
theorem get?_declared (c : Collector) (labels : Labels) (name : String) :
    (c.declared labels).get? name =
      if name ∈ c.descriptor.labelNames then labels.get? name else none := by
  unfold Collector.declared
  rw [OrderedMap.get?_filter]
  by_cases h : name ∈ c.descriptor.labelNames <;> cases labels.get? name <;> simp [h]

end Metrics

end StatusWatch
