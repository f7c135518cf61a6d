import StatusWatch.Proofs.LabelSets

/-!
# Labels of presence series

The presence and age of a condition are shown once per surface: in the families of the
kind with the projected labels of the resource, and in the shared families with group and
kind instead. Both surfaces behave alike, which `Layout` says once for both.

- `kindLabels`, `sharedLabels`: the labels of a condition on either surface.
- `Layout`: what a surface makes of the label maps of a handle: what is written, and what
  is covered when a resource or a stale state is deleted.
- `layout_kind`, `layout_shared`: both surfaces have such a layout.
-/

namespace StatusWatch

/-- Different statuses are written differently. -/
theorem ConditionStatus.text_inj {a b : ConditionStatus} : a.text = b.text ↔ a = b := by
  cases a <;> cases b <;> simp [ConditionStatus.text]

theorem ResourceKey.eq_iff {a b : ResourceKey} : a = b ↔ a.ns = b.ns ∧ a.name = b.name := by
  constructor
  · rintro rfl
    exact ⟨rfl, rfl⟩
  · cases a
    cases b
    rintro ⟨rfl, rfl⟩
    rfl

namespace Metrics.ConditionMetrics

/-- Labels by resource, resource labels and condition. -/
abbrev PresenceLabels := ResourceKey → Labels → Condition → List (String × String)

/-- The labels of a condition in the families of the kind. -/
def kindLabels (m : ConditionMetrics) : PresenceLabels := fun key labels c =>
  [(namespaceLabel, key.ns), (nameLabel, key.name), (typeLabel, c.type),
    (statusLabel, c.status.text), (reasonLabel, c.reason)] ++ m.projection.values labels

/-- The labels of a condition in the shared families. -/
def sharedLabels (m : ConditionMetrics) : PresenceLabels := fun key _ c =>
  [(namespaceLabel, key.ns), (nameLabel, key.name), (groupLabel, m.groupKind.group),
    (kindLabel, m.groupKind.kind), (typeLabel, c.type), (statusLabel, c.status.text),
    (reasonLabel, c.reason)]

/-- The values of some labels, the tuple of their series. -/
def tupleOf (pairs : List (String × String)) : LabelTuple := pairs.map (·.2)

/-- What a surface makes of the label maps of a handle. -/
structure Layout (m : ConditionMetrics) (c : Collector) (pairs : PresenceLabels) : Prop where
  /-- The declared names, in order. -/
  names : ∀ k l d, (pairs k l d).map (·.1) = c.descriptor.labelNames
  /-- A write puts every label under its name. -/
  written : ∀ k l d, ∀ e ∈ pairs k l d, (m.labelSet (some k) l (stateOf d)).get? e.1 = some e.2
  /-- Forgetting a resource covers all of its series and no other. -/
  forgotten : ∀ i : SeriesIndex, i.labelNames = c.descriptor.labelNames → ∀ k k' l d,
    i.agrees (c.declared (m.resourceSet k [])) (tupleOf (pairs k' l d)) = true ↔ k' = k
  /-- Deleting a stale state covers the series of that state of the resource. -/
  stale : ∀ i : SeriesIndex, i.labelNames = c.descriptor.labelNames → ∀ k old k' l d,
    i.agrees (c.declared (m.resourceSet k (stateOf old))) (tupleOf (pairs k' l d)) = true ↔
      k' = k ∧ d.type = old.type ∧ d.status = old.status ∧ d.reason = old.reason
  /-- Only a change of projected labels changes the labels of a condition. -/
  unchanged : ∀ l l', m.projectionChanged l l' = false → ∀ k d, pairs k l d = pairs k l' d
  /-- Of a condition, only the state is shown. -/
  state : ∀ k l d d', d.type = d'.type → d.status = d'.status → d.reason = d'.reason →
    pairs k l d = pairs k l d'

/-- The tuple of a series tells whose state it shows. -/
theorem Layout.injective {m : ConditionMetrics} {c : Collector} {pairs : PresenceLabels}
    (h : m.Layout c pairs) {k k' : ResourceKey} {l l' : Labels} {d d' : Condition}
    (heq : tupleOf (pairs k l d) = tupleOf (pairs k' l' d')) :
    k = k' ∧ d.type = d'.type ∧ d.status = d'.status ∧ d.reason = d'.reason := by
  have hself := (h.stale ⟨c.descriptor.labelNames, []⟩ rfl k' d' k' l' d').mpr ⟨rfl, rfl, rfl, rfl⟩
  rw [← heq] at hself
  exact (h.stale _ rfl k' d' k l d).mp hself

/-! ## Covering in terms of the fixed labels -/

section

variable {m : ConditionMetrics} (h : m.projection.WellFormed) {key : ResourceKey}
  {extra : List (String × String)} (hd : ((m.fixedLabels (some key) extra).map (·.1)).Nodup)
  (hfixed : ∀ e ∈ m.fixedLabels (some key) extra, isProjectedName e.1 = false)

include h hd hfixed

/-- A tuple is covered if it has all fixed labels that the family declares. -/
theorem agrees_resourceSet_iff {c : Collector} {i : SeriesIndex} {pairs : List (String × String)}
    (hi : i.labelNames = c.descriptor.labelNames) (hnames : pairs.map (·.1) = i.labelNames) :
    i.agrees (c.declared (m.resourceSet key extra)) (tupleOf pairs) = true ↔
      ∀ e ∈ m.fixedLabels (some key) extra, e.1 ∈ pairs.map (·.1) →
        OrderedMap.find? e.1 pairs = some e.2 := by
  unfold tupleOf
  rw [agrees_iff hnames.symm]
  simp only [resourceSet, get?_declared, get?_withoutProjection h hd hfixed, ← hi, ← hnames]
  constructor
  · intro hall e he hmem
    refine hall e.1 e.2 ?_
    rw [if_pos hmem]
    exact (mem_iff_find? hd e.1 e.2).mp he
  · intro hall name value hv
    split at hv
    · rename_i hmem
      exact hall (name, value) ((mem_iff_find? hd name value).mpr hv) hmem
    · cases hv

end

/-! ## The two surfaces -/

section

variable (m : ConditionMetrics) (key : ResourceKey)

theorem distinct_fixedLabels_state (d : Condition) :
    ((m.fixedLabels (some key) (stateOf d)).map (·.1)).Nodup := by
  show [namespaceLabel, nameLabel, groupLabel, kindLabel, typeLabel, statusLabel,
    reasonLabel].Nodup
  decide

theorem distinct_fixedLabels : ((m.fixedLabels (some key) []).map (·.1)).Nodup := by
  show [namespaceLabel, nameLabel, groupLabel, kindLabel].Nodup
  decide

theorem not_projected_fixedLabels_state (d : Condition) :
    ∀ e ∈ m.fixedLabels (some key) (stateOf d), isProjectedName e.1 = false := by
  have hall : ∀ n ∈ [namespaceLabel, nameLabel, groupLabel, kindLabel, typeLabel, statusLabel,
      reasonLabel], isProjectedName n = false := by decide
  exact fun e he => hall e.1 (List.mem_map_of_mem (f := (·.1)) he)

theorem not_projected_fixedLabels :
    ∀ e ∈ m.fixedLabels (some key) [], isProjectedName e.1 = false := by
  have hall : ∀ n ∈ [namespaceLabel, nameLabel, groupLabel, kindLabel],
      isProjectedName n = false := by decide
  exact fun e he => hall e.1 (List.mem_map_of_mem (f := (·.1)) he)

end

variable {m : ConditionMetrics} (h : m.projection.WellFormed) {c : Collector}

include h

theorem not_mem_projection {name : String} (hname : isProjectedName name = false) :
    name ∉ m.projection.labelNames := fun hmem => by
  rw [h.projected name hmem] at hname
  cases hname

/-- The families of the kind. -/
theorem layout_kind
    (hc : c.descriptor.labelNames = identityLabels ++ stateLabels ++ m.projection.labelNames) :
    m.Layout c m.kindLabels := by
  have hnames : ∀ k l d, (m.kindLabels k l d).map (·.1) = c.descriptor.labelNames := by
    intro k l d
    rw [hc]
    simp [kindLabels, identityLabels, stateLabels]
  have hgroup : "group" ∉ m.projection.labelNames := not_mem_projection h (by decide)
  have hkind : "kind" ∉ m.projection.labelNames := not_mem_projection h (by decide)
  refine { names := hnames, written := ?_, forgotten := ?_, stale := ?_, unchanged := ?_,
           state := ?_ }
  · intro k l d e he
    refine get?_labelSet_of_mem h (m.distinct_fixedLabels_state k d)
      (m.not_projected_fixedLabels_state k d) l ?_
    simp only [kindLabels, List.mem_append, List.mem_cons] at he
    simp only [fixedLabels, stateOf, List.mem_append, List.mem_cons]
    tauto
  · intro i hi k k' l d
    rw [agrees_resourceSet_iff h (m.distinct_fixedLabels k) (m.not_projected_fixedLabels k) hi
      ((hnames k' l d).trans hi.symm), ResourceKey.eq_iff]
    -- group and kind are not declared, so namespace and name are all that is compared
    simp [fixedLabels, kindLabels, OrderedMap.find?, namespaceLabel, nameLabel, groupLabel,
      kindLabel, typeLabel, statusLabel, reasonLabel, hgroup, hkind]
  · intro i hi k old k' l d
    rw [agrees_resourceSet_iff h (m.distinct_fixedLabels_state k old)
      (m.not_projected_fixedLabels_state k old) hi ((hnames k' l d).trans hi.symm),
      ResourceKey.eq_iff, ← ConditionStatus.text_inj]
    simp [fixedLabels, kindLabels, OrderedMap.find?, namespaceLabel, nameLabel, groupLabel,
      kindLabel, typeLabel, statusLabel, reasonLabel, stateOf, hgroup, hkind, and_assoc]
  · intro l l' hsame k d
    have hvalues : m.projection.values l = m.projection.values l' := by
      unfold projectionChanged at hsame
      by_cases hempty : m.projection.isEmpty = true
      · have hnil : m.projection.entries = [] := List.isEmpty_iff.mp hempty
        simp [LabelProjection.values, hnil]
      · refine LabelProjection.values_eq_of_project_eq h ?_
        simpa [hempty] using hsame
    simp only [kindLabels, hvalues]
  · intro k l d d' htype hstatus hreason
    simp only [kindLabels, htype, hstatus, hreason]

/-- The shared families. -/
theorem layout_shared
    (hc : c.descriptor.labelNames = identityLabels ++ [groupLabel, kindLabel] ++ stateLabels) :
    m.Layout c m.sharedLabels := by
  have hnames : ∀ k l d, (m.sharedLabels k l d).map (·.1) = c.descriptor.labelNames := by
    intro k l d
    rw [hc]
    rfl
  refine { names := hnames, written := ?_, forgotten := ?_, stale := ?_, unchanged := ?_,
           state := ?_ }
  · intro k l d e he
    refine get?_labelSet_of_mem h (m.distinct_fixedLabels_state k d)
      (m.not_projected_fixedLabels_state k d) l (List.mem_append_left _ ?_)
    exact he
  · -- all tuples of this handle have its group and kind, so only the identity is compared
    intro i hi k k' l d
    rw [agrees_resourceSet_iff h (m.distinct_fixedLabels k) (m.not_projected_fixedLabels k) hi
      ((hnames k' l d).trans hi.symm), ResourceKey.eq_iff]
    simp [fixedLabels, sharedLabels, OrderedMap.find?, namespaceLabel, nameLabel, groupLabel,
      kindLabel, typeLabel, statusLabel, reasonLabel]
  · intro i hi k old k' l d
    rw [agrees_resourceSet_iff h (m.distinct_fixedLabels_state k old)
      (m.not_projected_fixedLabels_state k old) hi ((hnames k' l d).trans hi.symm),
      ResourceKey.eq_iff, ← ConditionStatus.text_inj]
    simp [fixedLabels, sharedLabels, OrderedMap.find?, namespaceLabel, nameLabel, groupLabel,
      kindLabel, typeLabel, statusLabel, reasonLabel, stateOf, and_assoc]
  · exact fun _ _ _ _ _ => rfl
  · intro k l d d' htype hstatus hreason
    simp only [sharedLabels, htype, hstatus, hreason]

end Metrics.ConditionMetrics

end StatusWatch
