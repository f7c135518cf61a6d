import Mathlib.Algebra.Order.BigOperators.Group.List
import Mathlib.Algebra.Order.Group.Nat
import Mathlib.Data.List.ProdSigma
import StatusWatch.Proofs.SharedFamilies

/-!
# Deleting by identity

A resource that is gone takes its series along, and so does a state of a condition that no longer
holds. Which series these are is told by some labels only: namespace and name, group and kind where
a family declares them, and the labels of the state. One label map says so for families that declare
different names, so each of them looks at what it declares. What is meant is always removed, and no
other family is touched. Nothing else is removed, and the number of series is right, exactly if
every tuple that is meant and that the index knows has a series of its own.

- `series_deleteMatching`, `countP_series_iff`: a deletion from one family, by its series.
- `Removal`, `Removal.perform`: what can be deleted by identity; `cleared`: gauge after gauge.
- `Removal.wanted`, `Removal.means`: the series that are meant; `agrees_eq_means`.
- `Removal.Exact`, `Removal.AllShown`: nothing else is removed; no tuple that is meant is hidden.
- `Cleared`, `exact_iff`: a gauge before and after; the two come to the same.
- `ByIdentity`, `removed_by_identity`: deletions after any run.
-/

namespace StatusWatch.Metrics

/-! ## One family -/

namespace Family

variable {α : Type}

/-- What dropping tuples leaves of the series. -/
theorem series_foldl_drop {tuples : List LabelTuple} : ∀ {f : Family α}, f.WellFormed →
    (∀ t ∈ tuples, t.length = f.index.labelNames.length) →
    (tuples.foldl drop f).vec.series =
      f.vec.series.filter fun s => decide (s.1.joined ∉ tuples.map LabelTuple.joined) := by
  induction tuples with
  | nil => intro f _ _; simp
  | cons d ds ih =>
    intro f h hlen
    have hd := hlen d List.mem_cons_self
    rw [List.foldl_cons, ih (h.drop hd) fun t ht => hlen t (List.mem_cons_of_mem _ ht),
      series_drop h hd, List.filter_filter]
    refine List.filter_congr fun s _ => ?_
    rw [Bool.and_comm, ← Bool.decide_and, List.map_cons]
    exact decide_eq_decide.mpr (by rw [List.mem_cons, not_or])

section DeleteMatching

variable {f : Family α} (h : f.WellFormed) (labels : Labels)

include h

/-- A deletion removes the series whose texts belong to tuples that the labels cover. -/
theorem series_deleteMatching : (f.deleteMatching labels).1.vec.series =
    f.vec.series.filter fun s =>
      decide (s.1.joined ∉ (f.matching labels).map LabelTuple.joined) :=
  series_foldl_drop h (full_matching h labels)

/-- The shown tuples that the labels cover are among those in the index. -/
theorem subperm_matching :
    List.Subperm ((f.vec.series.map (·.1)).filter (f.index.agrees labels)) (f.matching labels) := by
  refine List.subperm_of_subset (h.tuples.filter _) fun t ht => ?_
  obtain ⟨hshown, hagrees⟩ := List.mem_filter.mp ht
  exact (mem_matching labels).mpr ⟨h.indexed t (find?_isSome_iff.mpr hshown), hagrees⟩

omit h in
theorem countP_series : f.vec.series.countP (fun s => f.index.agrees labels s.1) =
    ((f.vec.series.map (·.1)).filter (f.index.agrees labels)).length := by
  rw [← List.countP_eq_length_filter, List.countP_map]
  rfl

/-- No fewer tuples are deleted than series that the labels cover. -/
theorem countP_series_le :
    f.vec.series.countP (fun s => f.index.agrees labels s.1) ≤ (f.matching labels).length := by
  rw [countP_series]
  exact (subperm_matching h labels).length_le

/-- As many, exactly if all of these tuples are shown. -/
theorem countP_series_iff :
    f.vec.series.countP (fun s => f.index.agrees labels s.1) = (f.matching labels).length ↔
      ∀ t ∈ f.matching labels, (f.value? t).isSome := by
  have hmem : ∀ t, t ∈ (f.vec.series.map (·.1)).filter (f.index.agrees labels) ↔
      (f.value? t).isSome ∧ f.index.agrees labels t = true := by
    intro t
    rw [List.mem_filter]
    exact and_congr_left fun _ => find?_isSome_iff.symm
  rw [countP_series]
  constructor
  · intro hlength t ht
    -- the shown matches are among all matches, so equal numbers leave no match out
    have hperm := (subperm_matching h labels).perm_of_length_le (Nat.le_of_eq hlength.symm)
    exact ((hmem t).mp (hperm.mem_iff.mpr ht)).1
  · intro hshown
    have hsub : List.Subperm (f.matching labels)
        ((f.vec.series.map (·.1)).filter (f.index.agrees labels)) := by
      refine List.subperm_of_subset (h.distinct.filter _) fun t ht => ?_
      exact (hmem t).mpr ⟨hshown t ht, ((mem_matching labels).mp ht).2⟩
    exact Nat.le_antisymm (subperm_matching h labels).length_le hsub.length_le

/-- If they are, a deletion removes the series that the labels cover and no others. -/
theorem series_deleteMatching_of_shown
    (hshown : ∀ t ∈ f.matching labels, (f.value? t).isSome) :
    (f.deleteMatching labels).1.vec.series =
      f.vec.series.filter fun s => !f.index.agrees labels s.1 := by
  rw [series_deleteMatching h]
  refine List.filter_congr fun s hs => ?_
  have hsome : (f.value? s.1).isSome := find?_isSome_iff.mpr (List.mem_map_of_mem hs)
  have hiff : s.1.joined ∈ (f.matching labels).map LabelTuple.joined ↔
      f.index.agrees labels s.1 = true := by
    constructor
    · intro hmem
      obtain ⟨d, hd, hj⟩ := List.mem_map.mp hmem
      exact h.eq_of_joined (hshown d hd) hsome hj ▸ ((mem_matching labels).mp hd).2
    · exact fun hagrees =>
        List.mem_map_of_mem ((mem_matching labels).mpr ⟨h.indexed s.1 hsome, hagrees⟩)
  simp only [hiff]
  cases f.index.agrees labels s.1 <;> rfl

/-- After a deletion there is nothing to delete. -/
theorem matching_deleteMatching : (f.deleteMatching labels).1.matching labels = [] := by
  rw [matching, List.filter_eq_nil_iff]
  intro t ht
  have hagrees := ((live_deleteMatching h labels t).mp ht).2
  rw [SeriesIndex.agrees_congr (labelNames_deleteMatching h labels), hagrees]
  exact Bool.false_ne_true

end DeleteMatching

end Family

/-! ## Gauge after gauge -/

/-- Delete from gauges, one after the other, and add up the numbers of series. -/
def cleared (labels : Labels) (refs : List GaugeRef) (acc : Registry × Nat) : Registry × Nat :=
  refs.foldl
    (fun acc ref =>
      ((ConditionFamilies.deleteDeclared ref acc.1 labels).1,
        acc.2 + (ConditionFamilies.deleteDeclared ref acc.1 labels).2))
    acc

/-- The number of tuples that a deletion from a gauge covers. -/
def covered (labels : Labels) (r : Registry) (ref : GaugeRef) : Nat :=
  ((r.gauges[ref.index]?).map fun f =>
    (f.matching ((Collector.gauge ref).declared labels)).length).getD 0

section Cleared

variable (labels : Labels)

theorem deleteDeclared_snd (r : Registry) (ref : GaugeRef) :
    (ConditionFamilies.deleteDeclared ref r labels).2 = covered labels r ref := by
  unfold ConditionFamilies.deleteDeclared Registry.deleteGauges covered
  cases r.gauges[ref.index]? <;> rfl

/-- Gauges with other numbers stay as they are. -/
theorem getElem?_deleteDeclared (r : Registry) {ref : GaugeRef} {i : Nat} (h : ref.index ≠ i) :
    (ConditionFamilies.deleteDeclared ref r labels).1.gauges[i]? = r.gauges[i]? := by
  unfold ConditionFamilies.deleteDeclared Registry.deleteGauges
  cases r.gauges[ref.index]? with
  | none => rfl
  | some f => exact List.getElem?_set_ne h

/-- What is not covered is not deleted. -/
theorem deleteDeclared_of_covered {r : Registry} {ref : GaugeRef}
    (h : covered labels r ref = 0) : ConditionFamilies.deleteDeclared ref r labels = (r, 0) := by
  unfold covered at h
  unfold ConditionFamilies.deleteDeclared Registry.deleteGauges
  cases hf : r.gauges[ref.index]? with
  | none => rfl
  | some f =>
    rw [hf, Option.map_some, Option.getD_some, List.length_eq_zero_iff] at h
    obtain ⟨hlt, hget⟩ := List.getElem?_eq_some_iff.mp hf
    simp only [Family.deleteMatching, h, List.foldl_nil, List.length_nil]
    rw [← hget, List.set_getElem_self]

theorem cleared_cons (ref : GaugeRef) (refs : List GaugeRef) (acc : Registry × Nat) :
    cleared labels (ref :: refs) acc =
      cleared labels refs ((ConditionFamilies.deleteDeclared ref acc.1 labels).1,
        acc.2 + (ConditionFamilies.deleteDeclared ref acc.1 labels).2) := rfl

/-- The numbers of different gauges can be counted before anything is deleted. -/
theorem cleared_snd {refs : List GaugeRef} : ∀ {acc : Registry × Nat},
    refs.Pairwise (fun a b => a.index ≠ b.index) →
      (cleared labels refs acc).2 = acc.2 + (refs.map (covered labels acc.1)).sum := by
  induction refs with
  | nil => exact fun _ => rfl
  | cons ref refs ih =>
    intro acc h
    obtain ⟨hhead, htail⟩ := List.pairwise_cons.mp h
    have hrest : refs.map (covered labels (ConditionFamilies.deleteDeclared ref acc.1 labels).1) =
        refs.map (covered labels acc.1) :=
      List.map_congr_left fun other hother => by
        unfold covered
        rw [getElem?_deleteDeclared labels acc.1 (hhead other hother)]
    rw [cleared_cons, ih htail, List.map_cons, List.sum_cons]
    simp only [hrest, deleteDeclared_snd, Nat.add_assoc]

/-- Other families stay as they are. -/
theorem at?_cleared {c : Collector} {refs : List GaugeRef} : ∀ {acc : Registry × Nat},
    (∀ ref ∈ refs, (Collector.gauge ref).slot ≠ c.slot) →
      (cleared labels refs acc).1.at? c = acc.1.at? c := by
  induction refs with
  | nil => exact fun _ => rfl
  | cons ref refs ih =>
    intro acc h
    have hone : (ConditionFamilies.deleteDeclared ref acc.1 labels).1.at? c = acc.1.at? c :=
      (at?_perform (.gauge ref) c acc.1 (.delete labels)).trans (if_neg (h ref List.mem_cons_self))
    rw [cleared_cons, ih fun other hother => h other (List.mem_cons_of_mem _ hother)]
    exact hone

theorem cleared_of_covered {r : Registry} {n : Nat} {refs : List GaugeRef}
    (h : ∀ ref ∈ refs, covered labels r ref = 0) : cleared labels refs (r, n) = (r, n) := by
  induction refs with
  | nil => rfl
  | cons ref refs ih =>
    rw [cleared_cons]
    simp only [deleteDeclared_of_covered labels (h ref List.mem_cons_self), Nat.add_zero]
    exact ih fun other hother => h other (List.mem_cons_of_mem _ hother)

end Cleared

/-! ## What is deleted -/

theorem role_injective_gauge {g g' : ResourceGauge} (h : g.role = g'.role) : g = g' := by
  rcases g with (⟨⟨⟩⟩ | _) <;> rcases g' with (⟨⟨⟩⟩ | _) <;>
    first | rfl | cases h

/-- A gauge of a surface. -/
abbrev Place := ConditionFamilies × ResourceGauge

def Place.ref (p : Place) : GaugeRef := p.2.ref p.1

/-- What is deleted by identity. -/
inductive Removal where
  /-- Everything about a resource. -/
  | resource (key : ResourceKey)
  /-- Presence and age of a state of a condition. -/
  | state (key : ResourceKey) (c : Condition)

namespace Removal

/-- Delete it, and tell how many series there were. -/
def perform (m : ConditionMetrics) (r : Registry) : Removal → Registry × Nat
  | resource key => m.forget r key
  | state key c => m.deleteCondition r key c

/-- The same as a call of a handle. -/
def call : Removal → Call
  | resource key => .forget key
  | state key c => .deleteCondition key c

def key : Removal → ResourceKey
  | resource key => key
  | state key _ => key

/-- The labels of a state, if it is about one. -/
def extra : Removal → List (String × String)
  | resource _ => []
  | state _ c => ConditionMetrics.stateOf c

/-- The gauges that it is about. -/
def gauges : Removal → List ResourceGauge
  | resource _ => [.presence .count, .presence .age, .terminating]
  | state _ _ => [.presence .count, .presence .age]

/-- The places that are looked at. -/
def places (d : Removal) (m : ConditionMetrics) : List Place := m.surfaces ×ˢ d.gauges

/-- What a place declares of the labels that are deleted. -/
def declared (d : Removal) (m : ConditionMetrics) (p : Place) : Labels :=
  (Collector.gauge p.ref).declared (m.resourceSet d.key d.extra)

theorem isState_extra (d : Removal) : ConditionMetrics.IsState d.extra := by
  cases d with
  | resource key => exact Or.inl rfl
  | state key c => exact Or.inr ⟨c, rfl⟩

theorem perform_eq (d : Removal) (m : ConditionMetrics) (r : Registry) :
    d.perform m r = cleared (m.resourceSet d.key d.extra) ((d.places m).map Place.ref) (r, 0) := by
  have hrefs : (d.places m).map Place.ref =
      m.surfaces.flatMap fun f => d.gauges.map fun g => g.ref f := by
    show ((m.surfaces.flatMap fun f => d.gauges.map (Prod.mk f)).map Place.ref) = _
    rw [List.map_flatMap]
    simp only [List.map_map]
    rfl
  rw [hrefs, cleared, List.foldl_flatMap]
  cases d with
  | resource key =>
    unfold perform ConditionMetrics.forget ConditionMetrics.deleteOnEach
    refine congrFun (congrFun (congrArg List.foldl ?_) _) _
    funext acc f
    simp [ConditionFamilies.forget, ConditionFamilies.deleteCondition, gauges, Removal.key, extra,
      ResourceGauge.ref, PresenceGauge.ref, Nat.add_assoc]
  | state key c =>
    unfold perform ConditionMetrics.deleteCondition ConditionMetrics.deleteOnEach
    refine congrFun (congrFun (congrArg List.foldl ?_) _) _
    funext acc f
    simp [ConditionFamilies.deleteCondition, gauges, Removal.key, extra, ResourceGauge.ref,
      PresenceGauge.ref, Nat.add_assoc]

theorem perform_fst (d : Removal) (m : ConditionMetrics) (r : Registry) :
    (d.perform m r).1 = m.performAll r (d.call.ops m) := by
  cases d with
  | resource key => exact m.forget_eq r key
  | state key c => exact m.deleteCondition_eq r key c

/-- Each of the gauges sees one deletion. -/
theorem on_ops {d : Removal} {g : ResourceGauge} (hg : g ∈ d.gauges) (m : ConditionMetrics) :
    RoleOps.on (d.call.ops m) g.role = [.delete (m.resourceSet d.key d.extra)] := by
  cases d with
  | resource key =>
    simp only [gauges, List.mem_cons, List.not_mem_nil, or_false] at hg
    rcases hg with rfl | rfl | rfl <;> rfl
  | state key c =>
    simp only [gauges, List.mem_cons, List.not_mem_nil, or_false] at hg
    rcases hg with rfl | rfl <;> rfl

/-! ## What is meant -/

/-- The labels that tell which series of a surface are meant. -/
def wanted (d : Removal) (m : ConditionMetrics) (f : ConditionFamilies) :
    List (String × String) :=
  [(namespaceLabel, d.key.ns), (nameLabel, d.key.name)] ++
    (if f = m.families then []
      else [(groupLabel, m.groupKind.group), (kindLabel, m.groupKind.kind)]) ++
    d.extra

/-- Whether a series of a surface is meant: it has all of them. -/
def means (d : Removal) (m : ConditionMetrics) (f : ConditionFamilies)
    (labels : List (String × String)) : Bool :=
  (d.wanted m f).all labels.contains

/-- A series that is meant has the namespace, also an empty one. -/
theorem namespace_of_means {d : Removal} {m : ConditionMetrics} {f : ConditionFamilies}
    {labels : List (String × String)} (h : d.means m f labels = true) :
    (namespaceLabel, d.key.ns) ∈ labels := by
  have hall := List.all_eq_true.mp h (namespaceLabel, d.key.ns)
    (List.mem_append_left _ (List.mem_append_left _ List.mem_cons_self))
  exact List.contains_iff_mem.mp hall

/-- The gauges of a state declare what tells it apart. -/
theorem extra_declared {m : ConditionMetrics} (hm : m.Laid) {f : ConditionFamilies}
    (hf : f ∈ m.surfaces) {d : Removal} {g : ResourceGauge} (hg : g ∈ d.gauges) :
    ∀ e ∈ d.extra, e.1 ∈ (f.collector g.role).descriptor.labelNames := by
  have htail : ∀ e ∈ d.extra, e.1 ∈ g.role.plan.tail := by
    cases d with
    | resource key => exact fun e he => nomatch he
    | state key c =>
      simp only [gauges, List.mem_cons, List.not_mem_nil, or_false] at hg
      simp only [extra, ConditionMetrics.stateOf, List.forall_mem_cons]
      rcases hg with rfl | rfl <;> decide
  intro e he
  rcases List.mem_cons.mp hf with rfl | hf
  · rw [hm.kind]
    exact List.mem_append_left _ (List.mem_append_right _ (htail e he))
  · rw [hm.shared f (Option.mem_toList.mp hf)]
    exact List.mem_append_right _ (htail e he)

/-- What is meant is told by the fixed labels that a family declares. -/
theorem mem_wanted_iff {m : ConditionMetrics} (hm : m.Laid) (hunshared : m.legacy ≠ some m.families)
    {f : ConditionFamilies} (hf : f ∈ m.surfaces) {d : Removal} {g : ResourceGauge}
    (hg : g ∈ d.gauges) (e : String × String) :
    e ∈ d.wanted m f ↔ e ∈ m.fixedLabels (some d.key) d.extra ∧
      e.1 ∈ (f.collector g.role).descriptor.labelNames := by
  have hidentity : e ∈ [(namespaceLabel, d.key.ns), (nameLabel, d.key.name)] →
      e.1 ∈ (f.collector g.role).descriptor.labelNames := by
    intro he
    have hsub := hm.identity hf g
    rw [← g.collector_role] at hsub
    rcases List.mem_pair.mp he with rfl | rfl
    · exact hsub List.mem_cons_self
    · exact hsub (List.mem_cons_of_mem _ List.mem_cons_self)
  have hextra := extra_declared hm hf hg e
  unfold wanted ConditionMetrics.fixedLabels
  simp only [List.mem_append]
  rcases List.mem_cons.mp hf with rfl | hf
  · -- families of a kind declare neither group nor kind
    have hscope : e ∈ [(groupLabel, m.groupKind.group), (kindLabel, m.groupKind.kind)] →
        e.1 ∉ (m.families.collector g.role).descriptor.labelNames := by
      intro he
      rcases List.mem_pair.mp he with rfl | rfl
      · exact hm.scope_not_mem g.role List.mem_cons_self
      · exact hm.scope_not_mem g.role (List.mem_cons_of_mem _ List.mem_cons_self)
    rw [if_pos rfl]
    have hnil : e ∉ ([] : List (String × String)) := List.not_mem_nil
    tauto
  · -- shared families declare both
    have hne : f ≠ m.families := fun heq => hunshared (heq ▸ Option.mem_toList.mp hf)
    have hscope : e ∈ [(groupLabel, m.groupKind.group), (kindLabel, m.groupKind.kind)] →
        e.1 ∈ (f.collector g.role).descriptor.labelNames := by
      intro he
      rw [hm.shared f (Option.mem_toList.mp hf)]
      refine List.mem_append_left _ (List.mem_append_right _ ?_)
      rcases List.mem_pair.mp he with rfl | rfl
      · exact List.mem_cons_self
      · exact List.mem_cons_of_mem _ List.mem_cons_self
    rw [if_neg hne]
    tauto

/-- A family covers exactly what is meant. -/
theorem agrees_eq_means {m : ConditionMetrics} (hm : m.Laid)
    (hunshared : m.legacy ≠ some m.families) {f : ConditionFamilies} (hf : f ∈ m.surfaces)
    {d : Removal} {g : ResourceGauge} (hg : g ∈ d.gauges) {t : LabelTuple}
    (hfull : t.length = (f.collector g.role).descriptor.labelNames.length) :
    (f.collector g.role).index.agrees
        ((f.collector g.role).declared (m.resourceSet d.key d.extra)) t =
      d.means m f ((f.collector g.role).descriptor.labelNames.zip t) := by
  have hlabel := SeriesIndex.mem_zip_iff (i := (f.collector g.role).index)
    (hm.nodup_names hf g.role) hfull
  have hmeans : d.means m f ((f.collector g.role).descriptor.labelNames.zip t) = true ↔
      ∀ e ∈ d.wanted m f, (f.collector g.role).index.valueOf? t e.1 = some e.2 := by
    unfold means
    simp only [List.all_eq_true, List.contains_iff_mem]
    exact forall_congr' fun e => imp_congr_right fun _ => hlabel e.1 e.2
  rw [Bool.eq_iff_iff, ConditionMetrics.covers_iff hm.projection d.isState_extra, hmeans]
  simp only [mem_wanted_iff hm hunshared hf hg, and_imp]

/-! ## What is removed -/

/-- Of the places that are looked at, the series that are meant are removed and no others, and their
number is told. -/
structure Exact (d : Removal) (m : ConditionMetrics) (r : Registry) : Prop where
  series : ∀ p ∈ d.places m, (d.perform m r).1.gaugeSeries p.ref =
    (r.gaugeSeries p.ref).filter fun s => !d.means m p.1 s.1
  number : (d.perform m r).2 =
    ((d.places m).map fun p => (r.gaugeSeries p.ref).countP fun s => d.means m p.1 s.1).sum

/-- Every tuple that is meant and that the index knows has a series of its own. -/
def AllShown (d : Removal) (m : ConditionMetrics) (r : Registry) : Prop :=
  ∀ p ∈ d.places m, ∀ fam, r.at? (.gauge p.ref) = some (.gauge fam) → ∀ t ∈ fam.index.live,
    d.means m p.1 (fam.index.labelNames.zip t) = true → (fam.value? t).isSome

end Removal

/-! ## Families that hold what they see -/

/-- Series by their labels are series by their tuples. -/
theorem Family.filter_labelled {α : Type} {f : Family α} {p : List (String × String) → Bool}
    {q : LabelTuple → Bool} (h : ∀ s ∈ f.vec.series, p (f.index.labelNames.zip s.1) = q s.1) :
    f.labelled.filter (fun s => p s.1) =
      (f.vec.series.filter fun s => q s.1).map fun s => (f.index.labelNames.zip s.1, s.2) := by
  unfold Family.labelled
  rw [List.filter_map]
  exact congrArg _ (List.filter_congr fun s hs => h s hs)

theorem Family.countP_labelled {α : Type} {f : Family α} {p : List (String × String) → Bool}
    {q : LabelTuple → Bool} (h : ∀ s ∈ f.vec.series, p (f.index.labelNames.zip s.1) = q s.1) :
    f.labelled.countP (fun s => p s.1) = f.vec.series.countP fun s => q s.1 := by
  rw [List.countP_eq_length_filter, filter_labelled h, List.length_map,
    ← List.countP_eq_length_filter]

/-- Sums of numbers that are at most others are equal only number by number. -/
theorem sum_eq_sum_iff {β : Type} {a b : β → Nat} : ∀ {l : List β}, (∀ x ∈ l, a x ≤ b x) →
    ((l.map a).sum = (l.map b).sum ↔ ∀ x ∈ l, a x = b x) := by
  intro l
  induction l with
  | nil => simp
  | cons x l ih =>
    intro h
    obtain ⟨hx, hl⟩ := List.forall_mem_cons.mp h
    have hle : (l.map a).sum ≤ (l.map b).sum := List.sum_le_sum hl
    rw [List.forall_mem_cons, ← ih hl, List.map_cons, List.map_cons, List.sum_cons, List.sum_cons]
    omega

/-- A gauge before and after a deletion: what it covers is what is meant. -/
structure Cleared (d : Removal) (m : ConditionMetrics) (r : Registry) (p : Place)
    (fam : Family Float) : Prop where
  wellFormed : fam.WellFormed
  means : ∀ t ∈ fam.index.live,
    d.means m p.1 (fam.index.labelNames.zip t) = fam.index.agrees (d.declared m p) t
  before : r.at? (.gauge p.ref) = some (.gauge fam)
  after : (d.perform m r).1.at? (.gauge p.ref) =
    some (.gauge (fam.deleteMatching (d.declared m p)).1)

theorem covered_of_at? {d : Removal} {m : ConditionMetrics} {r : Registry} {p : Place}
    {fam : Family Float} (h : r.at? (.gauge p.ref) = some (.gauge fam)) :
    covered (m.resourceSet d.key d.extra) r p.ref = (fam.matching (d.declared m p)).length := by
  obtain ⟨fam', hfam', heq⟩ := Option.map_eq_some_iff.mp h
  cases heq
  unfold covered
  rw [hfam']
  rfl

namespace Cleared

variable {d : Removal} {m : ConditionMetrics} {r : Registry} {p : Place} {fam : Family Float}
  (h : Cleared d m r p fam)

include h

/-- There is one such family. -/
theorem eq_of_at? {fam' : Family Float} (hat : r.at? (.gauge p.ref) = some (.gauge fam')) :
    fam = fam' := by
  cases h.before.symm.trans hat
  rfl

/-- In the index, what is meant is what is deleted. -/
theorem mem_matching_iff (t : LabelTuple) : t ∈ fam.matching (d.declared m p) ↔
    t ∈ fam.index.live ∧ d.means m p.1 (fam.index.labelNames.zip t) = true := by
  rw [Family.mem_matching]
  exact and_congr_right fun ht => by rw [h.means t ht]

/-- Among the series too. -/
theorem means_series : ∀ s ∈ fam.vec.series,
    d.means m p.1 (fam.index.labelNames.zip s.1) = fam.index.agrees (d.declared m p) s.1 :=
  fun s hs => h.means s.1
    (h.wellFormed.indexed s.1 (find?_isSome_iff.mpr (List.mem_map_of_mem hs)))

theorem countP_eq : (r.gaugeSeries p.ref).countP (fun s => d.means m p.1 s.1) =
    fam.vec.series.countP fun s => fam.index.agrees (d.declared m p) s.1 := by
  rw [gaugeSeries_of_at? h.before]
  exact Family.countP_labelled h.means_series

/-- What is left after a deletion was there before, and is not meant. -/
theorem of_mem_after {s : List (String × String) × Float}
    (hs : s ∈ (d.perform m r).1.gaugeSeries p.ref) :
    s ∈ r.gaugeSeries p.ref ∧ d.means m p.1 s.1 = false := by
  rw [gaugeSeries_of_at? h.after] at hs
  rw [gaugeSeries_of_at? h.before]
  unfold Family.labelled at hs ⊢
  rw [Family.labelNames_deleteMatching h.wellFormed,
    Family.series_deleteMatching h.wellFormed] at hs
  obtain ⟨s', hs', rfl⟩ := List.mem_map.mp hs
  obtain ⟨hmem, hkept⟩ := List.mem_filter.mp hs'
  refine ⟨List.mem_map_of_mem hmem, ?_⟩
  rw [h.means_series s' hmem, ← Bool.not_eq_true]
  intro hagrees
  have hlive := h.wellFormed.indexed s'.1 (find?_isSome_iff.mpr (List.mem_map_of_mem hmem))
  exact of_decide_eq_true hkept
    (List.mem_map_of_mem ((Family.mem_matching _).mpr ⟨hlive, hagrees⟩))

/-- If every tuple that is meant is shown, nothing else is removed. -/
theorem series_of_shown (hshown : ∀ t ∈ fam.matching (d.declared m p), (fam.value? t).isSome) :
    (d.perform m r).1.gaugeSeries p.ref =
      (r.gaugeSeries p.ref).filter fun s => !d.means m p.1 s.1 := by
  rw [gaugeSeries_of_at? h.after, gaugeSeries_of_at? h.before,
    Family.filter_labelled (p := fun labels => !d.means m p.1 labels)
      (q := fun t => !fam.index.agrees (d.declared m p) t)
      fun s hs => congrArg (!·) (h.means_series s hs)]
  unfold Family.labelled
  rw [Family.labelNames_deleteMatching h.wellFormed,
    Family.series_deleteMatching_of_shown h.wellFormed _ hshown]

end Cleared

section Housed

variable {r : Registry} {ms : List ConditionMetrics} {log : Log} (h : Housed r ms log)
  {m : ConditionMetrics} (hm : m ∈ ms) (d : Removal)

include h hm

theorem places_distinct :
    ((d.places m).map Place.ref).Pairwise fun a b => a.index ≠ b.index := by
  have hgauges : d.gauges.Nodup := by cases d <;> simp [Removal.gauges]
  refine List.pairwise_map.mpr (((h.separate hm).surfaces.product hgauges).pairwise_of_forall_ne
    fun p hp q hq hne heq => hne ?_)
  obtain ⟨hp, -⟩ := List.mem_product.mp hp
  obtain ⟨hq, -⟩ := List.mem_product.mp hq
  have hslot : (p.1.collector p.2.role).slot = (q.1.collector q.2.role).slot := by
    rw [p.2.collector_role, q.2.collector_role]
    exact congrArg (Prod.mk 0) heq
  obtain ⟨hsurface, hrole⟩ := h.slots m hm p.1 hp m hm q.1 hq _ _ hslot
  exact Prod.ext hsurface (role_injective_gauge hrole)

/-- Every place holds what it has seen, before and after. -/
theorem cleared_of_housed {p : Place} (hp : p ∈ d.places m) : ∃ fam,
    Cleared d m r p fam ∧
      (Apart ((log.seen p.1 p.2.role).filterMap (·.written (.gauge p.ref))) →
        ∀ t ∈ fam.index.live, (fam.value? t).isSome) := by
  obtain ⟨hf, hg⟩ := List.mem_product.mp hp
  have hc : p.1.collector p.2.role = .gauge p.ref := p.2.collector_role p.1
  have hat := h.holds m hm p.1 hf p.2.role
  have hafter := ConditionMetrics.at?_performAll (h.separate hm) hf p.2.role (d.call.ops m) r
  rw [← d.perform_fst, Removal.on_ops hg, hat, hc] at hafter
  rw [hc] at hat
  have hblank : (Collector.gauge p.ref).blank = .gauge (.new (Collector.gauge p.ref).descriptor) :=
    rfl
  rw [hblank, foldl_onGauge] at hat hafter
  have hreplayed := replayed_foldl (.gauge p.ref) (log.seen p.1 p.2.role)
  have hvalue := value?_foldl (.gauge p.ref) (log.seen p.1 p.2.role)
  generalize (log.seen p.1 p.2.role).foldl (fun f op => op.onGauge (.gauge p.ref) f)
    (Family.new (Collector.gauge p.ref).descriptor) = fam at *
  refine ⟨fam, { wellFormed := hreplayed.wellFormed, means := fun t ht => ?_, before := hat,
                 after := hafter }, fun hapart t ht => ?_⟩
  · have hfull := hreplayed.wellFormed.full t ht
    rw [hreplayed.names, ← hc] at hfull
    rw [hreplayed.names, hreplayed.agrees_eq, Removal.declared, ← hc]
    exact (Removal.agrees_eq_means (h.laid m hm) (h.unshared m hm) hf hg hfull).symm
  · rw [hvalue hapart]
    exact (hreplayed.live t).mp ht

/-- What is covered before anything is deleted makes up the number. -/
theorem perform_snd : (d.perform m r).2 =
    ((d.places m).map fun p => covered (m.resourceSet d.key d.extra) r p.ref).sum := by
  rw [d.perform_eq, cleared_snd _ (places_distinct h hm d), Nat.zero_add, List.map_map]
  rfl

/-- At once again, nothing is left to delete. -/
theorem perform_again : d.perform m (d.perform m r).1 = ((d.perform m r).1, 0) := by
  rw [d.perform_eq m (d.perform m r).1]
  refine cleared_of_covered _ fun ref href => ?_
  obtain ⟨p, hp, rfl⟩ := List.mem_map.mp href
  obtain ⟨fam, hcleared, -⟩ := cleared_of_housed h hm d hp
  rw [covered_of_at? hcleared.after, Family.matching_deleteMatching hcleared.wellFormed,
    List.length_nil]

/-- Deleting is exact as long as no tuple that is meant is hidden. -/
theorem exact_iff : d.Exact m r ↔ d.AllShown m r := by
  have hcount : ∀ p ∈ d.places m, ∃ fam, Cleared d m r p fam ∧
      covered (m.resourceSet d.key d.extra) r p.ref = (fam.matching (d.declared m p)).length :=
    fun p hp => by
      obtain ⟨fam, hcleared, -⟩ := cleared_of_housed h hm d hp
      exact ⟨fam, hcleared, covered_of_at? hcleared.before⟩
  -- no gauge shows more than its index has, so the sums agree iff the gauges do one by one
  have hsum := sum_eq_sum_iff (l := d.places m)
    (a := fun p => (r.gaugeSeries p.ref).countP fun s => d.means m p.1 s.1)
    (b := fun p => covered (m.resourceSet d.key d.extra) r p.ref) fun p hp => by
      obtain ⟨fam, hcleared, hcovered⟩ := hcount p hp
      rw [hcovered, hcleared.countP_eq]
      exact Family.countP_series_le hcleared.wellFormed _
  rw [← perform_snd h hm d] at hsum
  constructor
  · intro hexact p hp fam hat t ht hmeans
    obtain ⟨fam', hcleared, hcovered⟩ := hcount p hp
    obtain rfl := hcleared.eq_of_at? hat
    have heq := hsum.mp hexact.number.symm p hp
    rw [hcovered, hcleared.countP_eq] at heq
    exact (Family.countP_series_iff hcleared.wellFormed _).mp heq t
      ((hcleared.mem_matching_iff t).mpr ⟨ht, hmeans⟩)
  · intro hall
    have hshown : ∀ p ∈ d.places m, ∀ fam, Cleared d m r p fam →
        ∀ t ∈ fam.matching (d.declared m p), (fam.value? t).isSome := by
      intro p hp fam hcleared t ht
      obtain ⟨hlive, hmeans⟩ := (hcleared.mem_matching_iff t).mp ht
      exact hall p hp fam hcleared.before t hlive hmeans
    refine ⟨fun p hp => ?_, (hsum.mpr fun p hp => ?_).symm⟩
    · obtain ⟨fam, hcleared, -⟩ := hcount p hp
      exact hcleared.series_of_shown (hshown p hp fam hcleared)
    · obtain ⟨fam, hcleared, hcovered⟩ := hcount p hp
      rw [hcovered, hcleared.countP_eq]
      exact (Family.countP_series_iff hcleared.wellFormed _).mpr (hshown p hp fam hcleared)

end Housed

/-! ## Runs -/

namespace Roster

/-- What a deletion by identity does in some state, given what was done before. -/
structure ByIdentity (d : Removal) (m : ConditionMetrics) (log : Log) (r : Registry) : Prop where
  /-- Nothing that is meant is left where it looks, and nothing is added. -/
  left : ∀ p ∈ d.places m, ∀ s ∈ (d.perform m r).1.gaugeSeries p.ref,
    s ∈ r.gaugeSeries p.ref ∧ d.means m p.1 s.1 = false
  /-- What is meant has the namespace, which may be empty. -/
  inNamespace : ∀ p ∈ d.places m, ∀ s ∈ r.gaugeSeries p.ref, d.means m p.1 s.1 = true →
    (namespaceLabel, d.key.ns) ∈ s.1
  /-- All other families stay as they are. -/
  frame : ∀ c, (∀ p ∈ d.places m, (Collector.gauge p.ref).slot ≠ c.slot) →
    (d.perform m r).1.at? c = r.at? c
  registered : (d.perform m r).1.registered = r.registered
  /-- At once again, nothing is deleted. -/
  again : d.perform m (d.perform m r).1 = ((d.perform m r).1, 0)
  /-- Nothing else is deleted, and the number is right, exactly if no tuple that is meant is
  hidden. -/
  exact_iff : d.Exact m r ↔ d.AllShown m r
  /-- So it is if the tuples that were written are apart. -/
  apart : (∀ g ∈ d.gauges, log.ApartOn m g.role) → d.Exact m r

/-- Whatever handles are made, used and given back in a registry: deleting a resource or a state of
a condition through one of them removes what is meant by the labels, and nothing else as far as
every tuple that is meant has a series of its own. -/
theorem removed_by_identity (scope : String) (own : List OwnerStep) (steps : List Use)
    {m : ConditionMetrics} (hm : m ∈ (start scope own).made steps) (d : Removal) :
    ByIdentity d m ((start scope own).log steps) ((start scope own).run steps).registry := by
  obtain ⟨h, -⟩ := housed_start scope own steps
  refine { left := fun p hp s hs => ?_, inNamespace := fun _ _ _ _ => Removal.namespace_of_means,
           frame := fun c hc => ?_, registered := ?_, again := perform_again h hm d,
           exact_iff := exact_iff h hm d, apart := fun hapart => ?_ }
  · obtain ⟨fam, hcleared, -⟩ := cleared_of_housed h hm d hp
    exact hcleared.of_mem_after hs
  · rw [d.perform_eq]
    refine at?_cleared _ fun ref href => ?_
    obtain ⟨p, hp, rfl⟩ := List.mem_map.mp href
    exact hc p hp
  · rw [d.perform_fst]
    exact (Enrolled.performAll_frame m _ _).1
  · refine (exact_iff h hm d).mpr fun p hp fam hat t ht _ => ?_
    obtain ⟨fam', hcleared, hshown⟩ := cleared_of_housed h hm d hp
    obtain rfl := hcleared.eq_of_at? hat
    obtain ⟨hf, hg⟩ := List.mem_product.mp hp
    have hwritten := hapart p.2 hg p.1 hf
    rw [p.2.collector_role] at hwritten
    exact hshown hwritten t ht

/-- A resource of one of two kinds is forgotten. -/
theorem removed_by_identity_twoKinds : ∃ m ∈ (start "operator" []).made twoKinds,
    ByIdentity (.resource ⟨"prod", "web"⟩) m ((start "operator" []).log twoKinds)
      ((start "operator" []).run twoKinds).registry := by
  obtain ⟨m, hm, -⟩ : ∃ m ∈ (start "operator" []).made twoKinds, m.legacyEnabled = true := by
    decide +kernel
  exact ⟨m, hm, removed_by_identity "operator" [] twoKinds hm _⟩

/-- Two resources whose namespaces and names run together to one text. -/
def keysTogether : List Use :=
  let ready := Condition.of .epoch "Ready" .true
  [.create ⟨"g", "K"⟩ false [], .call 0 (.setCondition ⟨"a", "bc"⟩ ∅ ready .epoch),
    .call 0 (.setCondition ⟨"ab", "c"⟩ ∅ ready .epoch)]

/-- Forgetting the second one, which is not shown, removes the series of the first one. -/
theorem not_exact_keysTogether : ∃ m ∈ (start "operator" []).made keysTogether,
    (∀ s ∈ ((start "operator" []).run keysTogether).registry.gaugeSeries m.families.count,
      (Removal.resource ⟨"ab", "c"⟩).means m m.families s.1 = false) ∧
    ¬ (Removal.resource ⟨"ab", "c"⟩).Exact m
      ((start "operator" []).run keysTogether).registry := by
  obtain ⟨m, hm, hnone, hnumber⟩ : ∃ m ∈ (start "operator" []).made keysTogether,
      (∀ s ∈ ((start "operator" []).run keysTogether).registry.gaugeSeries m.families.count,
        (Removal.resource ⟨"ab", "c"⟩).means m m.families s.1 = false) ∧
      ((Removal.resource ⟨"ab", "c"⟩).perform m
        ((start "operator" []).run keysTogether).registry).2 ≠
          (((Removal.resource ⟨"ab", "c"⟩).places m).map fun p =>
            (((start "operator" []).run keysTogether).registry.gaugeSeries p.ref).countP fun s =>
              (Removal.resource ⟨"ab", "c"⟩).means m p.1 s.1).sum := by
    decide +kernel
  exact ⟨m, hm, hnone, fun hexact => hnumber hexact.number⟩

end Roster

end StatusWatch.Metrics
