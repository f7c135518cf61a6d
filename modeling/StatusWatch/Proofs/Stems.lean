import StatusWatch.Proofs.ResourceGauges
import StatusWatch.Proofs.Tenancy

/-!
# What two surfaces have in common

The families of a kind and the shared ones declare the same labels, besides the projected ones on
the one side and group and kind on the other. The values of these common labels are the stem of a
tuple. Whether an operation of a handle touches a tuple is a matter of its stem, on the shared
surface for tuples of the kind, and for deletions on the surface of the kind too.

- `SeriesIndex.values`: the values of some labels of a tuple.
- `SeriesOp.touches`: an operation writes or deletes a tuple; `replay_eq`: the others do not matter.
- `Role.names`, `Role.stem`: the labels that both surfaces have.
- `ConditionMetrics.Scoped`: an operation with the labels of a handle; `Call.scoped`.
- `shared_touches`, `kind_deletes`: what an operation touches, by stems; `isOf_of_touches`: in a
  shared family, only tuples of its kind.
- `filter_touches`: of all that a shared family sees, what touches a tuple.
-/

namespace StatusWatch.Metrics

/-! ## Reading some labels -/

namespace SeriesIndex

/-- The values that a tuple has under some names. -/
def values (i : SeriesIndex) (names : List String) (t : LabelTuple) : LabelTuple :=
  names.map fun name => (i.valueOf? t name).getD ""

section Full

variable {i : SeriesIndex} {t : LabelTuple} (hfull : t.length = i.labelNames.length)

include hfull

/-- A full tuple has a value under every name that is declared. -/
theorem valueOf?_of_full {name : String} (hname : name ∈ i.labelNames) :
    i.valueOf? t name = some ((i.valueOf? t name).getD "") := by
  have hsome : (i.valueOf? t name).isSome := by
    unfold valueOf?
    rw [find?_isSome_iff, List.map_fst_zip (Nat.le_of_eq hfull.symm)]
    exact hname
  obtain ⟨value, hvalue⟩ := Option.isSome_iff_exists.mp hsome
  rw [hvalue, Option.getD_some]

variable (hnodup : i.labelNames.Nodup)

include hnodup

theorem values_labelNames : i.values i.labelNames t = t := by
  have hkeys : ((i.labelNames.zip t).map (·.1)).Nodup := by
    rw [List.map_fst_zip (Nat.le_of_eq hfull.symm)]
    exact hnodup
  calc i.values i.labelNames t
      = ((i.labelNames.zip t).map (·.1)).map fun name => (i.valueOf? t name).getD "" := by
        rw [List.map_fst_zip (Nat.le_of_eq hfull.symm)]
        rfl
    _ = (i.labelNames.zip t).map (·.2) := by
        rw [List.map_map]
        refine List.map_congr_left fun e he => ?_
        have hvalue := (mem_iff_find? hkeys e.1 e.2).mp he
        simp only [Function.comp_apply, valueOf?, hvalue, Option.getD_some]
    _ = t := List.map_snd_zip (Nat.le_of_eq hfull)

/-- The labels of a tuple, without some. -/
theorem filter_zip (p : String → Bool) :
    (i.labelNames.zip t).filter (fun e => p e.1) =
      (i.labelNames.filter p).zip (i.values (i.labelNames.filter p) t) := by
  have hzip : ∀ names : List String, names.zip (i.values names t) =
      names.map fun name => (name, (i.valueOf? t name).getD "") := by
    intro names
    calc names.zip (i.values names t)
        = (names.map id).zip (i.values names t) := by rw [List.map_id]
      _ = names.map fun name => (name, (i.valueOf? t name).getD "") := List.zip_map'
  conv_lhs => rw [← values_labelNames hfull hnodup]
  rw [hzip, hzip, List.filter_map]
  rfl

end Full

end SeriesIndex

/-! ## Touching a tuple -/

namespace SeriesOp

/-- Whether an operation writes or deletes the series of a tuple. -/
def touches (c : Collector) (t : LabelTuple) : SeriesOp → Bool
  | write labels _ => c.index.tuple labels = t
  | delete labels => c.index.agrees (c.declared labels) t

/-- What an operation leaves under a tuple that it touches. -/
def left : SeriesOp → Option Float
  | write _ value => some value
  | delete _ => none

theorem effect_eq (c : Collector) (t : LabelTuple) (v : Option Float) (op : SeriesOp) :
    op.effect c t v = if op.touches c t then op.left else v := by
  cases op with
  | write labels value => simp [effect, touches, left]
  | delete labels => rfl

end SeriesOp

/-- What is left under a tuple is what the last operation leaves that touches it. -/
theorem replay_eq (c : Collector) (ops : List SeriesOp) (t : LabelTuple) :
    replay c ops t = (ops.filter (·.touches c t)).foldl (fun _ op => op.left) none := by
  unfold replay
  rw [List.foldl_filter]
  exact congrArg (fun step => List.foldl step none ops)
    (funext fun v => funext fun op => op.effect_eq c t v)

/-! ## Stems -/

/-- The labels that the families with a role have on every surface. -/
def Role.names (role : Role) : List String := role.plan.head ++ role.plan.tail

/-- A family with no other labels than these. -/
def Role.stem (role : Role) : Collector :=
  .gauge ⟨⟨role.plan.suffix, role.plan.help, role.names⟩, 0⟩

theorem Role.not_projected_names (role : Role) : ∀ n ∈ role.names, isProjectedName n = false := by
  cases role <;> decide

theorem Role.nodup_shared (role : Role) :
    (role.plan.head ++ [groupLabel, kindLabel] ++ role.plan.tail).Nodup := by
  cases role <;> decide

theorem Role.mem_shared (role : Role) {n : String} :
    n ∈ role.plan.head ++ [groupLabel, kindLabel] ++ role.plan.tail ↔
      n ∈ role.names ∨ n = groupLabel ∨ n = kindLabel := by
  unfold Role.names
  simp only [List.mem_append, List.mem_cons, List.not_mem_nil, or_false]
  tauto

section Touches

variable {c : Collector} {role : Role} (hnames : role.names ⊆ c.descriptor.labelNames)
  {t : LabelTuple} {labels : Labels}

include hnames

/-- A write has the stem that its labels give it. -/
theorem values_tuple (written : Labels) : c.index.values role.names (c.index.tuple written) =
    role.stem.index.tuple written := by
  refine List.map_congr_left fun n hn => ?_
  rw [c.index.valueOf?_tuple written (hnames hn)]
  rfl

variable (hfull : t.length = c.descriptor.labelNames.length)

include hfull

/-- A write that agrees with a tuple on the further labels touches it if it touches its stem. -/
theorem write_touches (hnodup : c.descriptor.labelNames.Nodup) (value : Float)
    (hrest : ∀ n ∈ c.descriptor.labelNames, n ∉ role.names →
      c.index.valueOf? t n = some ((labels.get? n).getD "")) :
    (SeriesOp.write labels value).touches c t =
      (SeriesOp.write labels value).touches role.stem (c.index.values role.names t) := by
  refine decide_eq_decide.mpr ⟨fun heq => ?_, fun heq => ?_⟩
  · rw [← heq, values_tuple hnames]
  · have hvalues : ∀ n ∈ c.descriptor.labelNames,
        (labels.get? n).getD "" = (c.index.valueOf? t n).getD "" := by
      intro n hn
      by_cases hcommon : n ∈ role.names
      · exact List.map_inj_left.mp heq n hcommon
      · rw [hrest n hn hcommon, Option.getD_some]
    have hall : c.index.values c.descriptor.labelNames t = t :=
      SeriesIndex.values_labelNames (i := c.index) hfull hnodup
    rw [← hall]
    exact List.map_congr_left hvalues

/-- A deletion whose further labels a tuple has touches it if it touches its stem. -/
theorem delete_touches (hrest : ∀ n ∈ c.descriptor.labelNames, n ∉ role.names → ∀ v,
      labels.get? n = some v → c.index.valueOf? t n = some v) :
    (SeriesOp.delete labels).touches c t =
      (SeriesOp.delete labels).touches role.stem (c.index.values role.names t) := by
  have hstem : ∀ n ∈ role.names,
      role.stem.index.valueOf? (c.index.values role.names t) n = c.index.valueOf? t n := by
    intro n hn
    rw [SeriesIndex.valueOf?_of_full (i := c.index) hfull (hnames hn)]
    exact role.stem.index.valueOf?_map (fun n => (c.index.valueOf? t n).getD "") hn
  unfold SeriesOp.touches
  rw [Bool.eq_iff_iff, SeriesIndex.agrees_iff_valueOf?, SeriesIndex.agrees_iff_valueOf?]
  simp only [get?_declared]
  constructor
  · intro hall n v hv
    split at hv
    · rename_i hn
      rw [hstem n hn]
      exact hall n v (by rw [if_pos (hnames hn), hv])
    · cases hv
  · intro hall n v hv
    split at hv
    · rename_i hn
      -- names besides those of the stem agree by hypothesis
      by_cases hcommon : n ∈ role.names
      · rw [← hstem n hcommon]
        exact hall n v (by rw [← hv]; exact if_pos hcommon)
      · exact hrest n hn hcommon v hv
    · cases hv

end Touches

/-! ## The operations of a handle -/

namespace ConditionMetrics

/-- An operation with the group and the kind of a handle in its labels. Deletions have no
projected labels. -/
inductive Scoped (m : ConditionMetrics) : SeriesOp → Prop
  | write {labels : Labels} (value : Float)
      (hgroup : labels.get? groupLabel = some m.groupKind.group)
      (hkind : labels.get? kindLabel = some m.groupKind.kind) : Scoped m (.write labels value)
  | delete {labels : Labels} (hgroup : labels.get? groupLabel = some m.groupKind.group)
      (hkind : labels.get? kindLabel = some m.groupKind.kind)
      (hprojected : ∀ n, isProjectedName n = true → labels.get? n = none) :
      Scoped m (.delete labels)

section

variable {m : ConditionMetrics} (h : m.projection.WellFormed)

include h

theorem scoped_write {key : Option ResourceKey} {extra : List (String × String)}
    (hd : ((m.fixedLabels key extra).map (·.1)).Nodup) (labels : Labels) (value : Float) :
    m.Scoped (.write (m.labelSet key labels extra) value) := by
  have hfind : ∀ e ∈ m.fixedLabels key extra,
      (m.labelSet key labels extra).get? e.1 = some e.2 := by
    intro e he
    rw [get?_labelSet h hd, (mem_iff_find? hd e.1 e.2).mp he, Option.some_or]
  refine .write value (hfind (groupLabel, _) ?_) (hfind (kindLabel, _) ?_) <;>
    simp [fixedLabels]

theorem scoped_delete {key : ResourceKey} {extra : List (String × String)}
    (he : IsState extra) : m.Scoped (.delete (m.resourceSet key extra)) := by
  obtain ⟨hd, hfixed⟩ := he.fixed m key
  have hfind : ∀ e ∈ m.fixedLabels (some key) extra,
      (m.resourceSet key extra).get? e.1 = some e.2 := by
    intro e hmem
    unfold resourceSet
    rw [get?_withoutProjection h hd hfixed, (mem_iff_find? hd e.1 e.2).mp hmem]
  refine .delete (hfind (groupLabel, _) ?_) (hfind (kindLabel, _) ?_) fun n hn => ?_
  · simp [fixedLabels]
  · simp [fixedLabels]
  · unfold resourceSet
    rw [get?_withoutProjection h hd hfixed]
    refine OrderedMap.find?_eq_none_of_forall fun e hmem heq => ?_
    have hnot := hfixed e hmem
    rw [heq, hn] at hnot
    cases hnot

end

end ConditionMetrics

/-- Everything that is done through a handle has its group and kind. -/
theorem Call.scoped {m : ConditionMetrics} (h : m.projection.WellFormed) {call : Call}
    {e : Role × SeriesOp} (he : e ∈ call.ops m) : m.Scoped e.2 := by
  cases call with
  | setCondition key labels c now =>
    have hd := m.distinct_fixedLabels_state key c
    rcases List.mem_pair.mp he with rfl | rfl
    · exact ConditionMetrics.scoped_write h hd labels _
    · exact ConditionMetrics.scoped_write h hd labels _
  | deleteCondition key c =>
    rcases List.mem_pair.mp he with rfl | rfl
    · exact ConditionMetrics.scoped_delete h (Or.inr ⟨c, rfl⟩)
    · exact ConditionMetrics.scoped_delete h (Or.inr ⟨c, rfl⟩)
  | recordTransition labels c =>
    have hd : ((m.fixedLabels none (ConditionMetrics.stateOf c)).map (·.1)).Nodup := by
      show [groupLabel, kindLabel, typeLabel, statusLabel, reasonLabel].Nodup
      decide
    rw [List.mem_singleton.mp he]
    exact ConditionMetrics.scoped_write h hd labels _
  | observeTransition labels old seconds =>
    have hd : ((m.fixedLabels none
        [(typeLabel, old.type), (statusLabel, old.status.text)]).map (·.1)).Nodup := by
      show [groupLabel, kindLabel, typeLabel, statusLabel].Nodup
      decide
    rw [List.mem_singleton.mp he]
    exact ConditionMetrics.scoped_write h hd labels _
  | setTermination key labels seconds =>
    rw [List.mem_singleton.mp he]
    exact ConditionMetrics.scoped_write h (m.distinct_fixedLabels key) labels _
  | observeTermination labels seconds =>
    have hd : ((m.fixedLabels none []).map (·.1)).Nodup := by
      show [groupLabel, kindLabel].Nodup
      decide
    rw [List.mem_singleton.mp he]
    exact ConditionMetrics.scoped_write h hd labels _
  | forget key =>
    simp only [Call.ops, ConditionMetrics.forgetOps, List.mem_cons, List.not_mem_nil,
      or_false] at he
    rcases he with rfl | rfl | rfl <;> exact ConditionMetrics.scoped_delete h (Or.inl rfl)

/-! ## The shared surface -/

/-- A tuple has the group and the kind in its labels. -/
def IsOf (g : GroupKind) (c : Collector) (t : LabelTuple) : Prop :=
  c.index.valueOf? t groupLabel = some g.group ∧ c.index.valueOf? t kindLabel = some g.kind

instance (g : GroupKind) (c : Collector) (t : LabelTuple) : Decidable (IsOf g c t) :=
  inferInstanceAs (Decidable (_ ∧ _))

theorem IsOf.unique {g g' : GroupKind} {c : Collector} {t : LabelTuple} (h : IsOf g c t)
    (h' : IsOf g' c t) : g = g' := by
  obtain ⟨group, kind⟩ := g
  obtain ⟨group', kind'⟩ := g'
  cases h.1.symm.trans h'.1
  cases h.2.symm.trans h'.2
  rfl

section Shared

variable {m : ConditionMetrics} {c : Collector} {role : Role}
  (hc : c.descriptor.labelNames = role.plan.head ++ [groupLabel, kindLabel] ++ role.plan.tail)
  {op : SeriesOp} (hop : m.Scoped op)

include hc

theorem names_subset_shared : role.names ⊆ c.descriptor.labelNames := by
  intro n hn
  rw [hc]
  exact (role.mem_shared).mpr (Or.inl hn)

include hop

/-- Under a tuple of its kind, an operation is a matter of stems. -/
theorem shared_touches {u : LabelTuple} (hfull : u.length = c.descriptor.labelNames.length)
    (hu : IsOf m.groupKind c u) :
    op.touches c u = op.touches role.stem (c.index.values role.names u) := by
  -- a shared family declares group and kind besides the names of the stem
  have hrest : ∀ n ∈ c.descriptor.labelNames, n ∉ role.names → n = groupLabel ∨ n = kindLabel := by
    intro n hn hnot
    rw [hc] at hn
    exact (role.mem_shared.mp hn).resolve_left hnot
  cases hop with
  | write value hgroup hkind =>
    refine write_touches (names_subset_shared hc) hfull (hc ▸ role.nodup_shared) value ?_
    intro n hn hnot
    rcases hrest n hn hnot with rfl | rfl
    · rw [hu.1, hgroup, Option.getD_some]
    · rw [hu.2, hkind, Option.getD_some]
  | delete hgroup hkind _ =>
    refine delete_touches (names_subset_shared hc) hfull ?_
    intro n hn hnot v hv
    rcases hrest n hn hnot with rfl | rfl
    · rw [hu.1, ← hgroup, hv]
    · rw [hu.2, ← hkind, hv]

/-- An operation touches tuples of its own kind only. -/
theorem isOf_of_touches {u : LabelTuple} (ht : op.touches c u = true) : IsOf m.groupKind c u := by
  have hgroup' : groupLabel ∈ c.descriptor.labelNames :=
    hc ▸ role.mem_shared.mpr (Or.inr (Or.inl rfl))
  have hkind' : kindLabel ∈ c.descriptor.labelNames :=
    hc ▸ role.mem_shared.mpr (Or.inr (Or.inr rfl))
  cases hop with
  | write value hgroup hkind =>
    obtain rfl := of_decide_eq_true ht
    constructor
    · rw [c.index.valueOf?_tuple _ hgroup', hgroup, Option.getD_some]
    · rw [c.index.valueOf?_tuple _ hkind', hkind, Option.getD_some]
  | delete hgroup hkind _ =>
    have hall := (c.index.agrees_iff_valueOf? _ _).mp ht
    simp only [get?_declared] at hall
    exact ⟨hall _ _ (by rw [if_pos hgroup', hgroup]), hall _ _ (by rw [if_pos hkind', hkind])⟩

end Shared

/-! ## The surface of the kind -/

section Kind

variable {m : ConditionMetrics} (h : m.projection.WellFormed) {c : Collector} {role : Role}
  (hc : c.descriptor.labelNames = role.plan.head ++ role.plan.tail ++ m.projection.labelNames)
  {op : SeriesOp}

include hc

theorem names_subset_kind : role.names ⊆ c.descriptor.labelNames := by
  rw [hc]
  exact List.subset_append_left _ _

include h

/-- A deletion touches all tuples of a stem or none. -/
theorem kind_deletes {t : LabelTuple} (hfull : t.length = c.descriptor.labelNames.length)
    {labels : Labels} (hop : m.Scoped (.delete labels)) :
    (SeriesOp.delete labels).touches c t =
      (SeriesOp.delete labels).touches role.stem (c.index.values role.names t) := by
  refine delete_touches (names_subset_kind hc) hfull fun n hn hnot v hv => ?_
  cases hop with
  | delete _ _ hprojected =>
    rw [hc] at hn
    have hmem := (List.mem_append.mp hn).resolve_left hnot
    rw [hprojected n (h.projected n hmem)] at hv
    cases hv

end Kind

/-- Families of a kind have neither group nor kind among their labels. -/
theorem ConditionMetrics.Laid.scope_not_mem {m : ConditionMetrics} (h : m.Laid) (role : Role)
    {name : String} (hname : name ∈ [groupLabel, kindLabel]) :
    name ∉ (m.families.collector role).descriptor.labelNames := by
  have hfixed : ∀ name ∈ [groupLabel, kindLabel],
      name ∉ role.plan.head ++ role.plan.tail ∧ isProjectedName name = false := by
    cases role <;> decide
  rw [h.kind, List.mem_append, not_or]
  refine ⟨(hfixed name hname).1, fun hmem => ?_⟩
  have hprojected := h.projection.projected _ hmem
  rw [(hfixed name hname).2] at hprojected
  cases hprojected

/-! ## What touches a tuple -/

namespace Log

theorem through_concat (log : Log) (e : ConditionMetrics × RoleOps) (m : ConditionMetrics)
    (role : Role) :
    through (log ++ [e]) m role =
      log.through m role ++ if e.1 = m then RoleOps.on e.2 role else [] := by
  unfold through
  rw [List.filter_append, List.flatMap_append]
  by_cases h : e.1 = m <;> simp [h]

/-- Every operation of the log has the group and the kind of its handle. -/
def Scoped (log : Log) : Prop := ∀ e ∈ log, ∀ op ∈ e.2, e.1.Scoped op.2

theorem scoped_on {m : ConditionMetrics} {ops : RoleOps} (h : ∀ op ∈ ops, m.Scoped op.2)
    {role : Role} {op : SeriesOp} (hop : op ∈ RoleOps.on ops role) : m.Scoped op := by
  obtain ⟨e, he, heq⟩ := List.mem_filterMap.mp hop
  split at heq
  · cases heq
    exact h e he
  · cases heq

theorem Scoped.through {log : Log} (h : log.Scoped) {m : ConditionMetrics} {role : Role}
    {op : SeriesOp} (hop : op ∈ log.through m role) : m.Scoped op := by
  obtain ⟨e, he, hop⟩ := List.mem_flatMap.mp hop
  obtain ⟨he, hm⟩ := List.mem_filter.mp he
  rw [← of_decide_eq_true hm]
  exact scoped_on (h e he) hop

/-- The families of a kind see what is done through the handle of the kind. -/
theorem seen_eq_through {log : Log} {m : ConditionMetrics}
    (h : ∀ e ∈ log, m.families ∈ e.1.surfaces → e.1 = m) (role : Role) :
    log.seen m.families role = log.through m role := by
  unfold seen through
  refine congrArg (List.flatMap _) (List.filter_congr fun e he => decide_eq_decide.mpr ⟨h e he, ?_⟩)
  rintro rfl
  exact List.mem_cons_self

/-- Of all that a shared family sees, the handle of a kind touches its tuples, as it touches their
stems, and no other handle does. -/
theorem filter_touches {log : Log} (hscoped : log.Scoped) {m : ConditionMetrics}
    {f : ConditionFamilies} (hf : m.legacy = some f)
    (hkinds : ∀ e ∈ log, e.1.groupKind = m.groupKind → e.1 = m) {role : Role}
    (hc : (f.collector role).descriptor.labelNames =
      role.plan.head ++ [groupLabel, kindLabel] ++ role.plan.tail) {u : LabelTuple}
    (hfull : u.length = (f.collector role).descriptor.labelNames.length)
    (hu : IsOf m.groupKind (f.collector role) u) :
    (log.seen f role).filter (·.touches (f.collector role) u) =
      (log.through m role).filter
        (·.touches role.stem ((f.collector role).index.values role.names u)) := by
  induction log using List.reverseRecOn with
  | nil => rfl
  | append_singleton log e ih =>
    have ih := ih (fun e' he' => hscoped e' (List.mem_append_left _ he'))
      fun e' he' => hkinds e' (List.mem_append_left _ he')
    have he : e ∈ log ++ [e] := List.mem_append_right _ (List.mem_singleton_self e)
    rw [seen_concat, through_concat, List.filter_append, List.filter_append, ih]
    refine congrArg _ ?_
    by_cases hm : e.1 = m
    · have hmem : f ∈ e.1.surfaces := by
        rw [hm]
        exact ConditionMetrics.mem_surfaces_of_legacy hf
      rw [if_pos hmem, if_pos hm]
      -- through this handle both sides are touched by the same operations
      refine List.filter_congr fun op hop => shared_touches hc ?_ hfull hu
      exact hm ▸ scoped_on (hscoped e he) hop
    · rw [if_neg hm, List.filter_nil]
      split
      · -- another handle is of another kind, and this shows in the tuples that it touches
        refine List.filter_eq_nil_iff.mpr fun op hop ht => hm (hkinds e he ?_)
        exact (isOf_of_touches hc (scoped_on (hscoped e he) hop) ht).unique hu
      · rfl

end Log

end StatusWatch.Metrics
