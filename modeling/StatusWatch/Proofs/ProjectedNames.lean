import StatusWatch.Proofs.Handles
import StatusWatch.Proofs.PresenceLabels

/-!
# Names and changes of projected labels

Label keys are configured freely, so several of them may become the same label name. The
names of a projection are nevertheless fit for any family of a kind, and the projected
labels decide, as a map, exactly what the tuples of the families decide.

- `labelNames_of_keys`, `get?_project_of`: the names in order of their first keys, and the
  values of these keys.
- `WellNamed`: what the names and values of a projection are.
- `new_isOk_iff`, `eq_badName_of_new`: families of a kind are made unless their name is bad.
- `writtenLabels`, `kindTuple`: where a handle writes about a resource and a condition.
- `DetectsChanges`: projected labels change exactly if the tuples do.
- `projection_exact`: all of it for any keys.
-/

namespace StatusWatch

namespace LabelProjection

/-! ## Names -/

/-- The names that are not taken, each at its first key. -/
theorem map_snd_distinctNames (keys : List String) : ∀ seen : List String,
    (distinctNames seen keys).map (·.2) =
      ((keys.map projectedName).filter fun name => name ∉ seen).eraseDups := by
  induction keys with
  | nil => exact fun _ => rfl
  | cons key keys ih =>
    intro seen
    by_cases htaken : projectedName key ∈ seen
    · simp [distinctNames, htaken, ih]
    · -- a name that is taken now is left out by all keys after it
      have hrest : (keys.map projectedName).filter (fun name => name ∉ projectedName key :: seen) =
          ((keys.map projectedName).filter fun name => name ∉ seen).filter
            fun name => !name == projectedName key := by
        rw [List.filter_filter]
        refine List.filter_congr fun name _ => ?_
        by_cases hname : name = projectedName key <;> simp [hname]
      simp only [distinctNames, htaken, if_false, List.map_cons, ih, hrest]
      rw [List.filter_cons_of_pos (by simpa using htaken), List.eraseDups_cons]

theorem labelNames_of_keys (keys : List String) :
    (of keys).labelNames = (keys.map projectedName).eraseDups := by
  have hnames := map_snd_distinctNames keys []
  rwa [List.filter_eq_self.mpr fun _ _ => by simp] at hnames

/-- The value under a name is that of its first key. -/
theorem find?_distinctNames (value : String → String) (name : String) (keys : List String) :
    ∀ seen : List String,
      OrderedMap.find? name ((distinctNames seen keys).map fun e => (e.2, value e.1)) =
        if name ∈ seen then none
        else (keys.find? fun key => projectedName key = name).map value := by
  induction keys with
  | nil => exact fun seen => by simp [distinctNames, OrderedMap.find?]
  | cons key keys ih =>
    intro seen
    by_cases htaken : projectedName key ∈ seen
    · by_cases hname : projectedName key = name
      · subst hname
        simp [distinctNames, htaken, ih]
      · simp [distinctNames, htaken, ih, hname]
    · by_cases hname : projectedName key = name
      · subst hname
        simp [distinctNames, htaken, OrderedMap.find?]
      · simp [distinctNames, htaken, OrderedMap.find?, ih, hname, Ne.symm hname]

theorem get?_project_of (keys : List String) (labels : Labels) (name : String) :
    ((of keys).project labels).get? name =
      (keys.find? fun key => projectedName key = name).map
        fun key => (labels.get? key).getD "" := by
  rw [get?_project (wellFormed_of keys)]
  exact find?_distinctNames (fun key => (labels.get? key).getD "") name keys []

theorem exists_body (key : String) : ∃ body : List Char,
    projectedName key = projectedPrefix ++ String.ofList body ∧
      ∀ c ∈ body, isNameChar c = true := by
  refine ⟨key.toList.map fun c => if isNameChar c then c else '_', String.toList_inj.mp ?_, ?_⟩
  · simp [projectedName]
  · intro c hc
    obtain ⟨d, -, rfl⟩ := List.mem_map.mp hc
    by_cases hd : isNameChar d = true
    · rwa [if_pos hd]
    · rw [if_neg hd]
      decide

end LabelProjection

namespace Metrics

/-- The label names that families declare beside the projected ones. -/
def fixedNames : List String :=
  identityLabels ++ [groupLabel, kindLabel] ++ stateLabels

theorem isProjectedName_of_mem_fixedNames :
    ∀ name ∈ fixedNames, isProjectedName name = false := by decide

/-! ## Making families -/

theorem isMetricName_of_append {pre suffix : String} (hpre : pre ≠ "")
    (h : isMetricName (pre ++ suffix) = true) : isMetricName pre = true := by
  have hne : pre.toList ≠ [] := fun e => hpre (String.toList_eq_nil_iff.mp e)
  rw [isMetricName, String.toList_append] at h
  rw [isMetricName]
  cases hchars : pre.toList with
  | nil => exact absurd hchars hne
  | cons c rest =>
    rw [hchars] at h
    simp only [List.cons_append, List.all_append, Bool.and_eq_true] at h ⊢
    exact ⟨h.1, h.2.1⟩

/-- A family of any role may be named with a prefix if it is empty or may start a name. -/
theorem isMetricName_familyName_iff (role : Role) (pre : String) :
    isMetricName (role.familyName pre) = true ↔ pre = "" ∨ isMetricName pre = true := by
  constructor
  · intro h
    by_cases hpre : pre = ""
    · exact Or.inl hpre
    · exact Or.inr (isMetricName_of_append hpre h)
  · rintro (rfl | hpre)
    · exact isMetricName_shared role
    · exact role.isMetricName_familyName hpre

section New

variable (r : Registry) (pre : String) (keys : List String)

theorem new_isOk_iff :
    (∃ made, ConditionFamilies.new r pre [] (LabelProjection.of keys).labelNames = .ok made) ↔
      pre = "" ∨ isMetricName pre = true := by
  constructor
  · rintro ⟨⟨made, f⟩, hnew⟩
    have hplan := descriptor_of_iff.mp ((planned_of_new hnew).1 .count)
    exact (isMetricName_familyName_iff .count pre).mp hplan.2.1
  · intro hpre
    have hmade : ∃ made f,
        ConditionFamilies.new r pre [] (LabelProjection.of keys).labelNames = .ok (made, f) :=
      exists_new (fun role => (isMetricName_familyName_iff role pre).mpr hpre)
        fun role => checkLabelNames_kind role pre keys
    obtain ⟨made, f, hnew⟩ := hmade
    exact ⟨(made, f), hnew⟩

/-- Only the name of a family can be at fault, never its labels. -/
theorem eq_badName_of_new {e : MetricError}
    (h : ConditionFamilies.new r pre [] (LabelProjection.of keys).labelNames = .error e) :
    e = .badName (Role.count.familyName pre) := by
  have hname : isMetricName (Role.count.familyName pre) = false := by
    rw [Bool.eq_false_iff, Ne, isMetricName_familyName_iff, ← new_isOk_iff r pre keys]
    rintro ⟨made, hmade⟩
    cases h.symm.trans hmade
  have hfirst : FamilyPlan.count.descriptor pre [] (LabelProjection.of keys).labelNames =
      .error (.badName (Role.count.familyName pre)) := by
    show Descriptor.of (Role.count.familyName pre) _ _ = _
    rw [Descriptor.of, if_neg (by exact Role.count.help_ne_empty), hname]
    rfl
  rw [ConditionFamilies.new, hfirst] at h
  cases h
  rfl

end New

/-- What the names and values of a projection are. -/
structure WellNamed (keys : List String) : Prop where
  /-- The names that keys become, in the order in which they first occur. -/
  names : (LabelProjection.of keys).labelNames = (keys.map projectedName).eraseDups
  distinct : (LabelProjection.of keys).labelNames.Nodup
  body : ∀ name ∈ (LabelProjection.of keys).labelNames, ∃ body : List Char,
    name = projectedPrefix ++ String.ofList body ∧ ∀ c ∈ body, isNameChar c = true
  free : ∀ name ∈ (LabelProjection.of keys).labelNames, name ∉ fixedNames
  /-- The value under a name is that of the first key that becomes this name. -/
  values : ∀ (labels : Labels) (name : String),
    ((LabelProjection.of keys).project labels).get? name =
      (keys.find? fun key => projectedName key = name).map fun key => (labels.get? key).getD ""
  /-- Families are made whenever they may have their names. -/
  made : ∀ (r : Registry) (pre : String),
    (∃ made, ConditionFamilies.new r pre [] (LabelProjection.of keys).labelNames = .ok made) ↔
      pre = "" ∨ isMetricName pre = true
  refused : ∀ (r : Registry) (pre : String) (e : MetricError),
    ConditionFamilies.new r pre [] (LabelProjection.of keys).labelNames = .error e →
      e = .badName (Role.count.familyName pre)

theorem wellNamed (keys : List String) : WellNamed keys where
  names := LabelProjection.labelNames_of_keys keys
  distinct := (LabelProjection.wellFormed_of keys).distinct
  body name hname := by
    obtain ⟨key, rfl⟩ := mem_distinctNames keys hname
    exact LabelProjection.exists_body key
  free name hname hfixed := by
    have hprojected := (LabelProjection.wellFormed_of keys).projected name hname
    rw [isProjectedName_of_mem_fixedNames name hfixed] at hprojected
    cases hprojected
  values := LabelProjection.get?_project_of keys
  made r pre := new_isOk_iff r pre keys
  refused r pre _ := eq_badName_of_new r pre keys

/-! ## Where a handle writes -/

/-- The resource that series of a role name, if they name one. -/
def Role.subject (key : ResourceKey) : Role → Option ResourceKey
  | .count | .age | .terminating => some key
  | .transitions | .stays | .terminations => none

/-- What series of a role show of a condition. -/
def Role.stateLabels (c : Condition) : Role → List (String × String)
  | .count | .age | .transitions => ConditionMetrics.stateOf c
  | .stays => [(typeLabel, c.type), (statusLabel, c.status.text)]
  | .terminating | .terminations => []

namespace ConditionMetrics

/-- The labels under which a handle writes about a resource and a condition. -/
def writtenLabels (m : ConditionMetrics) (key : ResourceKey) (labels : Labels) (c : Condition)
    (role : Role) : Labels :=
  m.labelSet (role.subject key) labels (role.stateLabels c)

/-- The tuple of these labels in a family of the kind. -/
def kindTuple (m : ConditionMetrics) (key : ResourceKey) (labels : Labels) (c : Condition)
    (role : Role) : LabelTuple :=
  SeriesIndex.tuple ⟨(m.families.collector role).descriptor.labelNames, []⟩
    (m.writtenLabels key labels c role)

/-- The written labels that are not projected. -/
def fixedPairs (m : ConditionMetrics) (key : ResourceKey) (c : Condition) (role : Role) :
    List (String × String) :=
  m.fixedLabels (role.subject key) (role.stateLabels c)

variable {m : ConditionMetrics} (h : m.projection.WellFormed) (key : ResourceKey)
  (labels : Labels) (c : Condition) (role : Role)

theorem fixedPairs_names : ((m.fixedPairs key c role).map (·.1)).Nodup ∧
    ∀ name ∈ (m.fixedPairs key c role).map (·.1), isProjectedName name = false := by
  cases role <;> simp only [fixedPairs, fixedLabels, Role.subject, Role.stateLabels, stateOf,
    List.map_append, List.map_cons, List.map_nil] <;> decide

include h

theorem get?_writtenLabels (name : String) :
    (m.writtenLabels key labels c role).get? name =
      (OrderedMap.find? name (m.fixedPairs key c role)).or
        (OrderedMap.find? name (m.projection.values labels)) :=
  get?_labelSet h (fixedPairs_names key c role).1 labels name

/-- A projected label is written with its value. -/
theorem get?_writtenLabels_of_mem {e : String × String} (he : e ∈ m.projection.values labels) :
    (m.writtenLabels key labels c role).get? e.1 = some e.2 := by
  have hname : e.1 ∈ m.projection.labelNames := by
    rw [← LabelProjection.map_fst_values m.projection labels]
    exact List.mem_map_of_mem he
  have hnone : OrderedMap.find? e.1 (m.fixedPairs key c role) = none :=
    OrderedMap.find?_eq_none_of_forall fun e' he' heq => by
      have hfixed := (fixedPairs_names (m := m) key c role).2 e'.1 (List.mem_map_of_mem he')
      rw [heq, h.projected e.1 hname] at hfixed
      cases hfixed
  have hfound : OrderedMap.find? e.1 (m.projection.values labels) = some e.2 := by
    refine (mem_iff_find? ?_ e.1 e.2).mp he
    rw [LabelProjection.map_fst_values]
    exact h.distinct
  rw [get?_writtenLabels h, hnone, Option.none_or, hfound]

/-- The other labels do not depend on those of the resource. -/
theorem get?_writtenLabels_of_fixed {name : String} (hname : isProjectedName name = false) :
    (m.writtenLabels key labels c role).get? name =
      OrderedMap.find? name (m.fixedPairs key c role) := by
  have hnone : OrderedMap.find? name (m.projection.values labels) = none :=
    Option.not_isSome_iff_eq_none.mp fun hsome => by
      have hmem := find?_isSome_iff.mp hsome
      rw [LabelProjection.map_fst_values] at hmem
      exact not_mem_projection h hname hmem
  rw [get?_writtenLabels h, hnone, Option.or_none]

variable (hnames : (m.families.collector role).descriptor.labelNames =
  role.plan.head ++ role.plan.tail ++ m.projection.labelNames)

include hnames

/-- A tuple has the fixed values first and the projected ones last. -/
theorem kindTuple_eq : m.kindTuple key labels c role =
    ((role.plan.head ++ role.plan.tail).map fun name =>
      (OrderedMap.find? name (m.fixedPairs key c role)).getD "") ++
    (m.projection.values labels).map (·.2) := by
  have hfixed : ∀ name ∈ role.plan.head ++ role.plan.tail, isProjectedName name = false := by
    cases role <;> decide
  have hprojected : m.projection.labelNames.map (fun name =>
      ((m.writtenLabels key labels c role).get? name).getD "") =
        (m.projection.values labels).map (·.2) :=
    tuple_eq (i := ⟨m.projection.labelNames, []⟩)
      (LabelProjection.map_fst_values m.projection labels).symm
      fun e he => get?_writtenLabels_of_mem h key labels c role he
  show (m.families.collector role).descriptor.labelNames.map _ = _
  rw [hnames, List.map_append, hprojected]
  refine congrArg (· ++ _) (List.map_congr_left fun name hname => ?_)
  rw [get?_writtenLabels_of_fixed h key labels c role (hfixed name hname)]

/-- Two label maps of a resource give one tuple exactly if they give the same projected
values. -/
theorem kindTuple_eq_iff (labels' : Labels) :
    m.kindTuple key labels c role = m.kindTuple key labels' c role ↔
      m.projection.values labels = m.projection.values labels' := by
  rw [kindTuple_eq h key labels c role hnames, kindTuple_eq h key labels' c role hnames,
    List.append_right_inj, LabelProjection.values, LabelProjection.values, List.map_map,
    List.map_map, List.map_inj_left, List.map_inj_left]
  exact forall₂_congr fun e _ => by simp

omit hnames in
theorem projectionChanged_eq_false_iff (labels' : Labels) :
    m.projectionChanged labels labels' = false ↔
      m.projection.values labels = m.projection.values labels' := by
  by_cases hempty : m.projection.isEmpty = true
  · have hnil : m.projection.entries = [] := List.isEmpty_iff.mp hempty
    simp [projectionChanged, hempty, LabelProjection.values, hnil]
  · have hproject : m.projection.project labels = m.projection.project labels' ↔
        m.projection.values labels = m.projection.values labels' :=
      ⟨LabelProjection.values_eq_of_project_eq h, fun heq => congrArg OrderedMap.ofList heq⟩
    simpa [projectionChanged, hempty] using hproject

end ConditionMetrics

/-! ## All of it -/

/-- What the change of projected labels tells of the series of a kind. -/
structure ConditionMetrics.DetectsChanges (m : ConditionMetrics) : Prop where
  /-- The labels of every write are those that are compared here. -/
  setCondition : ∀ r key labels c now, m.setCondition r key labels c now = m.performAll r
    [(.count, .write (m.writtenLabels key labels c .count) 1.0),
      (.age, .write (m.writtenLabels key labels c .age) (secondsBetween now c.lastTransition))]
  recordTransition : ∀ r key labels c, m.recordTransition r labels c = m.performAll r
    [(.transitions, .write (m.writtenLabels key labels c .transitions) 1.0)]
  observeTransition : ∀ r key labels c seconds, m.observeTransition r labels c seconds =
    m.performAll r [(.stays, .write (m.writtenLabels key labels c .stays) seconds)]
  setTermination : ∀ r key labels c seconds, m.setTermination r key labels seconds =
    m.performAll r [(.terminating, .write (m.writtenLabels key labels c .terminating) seconds)]
  observeTermination : ∀ r key labels c seconds, m.observeTermination r labels seconds =
    m.performAll r [(.terminations, .write (m.writtenLabels key labels c .terminations) seconds)]
  unchanged_iff : ∀ before after, m.projectionChanged before after = false ↔
    ∀ key c role, m.kindTuple key before c role = m.kindTuple key after c role
  /-- A change shows in every family, whatever it is about. -/
  changed : ∀ before after, m.projectionChanged before after = true →
    ∀ key c role, m.kindTuple key before c role ≠ m.kindTuple key after c role
  /-- Writing about the same under either labels takes a second entry exactly after a change. -/
  entries : ∀ (α : Type) (before after : Labels) key c role (step step' : Option α → α),
    (((Family.new (m.families.collector role).descriptor).record
        (m.writtenLabels key before c role) step).record
        (m.writtenLabels key after c role) step').index.live =
      m.kindTuple key before c role ::
        if m.projectionChanged before after then [m.kindTuple key after c role] else []

theorem exists_eq_of_snd {α : Type} {out : Registry × Except MetricError α}
    (h : ∃ a, out.2 = .ok a) : ∃ r a, out = (r, .ok a) :=
  h.elim fun a ha => ⟨out.1, a, Prod.ext rfl ha⟩

/-- Two writes to a new family leave one entry if their tuples are the same, and else two. -/
theorem live_record_record_new {α : Type} (d : Descriptor) (labels labels' : Labels)
    (step step' : Option α → α) :
    (((Family.new d).record labels step).record labels' step').index.live =
      SeriesIndex.tuple ⟨d.labelNames, []⟩ labels ::
        if SeriesIndex.tuple ⟨d.labelNames, []⟩ labels =
          SeriesIndex.tuple ⟨d.labelNames, []⟩ labels' then []
        else [SeriesIndex.tuple ⟨d.labelNames, []⟩ labels'] := by
  have hfirst : ((Family.new d).record labels step).index.live =
      [SeriesIndex.tuple ⟨d.labelNames, []⟩ labels] := rfl
  have hsecond : ((Family.new d).record labels step).index.tuple labels' =
      SeriesIndex.tuple ⟨d.labelNames, []⟩ labels' := Family.tuple_record _ _ _ _
  rw [Family.record, SeriesIndex.live_add, hfirst, hsecond]
  by_cases heq : SeriesIndex.tuple ⟨d.labelNames, []⟩ labels =
      SeriesIndex.tuple ⟨d.labelNames, []⟩ labels'
  · simp [heq]
  · simp [heq, Ne.symm heq]

namespace ConditionMetrics

variable {r r' : Registry} {g : GroupKind} {legacy : Bool} {p : LabelProjection}
  {m : ConditionMetrics}

theorem projection_of_create (h : create r g legacy p = (r', .ok m)) : m.projection = p := by
  have hc := creation r g legacy p
  rw [h] at hc
  cases hc <;> rfl

theorem detectsChanges {keys : List String} (h : create r g legacy (.of keys) = (r', .ok m)) :
    m.DetectsChanges := by
  have hprojection : m.projection = .of keys := projection_of_create h
  have hwell : m.projection.WellFormed := hprojection ▸ LabelProjection.wellFormed_of keys
  have hnames : ∀ role : Role, (m.families.collector role).descriptor.labelNames =
      role.plan.head ++ role.plan.tail ++ m.projection.labelNames := by
    intro role
    rw [create_described h role, hprojection]
    show role.plan.head ++ [] ++ role.plan.tail ++ _ = _
    rw [List.append_nil]
  -- in every family alike, the tuples are equal exactly if nothing projected changes
  have hsame : ∀ before after key c role, m.projectionChanged before after = false ↔
      m.kindTuple key before c role = m.kindTuple key after c role := fun before after key c role =>
    (projectionChanged_eq_false_iff hwell before after).trans
      (kindTuple_eq_iff hwell key before c role (hnames role) after).symm
  refine { setCondition := fun _ _ _ _ _ => rfl, recordTransition := fun _ _ _ _ => rfl,
           observeTransition := fun _ _ _ _ _ => rfl, setTermination := fun _ _ _ _ _ => rfl,
           observeTermination := fun _ _ _ _ _ => rfl, unchanged_iff := ?_, changed := ?_,
           entries := ?_ }
  · intro before after
    constructor
    · exact fun hunchanged key c role => (hsame before after key c role).mp hunchanged
    · exact fun hall =>
        (hsame before after default default .count).mpr (hall default default .count)
  · intro before after hchanged key c role heq
    rw [(hsame before after key c role).mpr heq] at hchanged
    cases hchanged
  · intro α before after key c role step step'
    have htwice := live_record_record_new (m.families.collector role).descriptor
      (m.writtenLabels key before c role) (m.writtenLabels key after c role) step step'
    refine htwice.trans (congrArg (m.kindTuple key before c role :: ·) ?_)
    show (if m.kindTuple key before c role = m.kindTuple key after c role then [] else _) = _
    cases hchanged : m.projectionChanged before after with
    | false => simp [(hsame before after key c role).mp hchanged]
    | true =>
      -- labels that differ are two series, and the second one is added
      have hne : m.kindTuple key before c role ≠ m.kindTuple key after c role := fun heq => by
        rw [(hsame before after key c role).mpr heq] at hchanged
        cases hchanged
      rw [if_neg hne]
      rfl

end ConditionMetrics

/-- Whatever keys are configured, the projected names are fit for the families of any kind, each
with the value of its first key, and a handle that projects them takes the labels of a resource
for changed exactly if they give other tuples. -/
theorem projection_exact (keys : List String) :
    WellNamed keys ∧
      ∀ (r : Registry) (g : GroupKind) (legacy : Bool) (r' : Registry) (m : ConditionMetrics),
        ConditionMetrics.create r g legacy (.of keys) = (r', .ok m) → m.DetectsChanges :=
  ⟨wellNamed keys, fun _ _ _ _ _ h => ConditionMetrics.detectsChanges h⟩

/-- Keys that become one name twice. -/
def collidingKeys : List String := ["app.kubernetes.io/name", "team", "app_kubernetes_io_name"]

/-- The first of two keys with one name wins, and a handle can be made for them. -/
theorem projection_exact_colliding :
    WellNamed collidingKeys ∧
      (LabelProjection.of collidingKeys).labelNames =
        ["label_app_kubernetes_io_name", "label_team"] ∧
      ∃ r m, ConditionMetrics.create (.new "operator") ⟨"apps", "Deployment"⟩ true
        (.of collidingKeys) = (r, .ok m) ∧ m.DetectsChanges := by
  obtain ⟨hnamed, hdetects⟩ := projection_exact collidingKeys
  -- an empty registry accepts any names
  have haccepts : ∀ pre scope extra, (Registry.new "operator").Accepts pre scope extra :=
    fun _ _ _ _ => ⟨rfl, fun _ hknown => by cases hknown⟩
  have hname : isMetricName (ConditionMetrics.namePrefix ⟨"apps", "Deployment"⟩) = true := by
    decide +kernel
  have hmade : ∃ m, (ConditionMetrics.create (.new "operator") ⟨"apps", "Deployment"⟩ true
      (.of collidingKeys)).2 = .ok m :=
    (ConditionMetrics.create_iff hname rfl).mpr ⟨haccepts _ _ _, fun _ _ => haccepts _ _ _⟩
  obtain ⟨r, m, hcreated⟩ := exists_eq_of_snd hmade
  exact ⟨hnamed, by decide +kernel, r, m, hcreated, hdetects _ _ _ r m hcreated⟩

end Metrics

end StatusWatch
