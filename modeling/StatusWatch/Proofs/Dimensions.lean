import StatusWatch.Proofs.Registration

/-!
# What a registry remembers of a name

A name that is unregistered is free again, but not for any family: the help text and the label
names that were registered under it first are kept, and only a family with the same ones can be
registered there later. Whether the families of a kind can be made is therefore a question about
everything that was ever registered under their names.

- `dimensions_eq_iff`: families agree if they have the same help text and the same set of labels.
- `Registry.Admits`: a family can be registered; `register_iff`, `registerAll_iff`.
- `Registry.SameAt`, `Registry.Remembers`: what registering leaves alone, and that it forgets
  nothing; `dimensions_registerAll`: what it adds.
- `Role.familyName`, `Role.descriptor`: the six families by prefix; `Role.familyName_inj`: families
  with different prefixes have different names.
- `exists_new`, `described_of_new`: the six families can be made, and follow the plans.
- `registerFamilies_iff`: when they can be registered.
-/

namespace StatusWatch

namespace Metrics

/-! ## Dimensions -/

theorem mergeSort_eq_iff {names names' : List String} :
    names.mergeSort = names'.mergeSort ↔ names.Perm names' := by
  have hsorted : ∀ l : List String, l.mergeSort.Pairwise (· ≤ ·) := fun l => by
    refine (List.pairwise_mergeSort (fun a b c hab hbc => ?_) (fun a b => ?_) l).imp
      fun {a b} h => of_decide_eq_true h
    · exact decide_eq_true (String.le_trans (of_decide_eq_true hab) (of_decide_eq_true hbc))
    · simpa using String.le_total a b
  constructor
  · intro h
    exact ((List.mergeSort_perm names _).symm.trans (.of_eq h)).trans (List.mergeSort_perm names' _)
  · intro h
    refine List.Perm.eq_of_pairwise (fun a b _ _ => String.le_antisymm) (hsorted names)
      (hsorted names') ?_
    exact ((List.mergeSort_perm names _).trans h).trans (List.mergeSort_perm names' _).symm

/-- Families agree if they have the same help text and the same set of labels. -/
theorem dimensions_eq_iff {d d' : Descriptor} :
    d.dimensions = d'.dimensions ↔ d.help = d'.help ∧ d.labelNames.Perm d'.labelNames := by
  unfold Descriptor.dimensions
  rw [Prod.mk.injEq, mergeSort_eq_iff]

namespace Registry

/-- Two registries know the same about a name. -/
structure SameAt (r r' : Registry) (name : String) : Prop where
  registered : r'.registered.get? name = r.registered.get? name
  dimensions : r'.dimensions.get? name = r.dimensions.get? name

/-- What a registry knew of the families of a name, it still knows. -/
def Remembers (r r' : Registry) : Prop :=
  ∀ name known, r.dimensions.get? name = some known → r'.dimensions.get? name = some known

/-- A family can be registered: its name is free, and what was first registered there, if anything
was, had the same dimensions. -/
structure Admits (r : Registry) (d : Descriptor) : Prop where
  free : r.registered.get? d.name = none
  agrees : ∀ known, r.dimensions.get? d.name = some known → known = d.dimensions

section Knowledge

variable {r r' r'' : Registry} {name : String} {d : Descriptor}

theorem SameAt.refl (r : Registry) (name : String) : SameAt r r name := ⟨rfl, rfl⟩

theorem SameAt.trans (h : SameAt r r' name) (h' : SameAt r' r'' name) : SameAt r r'' name :=
  ⟨h'.registered.trans h.registered, h'.dimensions.trans h.dimensions⟩

theorem SameAt.of_eq (hregistered : r'.registered = r.registered)
    (hdimensions : r'.dimensions = r.dimensions) : SameAt r r' name :=
  ⟨congrArg (OrderedMap.get? · name) hregistered, congrArg (OrderedMap.get? · name) hdimensions⟩

theorem Remembers.of_eq (h : r'.dimensions = r.dimensions) : Remembers r r' :=
  fun name _ hknown => (congrArg (OrderedMap.get? · name) h).trans hknown

theorem Remembers.trans (h : Remembers r r') (h' : Remembers r' r'') : Remembers r r'' :=
  fun name known hknown => h' name known (h name known hknown)

/-- Whether a family can be registered depends on what is known of its name. -/
theorem SameAt.admits_iff (h : SameAt r r' d.name) : r'.Admits d ↔ r.Admits d :=
  ⟨fun ha => ⟨h.registered ▸ ha.free, h.dimensions ▸ ha.agrees⟩,
    fun ha => ⟨h.registered.trans ha.free, fun known hk => ha.agrees known (h.dimensions ▸ hk)⟩⟩

end Knowledge

/-! ## Registering one family -/

theorem register_iff (r : Registry) (c : Collector) :
    (∃ r', r.register c = .ok r') ↔ r.Admits c.descriptor := by
  unfold register
  simp only
  split
  · rename_i htaken
    refine ⟨fun h => by simp at h, fun h => ?_⟩
    rw [OrderedMap.contains, h.free] at htaken
    cases htaken
  · rename_i hfree
    have hfree : r.registered.get? c.descriptor.name = none := by
      simpa [OrderedMap.contains] using hfree
    -- without known dimensions any will do
    cases hknown : r.dimensions.get? c.descriptor.name with
    | none =>
      refine ⟨fun _ => ⟨hfree, fun known hk => ?_⟩, fun _ => ⟨_, rfl⟩⟩
      cases hknown.symm.trans hk
    | some known =>
      simp only
      split
      · rename_i hagrees
        exact ⟨fun _ => ⟨hfree, fun known' hk => Option.some.inj (hknown.symm.trans hk) ▸ hagrees⟩,
          fun _ => ⟨_, rfl⟩⟩
      · rename_i hdiffers
        exact ⟨fun h => by simp at h, fun h => absurd (h.agrees known hknown) hdiffers⟩

theorem register_dimensions {r r' : Registry} {c : Collector} (h : r.register c = .ok r') :
    r'.dimensions = r.dimensions.insert c.descriptor.name c.descriptor.dimensions := by
  rw [(register_eq h).2]

theorem register_sameAt {r r' : Registry} {c : Collector} (h : r.register c = .ok r')
    {name : String} (hname : c.descriptor.name ≠ name) : SameAt r r' name where
  registered := by rw [(register_ok h).2, OrderedMap.get?_insert, if_neg hname]
  dimensions := by rw [register_dimensions h, OrderedMap.get?_insert, if_neg hname]

theorem register_remembers {r r' : Registry} {c : Collector} (h : r.register c = .ok r') :
    Remembers r r' := by
  intro name known hknown
  rw [register_dimensions h, OrderedMap.get?_insert]
  split
  · rename_i hname
    subst hname
    rw [((register_iff r c).mp ⟨r', h⟩).agrees known hknown]
  · exact hknown

/-! ## Registering several families -/

theorem unregisterAll_dimensions (cs : List Collector) : ∀ r : Registry,
    (r.unregisterAll cs).dimensions = r.dimensions := by
  induction cs with
  | nil => exact fun _ => rfl
  | cons c cs ih =>
    intro r
    have hone : ((r.unregister c).toOption.getD r).dimensions = r.dimensions := by
      unfold unregister
      simp only
      split <;> rfl
    exact (ih _).trans hone

theorem unregisterAll_sameAt {cs : List Collector} (r : Registry) {name : String}
    (hname : name ∉ cs.map (·.descriptor.name)) : SameAt r (r.unregisterAll cs) name where
  registered := by rw [get?_unregisterAll, if_neg hname]
  dimensions := by rw [unregisterAll_dimensions]

/-- Registering families, whether it fails or not, is about their names only. -/
theorem registerAll_sameAt (cs : List Collector) {name : String} :
    ∀ {r : Registry} {done : List Collector}, name ∉ done.map (·.descriptor.name) →
      name ∉ cs.map (·.descriptor.name) → SameAt r (r.registerAll done cs).1 name := by
  induction cs with
  | nil => exact fun _ _ => .refl _ _
  | cons c cs ih =>
    intro r done hdone hcs
    rw [List.map_cons, List.mem_cons, not_or] at hcs
    unfold registerAll
    cases hc : r.register c with
    | error e => exact unregisterAll_sameAt r hdone
    | ok r₁ =>
      refine (register_sameAt hc (Ne.symm hcs.1)).trans (ih ?_ hcs.2)
      rw [List.map_append, List.map_singleton, List.mem_append, List.mem_singleton]
      exact not_or.mpr ⟨hdone, hcs.1⟩

theorem registerAll_remembers (cs : List Collector) : ∀ (r : Registry) (done : List Collector),
    Remembers r (r.registerAll done cs).1 := by
  induction cs with
  | nil => exact fun _ _ => .of_eq rfl
  | cons c cs ih =>
    intro r done
    unfold registerAll
    cases hc : r.register c with
    | error e => exact .of_eq (unregisterAll_dimensions done r)
    | ok r₁ => exact (register_remembers hc).trans (ih r₁ (done ++ [c]))

/-- After families are registered, their dimensions are known. -/
theorem dimensions_registerAll (cs : List Collector) : ∀ {r : Registry} {done : List Collector},
    (r.registerAll done cs).2 = .ok () → ∀ c ∈ cs,
      (r.registerAll done cs).1.dimensions.get? c.descriptor.name =
        some c.descriptor.dimensions := by
  induction cs with
  | nil => exact fun _ _ h => nomatch h
  | cons c cs ih =>
    intro r done h c' hc'
    unfold registerAll at h ⊢
    cases hc : r.register c with
    | error e =>
      rw [hc] at h
      cases h
    | ok r₁ =>
      rw [hc] at h
      rcases List.mem_cons.mp hc' with rfl | hc'
      · refine registerAll_remembers cs r₁ (done ++ [c']) _ _ ?_
        rw [register_dimensions hc, OrderedMap.get?_insert, if_pos rfl]
      · exact ih h c' hc'

/-- Families with different names are all registered exactly if each of them can be. -/
theorem registerAll_iff (cs : List Collector) : ∀ {r : Registry} {done : List Collector},
    (cs.map (·.descriptor.name)).Nodup →
      ((r.registerAll done cs).2 = .ok () ↔ ∀ c ∈ cs, r.Admits c.descriptor) := by
  induction cs with
  | nil => exact fun _ => ⟨fun _ _ hc => absurd hc List.not_mem_nil, fun _ => rfl⟩
  | cons c cs ih =>
    intro r done hnodup
    obtain ⟨hfresh, hnodup⟩ := List.nodup_cons.mp hnodup
    unfold registerAll
    rw [List.forall_mem_cons]
    -- the first family is refused exactly if it is not admitted
    cases hc : r.register c with
    | error e =>
      refine ⟨fun hok => ?_, fun h => ?_⟩
      · cases hok
      · obtain ⟨r', hr'⟩ := (register_iff r c).mpr h.1
        cases hc.symm.trans hr'
    | ok r₁ =>
      -- the first family is none of the others, so they can be registered before or after it
      have hothers : (∀ c' ∈ cs, r₁.Admits c'.descriptor) ↔ ∀ c' ∈ cs, r.Admits c'.descriptor :=
        forall₂_congr fun c' hc' => (register_sameAt hc fun heq =>
          hfresh (List.mem_map.mpr ⟨c', hc', heq.symm⟩)).admits_iff
      refine (ih hnodup).trans ?_
      rw [hothers]
      exact (and_iff_right ((register_iff r c).mp ⟨r₁, hc⟩)).symm

end Registry

/-! ## Families by prefix -/

/-- The name of a family of a kind, or of all kinds if the prefix is empty. -/
def Role.familyName (pre : String) (role : Role) : String := pre ++ role.plan.suffix

def Role.descriptor (role : Role) (pre : String) (scope extra : List String) : Descriptor :=
  ⟨role.familyName pre, role.plan.help, role.plan.head ++ scope ++ role.plan.tail ++ extra⟩

/-- No family has a name that ends in that of another one. -/
theorem Role.eq_of_suffix {a b : Role} (h : a.plan.suffix.toList <:+ b.plan.suffix.toList) :
    a = b := by
  revert h
  cases a <;> cases b <;> decide +kernel

/-- The name of a family tells its prefix and its role. -/
theorem Role.familyName_inj {pre pre' : String} {a b : Role}
    (h : a.familyName pre = b.familyName pre') : pre = pre' ∧ a = b := by
  unfold familyName at h
  have hlists : pre.toList ++ a.plan.suffix.toList = pre'.toList ++ b.plan.suffix.toList := by
    rw [← String.toList_append, ← String.toList_append, h]
  -- one of the endings ends the other one, which only equal endings do
  have hrole : a = b := by
    rcases List.suffix_or_suffix_of_suffix ⟨pre.toList, rfl⟩ ⟨pre'.toList, hlists.symm⟩ with
      hsuffix | hsuffix
    · exact Role.eq_of_suffix hsuffix
    · exact (Role.eq_of_suffix hsuffix).symm
  subst hrole
  exact ⟨(String.append_left_inj _).mp h, rfl⟩

/-- The prefix of a kind is not that of the shared families. -/
theorem namePrefix_ne_empty (g : GroupKind) : ConditionMetrics.namePrefix g ≠ "" := by
  intro h
  have := congrArg String.toList h
  simp [ConditionMetrics.namePrefix] at this

theorem descriptor_of_iff {name help : String} {labelNames : List String} {d : Descriptor} :
    Descriptor.of name help labelNames = .ok d ↔ help ≠ "" ∧ isMetricName name = true ∧
      checkLabelNames [] labelNames = .ok () ∧ d = ⟨name, help, labelNames⟩ := by
  unfold Descriptor.of
  cases hc : checkLabelNames [] labelNames <;> by_cases hhelp : help = "" <;>
    cases hname : isMetricName name <;> simp [hhelp, Except.map, eq_comm]

theorem Role.help_ne_empty (role : Role) : role.plan.help ≠ "" := by
  cases role <;> decide

section New

variable {r made : Registry} {f : ConditionFamilies} {pre : String} {scope extra : List String}

/-- What is made follows the plans, and nothing is registered by it. -/
theorem planned_of_new (h : ConditionFamilies.new r pre scope extra = .ok (made, f)) :
    (∀ role : Role,
      role.plan.descriptor pre scope extra = .ok (f.collector role).descriptor) ∧
    made.registered = r.registered ∧ made.dimensions = r.dimensions ∧ made.legacy = r.legacy := by
  unfold ConditionFamilies.new at h
  simp only [bind, Except.bind] at h
  repeat' split at h
  all_goals cases h
  refine ⟨fun role => ?_, rfl, rfl, rfl⟩
  cases role <;> assumption

theorem described_of_new (h : ConditionFamilies.new r pre scope extra = .ok (made, f))
    (role : Role) : (f.collector role).descriptor = role.descriptor pre scope extra :=
  (descriptor_of_iff.mp ((planned_of_new h).1 role)).2.2.2

/-- The six families are made if their names and labels are well-formed. -/
theorem exists_new (hname : ∀ role : Role, isMetricName (role.familyName pre) = true)
    (hlabels : ∀ role : Role, checkLabelNames [] (role.descriptor pre scope extra).labelNames =
      .ok ()) : ∃ made f, ConditionFamilies.new r pre scope extra = .ok (made, f) := by
  have hplanned : ∀ role : Role,
      role.plan.descriptor pre scope extra = .ok (role.descriptor pre scope extra) := fun role =>
    descriptor_of_iff.mpr ⟨role.help_ne_empty, hname role, hlabels role, rfl⟩
  unfold ConditionFamilies.new
  rw [show FamilyPlan.count.descriptor pre scope extra = _ from hplanned .count,
    show FamilyPlan.currentStatusSeconds.descriptor pre scope extra = _ from hplanned .age,
    show FamilyPlan.transitionsTotal.descriptor pre scope extra = _ from hplanned .transitions,
    show FamilyPlan.transitionSeconds.descriptor pre scope extra = _ from hplanned .stays,
    show FamilyPlan.terminationCurrentSeconds.descriptor pre scope extra = _ from
      hplanned .terminating,
    show FamilyPlan.terminationDurationSeconds.descriptor pre scope extra = _ from
      hplanned .terminations]
  exact ⟨_, _, rfl⟩

end New

/-! ## Well-formed names -/

theorem isMetricName_append {pre suffix : String} (hpre : isMetricName pre = true)
    (hsuffix : suffix.toList.all (fun c => c.isAlphanum || c = '_' || c = ':') = true) :
    isMetricName (pre ++ suffix) = true := by
  unfold isMetricName at hpre ⊢
  rw [String.toList_append]
  cases hchars : pre.toList with
  | nil =>
    rw [hchars] at hpre
    cases hpre
  | cons c rest =>
    simp only [hchars, Bool.and_eq_true, List.cons_append, List.all_append] at hpre ⊢
    exact ⟨hpre.1, hpre.2, hsuffix⟩

theorem Role.isMetricName_familyName (role : Role) {pre : String}
    (hpre : isMetricName pre = true) : isMetricName (role.familyName pre) = true :=
  isMetricName_append hpre (by cases role <;> decide)

theorem isMetricName_shared (role : Role) : isMetricName (role.familyName "") = true := by
  cases role <;> decide

theorem checkLabelNames_ok (names : List String) : ∀ {seen : List String},
    (∀ n ∈ names, isLabelName n = true ∧ n ∉ seen) → names.Nodup →
      checkLabelNames seen names = .ok () := by
  induction names with
  | nil => exact fun _ _ => rfl
  | cons name names ih =>
    intro seen hnames hnodup
    obtain ⟨⟨hname, hfresh⟩, hnames⟩ := List.forall_mem_cons.mp hnames
    obtain ⟨hnew, hnodup⟩ := List.nodup_cons.mp hnodup
    unfold checkLabelNames
    rw [hname, Bool.not_true, if_neg Bool.false_ne_true, if_neg hfresh]
    refine ih (fun n hn => ⟨(hnames n hn).1, fun hmem => ?_⟩) hnodup
    rcases List.mem_cons.mp hmem with rfl | hmem
    · exact hnew hn
    · exact (hnames n hn).2 hmem

theorem isLabelName_projectedName (key : String) : isLabelName (projectedName key) = true := by
  have hchars : ∀ c : Char, (if isNameChar c then c else '_').isAlphanum = true ∨
      isNameChar c = false ∨ c = '_' := by
    intro c
    cases hc : isNameChar c with
    | false => exact Or.inr (Or.inl rfl)
    | true =>
      rw [if_pos rfl]
      exact (by simpa [isNameChar] using hc : c.isAlphanum = true ∨ c = '_').imp_right Or.inr
  unfold isLabelName projectedName
  rw [String.toList_ofList]
  simpa [projectedPrefix] using fun c _ => hchars c

theorem mem_distinctNames (keys : List String) : ∀ {seen : List String} {name : String},
    name ∈ (LabelProjection.distinctNames seen keys).map (·.2) →
      ∃ key, name = projectedName key := by
  induction keys with
  | nil => exact fun h => nomatch h
  | cons key keys ih =>
    intro seen name h
    unfold LabelProjection.distinctNames at h
    simp only at h
    split at h
    · exact ih h
    · rcases List.mem_cons.mp h with rfl | h
      · exact ⟨key, rfl⟩
      · exact ih h

/-- The labels of the families of a kind are well-formed, whatever is projected. -/
theorem checkLabelNames_kind (role : Role) (pre : String) (keys : List String) :
    checkLabelNames [] (role.descriptor pre [] (LabelProjection.of keys).labelNames).labelNames =
      .ok () := by
  -- projected names begin in a way of their own, so they are none of the fixed ones
  have hfixed : (role.plan.head ++ [] ++ role.plan.tail).Nodup ∧
      ∀ n ∈ role.plan.head ++ [] ++ role.plan.tail,
        isLabelName n = true ∧ isProjectedName n = false := by
    cases role <;> decide
  refine checkLabelNames_ok _ (fun n hn => ⟨?_, List.not_mem_nil⟩) ?_
  · rcases List.mem_append.mp hn with hn | hn
    · exact (hfixed.2 n hn).1
    · obtain ⟨key, rfl⟩ := mem_distinctNames keys hn
      exact isLabelName_projectedName key
  · have hprojection := LabelProjection.wellFormed_of keys
    refine List.nodup_append.mpr ⟨hfixed.1, hprojection.distinct, fun n hn n' hn' heq => ?_⟩
    subst heq
    cases (hprojection.projected n hn').symm.trans (hfixed.2 n hn).2

theorem checkLabelNames_shared (role : Role) :
    checkLabelNames [] (role.descriptor "" [groupLabel, kindLabel] []).labelNames = .ok () := by
  cases role <;> decide

/-! ## Registering the six families -/

/-- The roles in the order in which families are registered. -/
def Role.all : List Role := [.count, .age, .transitions, .stays, .terminating, .terminations]

theorem Role.mem_all (role : Role) : role ∈ Role.all := by
  cases role <;> decide

namespace ConditionFamilies

/-- The families follow the plans. -/
def Described (f : ConditionFamilies) (pre : String) (scope extra : List String) : Prop :=
  ∀ role, (f.collector role).descriptor = role.descriptor pre scope extra

variable {f : ConditionFamilies} {pre : String} {scope extra : List String}

theorem forall_collectors {P : Collector → Prop} :
    (∀ c ∈ f.collectors, P c) ↔ ∀ role, P (f.collector role) := by
  rw [show f.collectors = Role.all.map f.collector from rfl, List.forall_mem_map]
  exact ⟨fun h role => h role role.mem_all, fun h role _ => h role⟩

theorem Described.names (h : f.Described pre scope extra) :
    f.collectors.map (·.descriptor.name) = Role.all.map (·.familyName pre) := by
  rw [show f.collectors = Role.all.map f.collector from rfl, List.map_map]
  exact List.map_congr_left fun role _ => congrArg Descriptor.name (h role)

theorem Described.not_mem_names (h : f.Described pre scope extra) {name : String}
    (hname : ∀ role : Role, role.familyName pre ≠ name) :
    name ∉ f.collectors.map (·.descriptor.name) := by
  rw [h.names, List.mem_map]
  rintro ⟨role, -, hrole⟩
  exact hname role hrole

theorem Described.nodup (h : f.Described pre scope extra) :
    (f.collectors.map (·.descriptor.name)).Nodup := by
  rw [h.names]
  exact List.Nodup.map (fun a b heq => (Role.familyName_inj heq).2) (by decide)

end ConditionFamilies

namespace Registry

open ConditionFamilies (Described)

variable {f : ConditionFamilies} {pre : String} {scope extra : List String}

/-- The six families can be registered. -/
def Accepts (r : Registry) (pre : String) (scope extra : List String) : Prop :=
  ∀ role : Role, r.Admits (role.descriptor pre scope extra)

theorem accepts_congr {r r' : Registry} (h : ∀ role : Role, SameAt r r' (role.familyName pre)) :
    r'.Accepts pre scope extra ↔ r.Accepts pre scope extra :=
  forall_congr' fun role => SameAt.admits_iff (d := role.descriptor pre scope extra) (h role)

theorem registerFamilies_iff (h : f.Described pre scope extra) (r : Registry) :
    (r.registerFamilies f).2 = .ok () ↔ r.Accepts pre scope extra := by
  refine (registerAll_iff _ h.nodup).trans (ConditionFamilies.forall_collectors.trans ?_)
  exact forall_congr' fun role => by rw [h role]

theorem registerFamilies_sameAt (h : f.Described pre scope extra) (r : Registry) {name : String}
    (hname : ∀ role : Role, role.familyName pre ≠ name) :
    SameAt r (r.registerFamilies f).1 name :=
  registerAll_sameAt _ List.not_mem_nil (h.not_mem_names hname)

theorem registerFamilies_remembers (f : ConditionFamilies) (r : Registry) :
    Remembers r (r.registerFamilies f).1 := registerAll_remembers _ r []

theorem dimensions_registerFamilies (h : f.Described pre scope extra) {r r₁ : Registry}
    (hregister : r.registerFamilies f = (r₁, .ok ())) (role : Role) :
    r₁.dimensions.get? (role.familyName pre) =
      some (role.descriptor pre scope extra).dimensions := by
  have hok : (r.registerFamilies f).2 = .ok () := by rw [hregister]
  have hknown := ConditionFamilies.forall_collectors.mp (dimensions_registerAll _ hok) role
  rw [h role] at hknown
  unfold registerFamilies at hregister
  rwa [hregister] at hknown

theorem unregisterFamilies_sameAt (h : f.Described pre scope extra) (r : Registry) {name : String}
    (hname : ∀ role : Role, role.familyName pre ≠ name) :
    SameAt r (r.unregisterFamilies f) name := unregisterAll_sameAt r (h.not_mem_names hname)

theorem unregisterFamilies_dimensions (f : ConditionFamilies) (r : Registry) :
    (r.unregisterFamilies f).dimensions = r.dimensions := unregisterAll_dimensions f.collectors r

theorem get?_unregisterFamilies (h : f.Described pre scope extra) (r : Registry) (role : Role) :
    (r.unregisterFamilies f).registered.get? (role.familyName pre) = none := by
  unfold unregisterFamilies
  rw [get?_unregisterAll, h.names, if_pos (List.mem_map_of_mem role.mem_all)]

end Registry

end Metrics

end StatusWatch
