import StatusWatch.Proofs.Dimensions

/-!
# Making handles

Making a handle registers the families of its kind and, if it is to share, takes the shared ones.
Either may be refused, and then nothing stays registered; but what was registered on the way is
remembered. What holds of each part of it holds of the whole, so what it keeps can be told without
looking at the registration itself.

- `legacyFamilies_iff`, `create_iff`: when it can be done.
- `Registry.Ready`: the shared families can be had at any time.
- `create_rel`: what holds of each part holds of making a handle; `create_sameAt`,
  `create_remembers`, `create_ready`.
- `create_known`: the labels of the families of a kind are known from the first time on.
- `unregister_dimensions`: giving a handle back forgets nothing.
-/

namespace StatusWatch

namespace Metrics

/-! ## The shared families -/

namespace Registry

open ConditionFamilies (Described)

/-- The shared families can always be made. -/
theorem new_shared_ne_error (r : Registry) (e : MetricError) :
    ConditionFamilies.new r "" [groupLabel, kindLabel] [] ≠ .error e := by
  obtain ⟨made, f, hnew⟩ := exists_new (r := r) isMetricName_shared checkLabelNames_shared
  rw [hnew]
  intro h
  cases h

section New

variable {r made : Registry} {f : ConditionFamilies} {pre : String} {scope extra : List String}
  (hnew : ConditionFamilies.new r pre scope extra = .ok (made, f))
  {out : Registry × Except MetricError Unit} (hregister : made.registerFamilies f = out)

include hnew hregister

/-- Families that were just made can be registered if they could be before. -/
theorem registerNew_iff : out.2 = .ok () ↔ r.Accepts pre scope extra := by
  obtain ⟨-, hregistered, hdimensions, -⟩ := planned_of_new hnew
  rw [← hregister, registerFamilies_iff (described_of_new hnew)]
  exact accepts_congr fun role => .of_eq hregistered hdimensions

theorem registerNew_sameAt {name : String} (hname : ∀ role : Role, role.familyName pre ≠ name) :
    SameAt r out.1 name := by
  obtain ⟨-, hregistered, hdimensions, -⟩ := planned_of_new hnew
  rw [← hregister]
  exact (SameAt.of_eq hregistered hdimensions).trans
    (registerFamilies_sameAt (described_of_new hnew) made hname)

theorem registerNew_remembers : Remembers r out.1 := by
  rw [← hregister]
  exact (Remembers.of_eq (planned_of_new hnew).2.2.1).trans (registerFamilies_remembers f made)

theorem registerNew_legacy : out.1.legacy = r.legacy := by
  obtain ⟨-, -, -, hlegacy⟩ := planned_of_new hnew
  obtain ⟨r₁, result⟩ := out
  cases result with
  | error e => exact (registerFamilies_error hregister).2.legacy.trans hlegacy
  | ok u => exact (registerAll_same _ hregister).legacy.trans hlegacy

end New

/-- The shared families can be had if there are some, or if they can be registered. -/
theorem legacyFamilies_iff (r : Registry) : (∃ f, r.legacyFamilies.2 = .ok f) ↔
    (r.legacy = none → r.Accepts "" [groupLabel, kindLabel] []) := by
  have h := sharing r
  generalize r.legacyFamilies = out at h ⊢
  cases h with
  | joined slot hslot => exact ⟨fun _ hnone => (nomatch hslot.symm.trans hnone), fun _ => ⟨_, rfl⟩⟩
  | unmade e _ hnew => exact absurd hnew (new_shared_ne_error r e)
  | refused made r₁ f e hslot hnew hregister =>
    refine ⟨fun ⟨_, hok⟩ => (nomatch hok), fun haccepts => ?_⟩
    cases (registerNew_iff hnew hregister).mpr (haccepts hslot)
  | started made r₁ f hslot hnew hregister =>
    exact ⟨fun _ _ => (registerNew_iff hnew hregister).mp rfl, fun _ => ⟨_, rfl⟩⟩

/-- Taking the shared families is registering them, if they are not there, and marking the slot. -/
theorem legacyFamilies_rel {R : Registry → Registry → Prop}
    (htrans : ∀ {r r' r''}, R r r' → R r' r'' → R r r'')
    (hslot : ∀ (r : Registry) (slot : Option LegacySlot), R r { r with legacy := slot })
    {r : Registry} (hshared : ∀ {made f out},
      ConditionFamilies.new r "" [groupLabel, kindLabel] [] = .ok (made, f) →
        made.registerFamilies f = out → R r out.1) : R r r.legacyFamilies.1 := by
  have h := sharing r
  generalize r.legacyFamilies = out at h ⊢
  cases h with
  | joined slot _ => exact hslot r _
  | unmade e _ hnew => exact absurd hnew (new_shared_ne_error r e)
  | refused made r₁ f e _ hnew hregister => exact hshared hnew hregister
  | started made r₁ f _ hnew hregister => exact htrans (hshared hnew hregister) (hslot r₁ _)

theorem legacyFamilies_sameAt (r : Registry) {name : String}
    (hname : ∀ role : Role, role.familyName "" ≠ name) : SameAt r r.legacyFamilies.1 name :=
  legacyFamilies_rel (R := fun r r' => SameAt r r' name) (fun h h' => h.trans h')
    (fun _ _ => .of_eq rfl rfl) fun hnew hregister => registerNew_sameAt hnew hregister hname

theorem legacyFamilies_remembers (r : Registry) : Remembers r r.legacyFamilies.1 :=
  legacyFamilies_rel (R := Remembers) (fun h h' => h.trans h') (fun _ _ => .of_eq rfl)
    fun hnew hregister => registerNew_remembers hnew hregister

/-- The shared families can be had at any time: their names are used for nothing else, and are free
while nobody has them. -/
structure Ready (r : Registry) : Prop where
  free : r.legacy = none → ∀ role : Role, r.registered.get? (role.familyName "") = none
  known : ∀ (role : Role) known, r.dimensions.get? (role.familyName "") = some known →
    known = (role.descriptor "" [groupLabel, kindLabel] []).dimensions
  slot : ∀ slot, r.legacy = some slot → slot.families.Described "" [groupLabel, kindLabel] []

namespace Ready

variable {r r' : Registry}

theorem accepts (h : r.Ready) (hnone : r.legacy = none) :
    r.Accepts "" [groupLabel, kindLabel] [] := fun role => ⟨h.free hnone role, h.known role⟩

/-- What happens to other names does not matter. -/
theorem congr (h : r.Ready) (hlegacy : r'.legacy = r.legacy)
    (hsame : ∀ role : Role, SameAt r r' (role.familyName "")) : r'.Ready where
  free hnone role := (hsame role).registered.trans (h.free (hlegacy ▸ hnone) role)
  known role known hknown := h.known role known ((hsame role).dimensions ▸ hknown)
  slot slot hslot := h.slot slot (hlegacy ▸ hslot)

theorem legacyFamilies (h : r.Ready) : r.legacyFamilies.1.Ready := by
  obtain ⟨f, hok⟩ := (legacyFamilies_iff r).mpr h.accepts
  have hs := sharing r
  generalize r.legacyFamilies = out at hs hok ⊢
  cases hs with
  | joined slot hslot =>
    refine { free := fun hnone => (nomatch hnone), known := h.known,
             slot := fun slot' hslot' => ?_ }
    cases hslot'
    exact h.slot slot hslot
  | unmade e _ _ => cases hok
  | refused made r₁ f e hslot hnew hregister => cases hok
  | started made r₁ f hslot hnew hregister =>
    refine { free := fun hnone => (nomatch hnone), known := fun role known hknown => ?_,
             slot := fun slot' hslot' => ?_ }
    · exact Option.some.inj (hknown.symm.trans
        (dimensions_registerFamilies (described_of_new hnew) hregister role))
    · cases hslot'
      exact described_of_new hnew

theorem releaseLegacy (h : r.Ready) (f : ConditionFamilies) : (r.releaseLegacy f).Ready := by
  unfold Registry.releaseLegacy Registry.dropLegacy
  cases hslot : r.legacy with
  | none => exact h
  | some slot =>
    simp only
    have hdescribed := h.slot slot hslot
    split
    · rename_i hlast
      obtain rfl := hlast.1
      -- the last holder leaves the names free
      refine { free := fun _ role => get?_unregisterFamilies hdescribed r role,
               known := fun role known hknown => h.known role known ?_,
               slot := fun _ hslot' => (nomatch hslot') }
      rwa [show Registry.dimensions { r.unregisterFamilies slot.families with legacy := none } = _
        from unregisterAll_dimensions _ r] at hknown
    · split
      · refine { free := fun hnone => (nomatch hnone), known := h.known,
                 slot := fun slot' hslot' => ?_ }
        cases hslot'
        exact hdescribed
      · exact h

end Ready

end Registry

/-! ## Making a handle -/

namespace ConditionMetrics

open ConditionFamilies (Described)
open Registry (Remembers SameAt)

variable {r : Registry} {g : GroupKind} {legacy : Bool} {p : LabelProjection}

/-- The families of a kind have other names than the shared ones. -/
theorem familyName_ne_shared (g : GroupKind) (a b : Role) :
    a.familyName (namePrefix g) ≠ b.familyName "" :=
  fun h => namePrefix_ne_empty g (Role.familyName_inj h).1

theorem exists_new_kind (r : Registry) (hname : isMetricName (namePrefix g) = true)
    {keys : List String} (hp : p = .of keys) :
    ∃ made f, ConditionFamilies.new r (namePrefix g) [] p.labelNames = .ok (made, f) := by
  subst hp
  exact exists_new (fun role => role.isMetricName_familyName hname)
    fun role => checkLabelNames_kind role (namePrefix g) keys

/-- Whether the shared families can be had does not depend on those of a kind. -/
theorem legacyFamilies_registerNew_iff {made r₁ : Registry} {f : ConditionFamilies}
    (hnew : ConditionFamilies.new r (namePrefix g) [] p.labelNames = .ok (made, f))
    (hregister : made.registerFamilies f = (r₁, .ok ())) :
    (∃ f, r₁.legacyFamilies.2 = .ok f) ↔
      (r.legacy = none → r.Accepts "" [groupLabel, kindLabel] []) := by
  have hlegacy : r₁.legacy = r.legacy := Registry.registerNew_legacy hnew hregister
  have hsame : ∀ role : Role, SameAt r r₁ (role.familyName "") := fun role =>
    Registry.registerNew_sameAt hnew hregister fun role' => familyName_ne_shared g role' role
  rw [Registry.legacyFamilies_iff, hlegacy, Registry.accepts_congr hsame]

/-- A handle can be made if the families of the kind can be registered and the shared ones, if they
are asked for, can be had. -/
theorem create_iff (hname : isMetricName (namePrefix g) = true) {keys : List String}
    (hp : p = .of keys) : (∃ m, (create r g legacy p).2 = .ok m) ↔
      r.Accepts (namePrefix g) [] p.labelNames ∧
        (legacy = true → r.legacy = none → r.Accepts "" [groupLabel, kindLabel] []) := by
  obtain ⟨made₀, f₀, hnew₀⟩ := exists_new_kind r hname hp
  have h := creation r g legacy p
  generalize create r g legacy p = out at h ⊢
  -- of the ways a creation can go, only those that end in a handle were accepted throughout
  cases h with
  | unmade e hnew => cases hnew.symm.trans hnew₀
  | refused made r₁ f e hnew hregister =>
    refine ⟨fun ⟨_, hok⟩ => (nomatch hok), fun hcan => ?_⟩
    cases (Registry.registerNew_iff hnew hregister).mpr hcan.1
  | alone made r₁ f hlegacy hnew hregister =>
    subst hlegacy
    have haccepts := (Registry.registerNew_iff hnew hregister).mp rfl
    exact ⟨fun _ => ⟨haccepts, fun h => (nomatch h)⟩, fun _ => ⟨_, rfl⟩⟩
  | shared made r₁ r₂ f shared hlegacy hnew hregister htaken =>
    have haccepts := (Registry.registerNew_iff hnew hregister).mp rfl
    have hhad := (legacyFamilies_registerNew_iff hnew hregister).mp ⟨shared, by rw [htaken]⟩
    exact ⟨fun _ => ⟨haccepts, fun _ => hhad⟩, fun _ => ⟨_, rfl⟩⟩
  | unshared made r₁ r₂ f e hlegacy hnew hregister htaken =>
    refine ⟨fun ⟨_, hok⟩ => (nomatch hok), fun hcan => ?_⟩
    obtain ⟨f', hf'⟩ := (legacyFamilies_registerNew_iff hnew hregister).mpr (hcan.2 hlegacy)
    rw [htaken] at hf'
    cases hf'

theorem create_described {r' : Registry} {m : ConditionMetrics}
    (h : create r g legacy p = (r', .ok m)) :
    m.families.Described (namePrefix g) [] p.labelNames := by
  have hc := creation r g legacy p
  rw [h] at hc
  cases hc with
  | alone made _ f hlegacy hnew hregister => exact described_of_new hnew
  | shared made r₁ _ f shared hlegacy hnew hregister htaken => exact described_of_new hnew

/-- Making a handle is registering the families of the kind, perhaps taking the shared ones, and
perhaps unregistering the first again. -/
theorem create_rel {R : Registry → Registry → Prop} (hrefl : ∀ r, R r r)
    (htrans : ∀ {r r' r''}, R r r' → R r' r'' → R r r'')
    (hown : ∀ {made f out}, ConditionFamilies.new r (namePrefix g) [] p.labelNames = .ok (made, f) →
      made.registerFamilies f = out → R r out.1)
    (hshared : ∀ r : Registry, R r r.legacyFamilies.1)
    (hback : ∀ {f : ConditionFamilies}, f.Described (namePrefix g) [] p.labelNames →
      ∀ r : Registry, R r (r.unregisterFamilies f)) : R r (create r g legacy p).1 := by
  have h := creation r g legacy p
  generalize create r g legacy p = out at h ⊢
  cases h with
  | unmade e hnew => exact hrefl r
  | refused made r₁ f e hnew hregister => exact hown hnew hregister
  | alone made r₁ f hlegacy hnew hregister => exact hown hnew hregister
  | shared made r₁ r₂ f shared hlegacy hnew hregister htaken =>
    have hr₂ := hshared r₁
    rw [htaken] at hr₂
    exact htrans (hown hnew hregister) hr₂
  | unshared made r₁ r₂ f e hlegacy hnew hregister htaken =>
    have hr₂ := hshared r₁
    rw [htaken] at hr₂
    exact htrans (htrans (hown hnew hregister) hr₂) (hback (described_of_new hnew) r₂)

/-- Making a handle is about the names of its families and of the shared ones. -/
theorem create_sameAt {name : String} (hown : ∀ role : Role, role.familyName (namePrefix g) ≠ name)
    (hshared : ∀ role : Role, role.familyName "" ≠ name) :
    SameAt r (create r g legacy p).1 name :=
  create_rel (R := fun r r' => SameAt r r' name) (fun r => .refl r name) (fun h h' => h.trans h')
    (fun hnew hregister => Registry.registerNew_sameAt hnew hregister hown)
    (fun r => Registry.legacyFamilies_sameAt r hshared)
    fun hf r => Registry.unregisterFamilies_sameAt hf r hown

theorem create_remembers : Remembers r (create r g legacy p).1 :=
  create_rel (R := Remembers) (fun _ => .of_eq rfl) (fun h h' => h.trans h')
    (fun hnew hregister => Registry.registerNew_remembers hnew hregister)
    Registry.legacyFamilies_remembers
    fun _ r => .of_eq (Registry.unregisterFamilies_dimensions _ r)

/-- Making a handle, for whatever kind, does not stand in the way of the shared families. -/
theorem create_ready (h : r.Ready) : (create r g legacy p).1.Ready := by
  refine create_rel (R := fun r r' => r.Ready → r'.Ready) (fun _ => id) (fun h h' hr => h' (h hr))
    (fun hnew hregister hr => hr.congr (Registry.registerNew_legacy hnew hregister) fun role => ?_)
    (fun r hr => hr.legacyFamilies)
    (fun hf r hr => hr.congr (Registry.unregisterFamilies_same _ r).legacy fun role => ?_) h
  · exact Registry.registerNew_sameAt hnew hregister fun role' => familyName_ne_shared g role' role
  · exact Registry.unregisterFamilies_sameAt hf r fun role' => familyName_ne_shared g role' role

/-- The labels of the families of a kind are known from the first time that they are asked for, even
if the handle could not be made. -/
theorem create_known (hname : isMetricName (namePrefix g) = true) {keys : List String}
    (hp : p = .of keys) (hcan : r.Accepts (namePrefix g) [] p.labelNames) (role : Role) :
    (create r g legacy p).1.dimensions.get? (role.familyName (namePrefix g)) =
      some (role.descriptor (namePrefix g) [] p.labelNames).dimensions := by
  obtain ⟨made₀, f₀, hnew₀⟩ := exists_new_kind r hname hp
  have h := creation r g legacy p
  generalize create r g legacy p = out at h ⊢
  cases h with
  | unmade e hnew => cases hnew.symm.trans hnew₀
  | refused made r₁ f e hnew hregister =>
    cases (Registry.registerNew_iff hnew hregister).mpr hcan
  | alone made r₁ f hlegacy hnew hregister =>
    exact Registry.dimensions_registerFamilies (described_of_new hnew) hregister role
  | shared made r₁ r₂ f shared hlegacy hnew hregister htaken =>
    -- neither sharing nor giving back makes the registry forget dimensions
    have hremembers := Registry.legacyFamilies_remembers r₁
    rw [htaken] at hremembers
    exact hremembers _ _
      (Registry.dimensions_registerFamilies (described_of_new hnew) hregister role)
  | unshared made r₁ r₂ f e hlegacy hnew hregister htaken =>
    have hremembers := Registry.legacyFamilies_remembers r₁
    rw [htaken] at hremembers
    rw [Registry.unregisterFamilies_dimensions]
    exact hremembers _ _
      (Registry.dimensions_registerFamilies (described_of_new hnew) hregister role)

/-! ## Giving a handle back -/

theorem releaseLegacy_dimensions (f : ConditionFamilies) (r : Registry) :
    (r.releaseLegacy f).dimensions = r.dimensions := by
  unfold Registry.releaseLegacy Registry.dropLegacy
  split
  · split
    · exact Registry.unregisterFamilies_dimensions f r
    · rw [apply_ite Registry.dimensions, ite_self]
  · rfl

/-- Giving a handle back makes names free, but nothing is forgotten. -/
theorem unregister_dimensions (m : ConditionMetrics) (r : Registry) :
    (m.unregister r).dimensions = r.dimensions := by
  have hown := Registry.unregisterFamilies_dimensions m.families r
  unfold ConditionMetrics.unregister
  simp only
  split
  · exact (releaseLegacy_dimensions _ _).trans hown
  · exact hown

end ConditionMetrics

end Metrics

end StatusWatch
