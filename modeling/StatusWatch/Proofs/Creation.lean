import StatusWatch.Observer
import StatusWatch.Proofs.ConditionSets
import StatusWatch.Proofs.LabelSets
import StatusWatch.Proofs.Writes

/-!
# Fresh handles

Creating an observer in a fresh registry makes the families of its kind and, if asked for,
the shared ones. All of them are made by appending, so they get slots of their own and
start without series.

- `Made`: what making the six families does to a registry.
- `registerAll_same`: registering makes no family and changes none.
- `Sharing`, `Creation`: everything that taking the shared families and making a handle can do;
  `create_cases`: what is done when it succeeds.
- `ConditionMetrics.Laid`: a handle whose families declare the planned labels.
- `Fresh`: such a handle, with separate families that have no series.
- `fresh_create`: creating an observer in a fresh registry gives a fresh handle.
- `launched`: an observer to look at; `create_default`, `create_projecting`: it can be created with
  default settings, and with a projected label.
-/

namespace StatusWatch

namespace Metrics

/-! ## Plans by role -/

/-- The plan of the families with a role. -/
def Role.plan : Role → FamilyPlan
  | .count => .count
  | .age => .currentStatusSeconds
  | .transitions => .transitionsTotal
  | .stays => .transitionSeconds
  | .terminating => .terminationCurrentSeconds
  | .terminations => .terminationDurationSeconds

/-- The slot that a family with a role gets, by the numbers of families so far. -/
def Role.slotIn (r : Registry) : Role → Nat × Nat
  | .count => (0, r.gauges.length)
  | .age => (0, r.gauges.length + 1)
  | .transitions => (1, r.counters.length)
  | .stays => (2, r.histograms.length)
  | .terminating => (0, r.gauges.length + 2)
  | .terminations => (2, r.histograms.length + 1)

/-- A family without series, as it is made. -/
def Collector.blank : Collector → AnyFamily
  | .gauge ref => .gauge (.new ref.descriptor)
  | .counter ref => .counter (.new ref.descriptor)
  | .histogram ref => .histogram ⟨bucketBounds durationBounds, .new ref.descriptor⟩

theorem Role.slotIn_injective {r : Registry} {a b : Role} (h : a.slotIn r = b.slotIn r) :
    a = b := by
  cases a <;> cases b <;> simp [Role.slotIn] at h ⊢

/-! ## Making families -/

theorem labelNames_of {name help : String} {labelNames : List String} {d : Descriptor}
    (h : Descriptor.of name help labelNames = .ok d) : d.labelNames = labelNames := by
  unfold Descriptor.of at h
  split at h
  · cases h
  · split at h
    · cases h
    · cases hc : checkLabelNames [] labelNames with
      | error e => rw [hc] at h; cases h
      | ok u =>
        rw [hc] at h
        cases h
        rfl

/-- What making the six families does to a registry. -/
structure Made (r made : Registry) (f : ConditionFamilies) (scope extra : List String) : Prop where
  slots : ∀ role, (f.collector role).slot = role.slotIn r
  labels : ∀ role : Role, (f.collector role).descriptor.labelNames =
    role.plan.head ++ scope ++ role.plan.tail ++ extra
  blank : ∀ role, made.at? (f.collector role) = some (f.collector role).blank
  kept : ∀ c a, r.at? c = some a → made.at? c = some a
  registered : made.registered = r.registered
  next : made.gauges.length = r.gauges.length + 3 ∧ made.counters.length = r.counters.length + 1 ∧
    made.histograms.length = r.histograms.length + 2
  legacy : made.legacy = r.legacy

theorem getElem?_of_grown {α : Type} {l l' : List α} (h : l <+: l') {i : Nat} {a : α}
    (ha : l[i]? = some a) : l'[i]? = some a := by
  obtain ⟨hlt, rfl⟩ := List.getElem?_eq_some_iff.mp ha
  exact List.prefix_iff_getElem?.mp h i hlt

/-- A registry whose lists of families have only grown holds what it held. -/
theorem at?_of_grown {r r' : Registry} (hgauges : r.gauges <+: r'.gauges)
    (hcounters : r.counters <+: r'.counters) (hhistograms : r.histograms <+: r'.histograms)
    {c : Collector} {a : AnyFamily} (ha : r.at? c = some a) : r'.at? c = some a := by
  cases c with
  | gauge ref =>
    obtain ⟨g, hg, rfl⟩ := Option.map_eq_some_iff.mp ha
    exact Option.map_eq_some_iff.mpr ⟨g, getElem?_of_grown hgauges hg, rfl⟩
  | counter ref =>
    obtain ⟨g, hg, rfl⟩ := Option.map_eq_some_iff.mp ha
    exact Option.map_eq_some_iff.mpr ⟨g, getElem?_of_grown hcounters hg, rfl⟩
  | histogram ref =>
    obtain ⟨g, hg, rfl⟩ := Option.map_eq_some_iff.mp ha
    exact Option.map_eq_some_iff.mpr ⟨g, getElem?_of_grown hhistograms hg, rfl⟩

theorem made_of_new {r made : Registry} {f : ConditionFamilies} {pre : String}
    {scope extra : List String} (h : ConditionFamilies.new r pre scope extra = .ok (made, f)) :
    Made r made f scope extra := by
  unfold ConditionFamilies.new at h
  cases h₁ : FamilyPlan.count.descriptor pre scope extra with
  | error e => rw [h₁] at h; cases h
  | ok d₁ =>
  cases h₂ : FamilyPlan.currentStatusSeconds.descriptor pre scope extra with
  | error e => rw [h₁, h₂] at h; cases h
  | ok d₂ =>
  cases h₃ : FamilyPlan.transitionsTotal.descriptor pre scope extra with
  | error e => rw [h₁, h₂, h₃] at h; cases h
  | ok d₃ =>
  cases h₄ : FamilyPlan.transitionSeconds.descriptor pre scope extra with
  | error e => rw [h₁, h₂, h₃, h₄] at h; cases h
  | ok d₄ =>
  cases h₅ : FamilyPlan.terminationCurrentSeconds.descriptor pre scope extra with
  | error e => rw [h₁, h₂, h₃, h₄, h₅] at h; cases h
  | ok d₅ =>
  cases h₆ : FamilyPlan.terminationDurationSeconds.descriptor pre scope extra with
  | error e => rw [h₁, h₂, h₃, h₄, h₅, h₆] at h; cases h
  | ok d₆ =>
  rw [h₁, h₂, h₃, h₄, h₅, h₆] at h
  cases h
  refine { slots := ?_, labels := ?_, blank := ?_, kept := ?_, registered := rfl, next := ?_,
           legacy := rfl }
  · -- each family is appended to the list of its sort, so its number is that list's length before
    intro role
    cases role <;> simp [ConditionFamilies.collector, Collector.slot, Role.slotIn]
  · intro role
    cases role
    · exact labelNames_of h₁
    · exact labelNames_of h₂
    · exact labelNames_of h₃
    · exact labelNames_of h₄
    · exact labelNames_of h₅
    · exact labelNames_of h₆
  · intro role
    cases role <;> simp [ConditionFamilies.collector, Registry.at?, Collector.blank]
  · -- families are appended, so those that were there keep their numbers
    intro c a
    refine at?_of_grown ?_ ?_ ?_ <;> simp
  · simp

/-! ## Registering families -/

namespace Registry

/-- Registries with the same families, whatever is registered in them. -/
structure SameFamilies (r r' : Registry) : Prop where
  gauges : r'.gauges = r.gauges
  counters : r'.counters = r.counters
  histograms : r'.histograms = r.histograms
  legacy : r'.legacy = r.legacy

theorem SameFamilies.refl (r : Registry) : SameFamilies r r := ⟨rfl, rfl, rfl, rfl⟩

theorem SameFamilies.trans {r r' r'' : Registry} (h : SameFamilies r r')
    (h' : SameFamilies r' r'') : SameFamilies r r'' :=
  ⟨h'.gauges.trans h.gauges, h'.counters.trans h.counters, h'.histograms.trans h.histograms,
    h'.legacy.trans h.legacy⟩

theorem SameFamilies.at? {r r' : Registry} (h : SameFamilies r r') (c : Collector) :
    r'.at? c = r.at? c := by
  cases c <;> simp only [Registry.at?, h.gauges, h.counters, h.histograms]

/-- What registering a family comes to: its name was free, and is taken and known now. -/
theorem register_eq {r r' : Registry} {c : Collector} (h : r.register c = .ok r') :
    r.registered.get? c.descriptor.name = none ∧
      r' = { r with
        registered := r.registered.insert c.descriptor.name c
        dimensions := r.dimensions.insert c.descriptor.name c.descriptor.dimensions } := by
  unfold register at h
  simp only at h
  split at h
  · cases h
  · rename_i hfree
    have hfree : r.registered.get? c.descriptor.name = none := by
      simpa [OrderedMap.contains] using hfree
    refine ⟨hfree, ?_⟩
    split at h
    · cases h
      rfl
    · split at h
      · cases h
        rfl
      · cases h

theorem register_same {r r' : Registry} {c : Collector} (h : r.register c = .ok r') :
    SameFamilies r r' := by
  rw [(register_eq h).2]
  exact ⟨rfl, rfl, rfl, rfl⟩

/-- Registering makes no family and changes none. -/
theorem registerAll_same (cs : List Collector) : ∀ {r r' : Registry} {done : List Collector},
    r.registerAll done cs = (r', .ok ()) → SameFamilies r r' := by
  induction cs with
  | nil =>
    intro r r' done h
    cases h
    exact SameFamilies.refl r
  | cons c cs ih =>
    intro r r' done h
    unfold registerAll at h
    cases hc : r.register c with
    | error e => rw [hc] at h; cases h
    | ok r₁ =>
      rw [hc] at h
      exact (register_same hc).trans (ih h)

end Registry

/-! ## Making handles -/

/-- Everything that taking the shared families can do. -/
inductive Registry.Sharing (r : Registry) :
    Registry × Except MetricError ConditionFamilies → Prop
  | joined (slot : LegacySlot) (hslot : r.legacy = some slot) :
      Sharing r ({ r with legacy := some { slot with holders := slot.holders + 1 } },
        .ok slot.families)
  | unmade (e : MetricError) (hslot : r.legacy = none)
      (hnew : ConditionFamilies.new r "" [groupLabel, kindLabel] [] = .error e) :
      Sharing r (r, .error e)
  | refused (made r₁ : Registry) (f : ConditionFamilies) (e : MetricError)
      (hslot : r.legacy = none)
      (hnew : ConditionFamilies.new r "" [groupLabel, kindLabel] [] = .ok (made, f))
      (hregister : made.registerFamilies f = (r₁, .error e)) : Sharing r (r₁, .error e)
  | started (made r₁ : Registry) (f : ConditionFamilies) (hslot : r.legacy = none)
      (hnew : ConditionFamilies.new r "" [groupLabel, kindLabel] [] = .ok (made, f))
      (hregister : made.registerFamilies f = (r₁, .ok ())) :
      Sharing r ({ r₁ with legacy := some ⟨f, 1⟩ }, .ok f)

theorem Registry.sharing (r : Registry) : r.Sharing r.legacyFamilies := by
  unfold legacyFamilies
  cases hslot : r.legacy with
  | some slot => exact .joined slot hslot
  | none =>
  cases hnew : ConditionFamilies.new r "" [groupLabel, kindLabel] [] with
  | error e => exact .unmade e hslot hnew
  | ok pair =>
  obtain ⟨made, f⟩ := pair
  simp only
  cases hregister : made.registerFamilies f with
  | mk r₁ result =>
  cases result with
  | error e => exact .refused made r₁ f e hslot hnew hregister
  | ok u => exact .started made r₁ f hslot hnew hregister

namespace ConditionMetrics

/-- Everything that making a handle can do. -/
inductive Creation (r : Registry) (g : GroupKind) (legacy : Bool) (p : LabelProjection) :
    Registry × Except MetricError ConditionMetrics → Prop
  | unmade (e : MetricError)
      (hnew : ConditionFamilies.new r (namePrefix g) [] p.labelNames = .error e) :
      Creation r g legacy p (r, .error e)
  | refused (made r₁ : Registry) (f : ConditionFamilies) (e : MetricError)
      (hnew : ConditionFamilies.new r (namePrefix g) [] p.labelNames = .ok (made, f))
      (hregister : made.registerFamilies f = (r₁, .error e)) :
      Creation r g legacy p (r₁, .error e)
  | alone (made r₁ : Registry) (f : ConditionFamilies) (hlegacy : legacy = false)
      (hnew : ConditionFamilies.new r (namePrefix g) [] p.labelNames = .ok (made, f))
      (hregister : made.registerFamilies f = (r₁, .ok ())) :
      Creation r g legacy p (r₁, .ok ⟨g, p, f, none⟩)
  | shared (made r₁ r₂ : Registry) (f shared : ConditionFamilies) (hlegacy : legacy = true)
      (hnew : ConditionFamilies.new r (namePrefix g) [] p.labelNames = .ok (made, f))
      (hregister : made.registerFamilies f = (r₁, .ok ()))
      (hshared : r₁.legacyFamilies = (r₂, .ok shared)) :
      Creation r g legacy p (r₂, .ok ⟨g, p, f, some shared⟩)
  | unshared (made r₁ r₂ : Registry) (f : ConditionFamilies) (e : MetricError)
      (hlegacy : legacy = true)
      (hnew : ConditionFamilies.new r (namePrefix g) [] p.labelNames = .ok (made, f))
      (hregister : made.registerFamilies f = (r₁, .ok ()))
      (hshared : r₁.legacyFamilies = (r₂, .error e)) :
      Creation r g legacy p (r₂.unregisterFamilies f, .error e)

theorem creation (r : Registry) (g : GroupKind) (legacy : Bool) (p : LabelProjection) :
    Creation r g legacy p (create r g legacy p) := by
  unfold create
  cases hnew : ConditionFamilies.new r (namePrefix g) [] p.labelNames with
  | error e => exact .unmade e hnew
  | ok pair =>
  obtain ⟨made, f⟩ := pair
  simp only
  cases hregister : made.registerFamilies f with
  | mk r₁ result =>
  cases result with
  | error e => exact .refused made r₁ f e hnew hregister
  | ok u =>
  cases legacy with
  | false => exact .alone made r₁ f rfl hnew hregister
  | true =>
  simp only [if_true]
  cases hshared : r₁.legacyFamilies with
  | mk r₂ result =>
  cases result with
  | error e => exact .unshared made r₁ r₂ f e rfl hnew hregister hshared
  | ok shared => exact .shared made r₁ r₂ f shared rfl hnew hregister hshared

/-- What making a handle does to the shared families: nothing if they are not asked for; one more
holder if they are there; otherwise they are made, registered and held. -/
inductive Shares (r r' : Registry) (legacy : Bool) (m : ConditionMetrics) : Prop
  | without (hlegacy : legacy = false) (hnone : m.legacy = none) (heq : r' = r)
  | joined (slot : LegacySlot) (hlegacy : legacy = true) (hslot : r.legacy = some slot)
      (hshared : m.legacy = some slot.families)
      (heq : r' = { r with legacy := some { slot with holders := slot.holders + 1 } })
  | started (f : ConditionFamilies) (made r₁ : Registry) (hlegacy : legacy = true)
      (hslot : r.legacy = none) (hshared : m.legacy = some f)
      (hmade : Made r made f [groupLabel, kindLabel] [])
      (hregister : made.registerFamilies f = (r₁, .ok ()))
      (heq : r' = { r₁ with legacy := some ⟨f, 1⟩ })

/-- What making a handle does when it succeeds: the families of the kind are made and registered,
and then the shared ones are seen to. -/
theorem create_cases {r r' : Registry} {g : GroupKind} {legacy : Bool} {p : LabelProjection}
    {m : ConditionMetrics} (h : ConditionMetrics.create r g legacy p = (r', .ok m)) :
    m.groupKind = g ∧ m.projection = p ∧ ∃ made r₁, Made r made m.families [] p.labelNames ∧
      made.registerFamilies m.families = (r₁, .ok ()) ∧ Shares r₁ r' legacy m := by
  have hcreation := creation r g legacy p
  rw [h] at hcreation
  cases hcreation with
  | alone made _ f hlegacy hnew hregister =>
    exact ⟨rfl, rfl, made, r', made_of_new hnew, hregister, .without hlegacy rfl rfl⟩
  | shared made r₁ _ f shared hlegacy hnew hregister hshared =>
    refine ⟨rfl, rfl, made, r₁, made_of_new hnew, hregister, ?_⟩
    have hsharing := r₁.sharing
    rw [hshared] at hsharing
    cases hsharing with
    | joined slot hslot => exact .joined slot hlegacy hslot rfl rfl
    | started made' r₂ _ hslot hnew' hregister' =>
      exact .started shared made' r₂ hlegacy hslot rfl (made_of_new hnew') hregister' rfl

end ConditionMetrics

/-! ## Fresh handles -/

/-- A handle whose families declare the planned labels. -/
structure ConditionMetrics.Laid (m : ConditionMetrics) : Prop where
  projection : m.projection.WellFormed
  kind : ∀ role : Role, (m.families.collector role).descriptor.labelNames =
    role.plan.head ++ role.plan.tail ++ m.projection.labelNames
  shared : ∀ f, m.legacy = some f → ∀ role : Role, (f.collector role).descriptor.labelNames =
    role.plan.head ++ [groupLabel, kindLabel] ++ role.plan.tail

/-- Families that are made declare the planned labels, if the shared ones do. -/
theorem laid_of_made {r made : Registry} {m : ConditionMetrics} {p : LabelProjection}
    (hp : p.WellFormed) (hprojection : m.projection = p)
    (hmade : Made r made m.families [] p.labelNames)
    (hshared : ∀ f, m.legacy = some f → ∀ role : Role,
      (f.collector role).descriptor.labelNames =
        role.plan.head ++ [groupLabel, kindLabel] ++ role.plan.tail) : m.Laid where
  projection := hprojection ▸ hp
  kind role := by rw [hmade.labels role, List.append_nil, hprojection]
  shared := hshared

/-- A handle whose families are laid out as planned, separate and without series. -/
structure Fresh (m : ConditionMetrics) (r : Registry) : Prop extends m.Laid where
  separate : m.Separate
  blank : ∀ f ∈ m.surfaces, ∀ role, r.at? (f.collector role) = some (f.collector role).blank

/-- Families with slots of their own are separate. -/
theorem separate_single {r made : Registry} {m : ConditionMetrics} {extra : List String}
    (h : Made r made m.families [] extra) (hnone : m.legacy = none) : m.Separate := by
  have hsurfaces : m.surfaces = [m.families] := by simp [ConditionMetrics.surfaces, hnone]
  refine { surfaces := by simp [hsurfaces], slots := ?_ }
  intro f hf g hg a b hslot
  obtain rfl : f = m.families := by simpa [hsurfaces] using hf
  obtain rfl : g = m.families := by simpa [hsurfaces] using hg
  rw [h.slots, h.slots] at hslot
  exact ⟨rfl, Role.slotIn_injective hslot⟩

/-- Families that were made after others do not share slots with them. -/
theorem separate_both {r₀ r₁ r₂ made : Registry} {m : ConditionMetrics} {f : ConditionFamilies}
    {extra : List String} (h₁ : Made r₀ r₁ m.families [] extra) (hsame : r₁.SameFamilies r₂)
    (h₂ : Made r₂ made f [groupLabel, kindLabel] []) (hsome : m.legacy = some f) :
    m.Separate := by
  have hsurfaces : m.surfaces = [m.families, f] := by simp [ConditionMetrics.surfaces, hsome]
  -- the shared families are numbered after those of the kind
  have hdisjoint : ∀ a b : Role, a.slotIn r₀ ≠ b.slotIn r₂ := by
    intro a b
    obtain ⟨hg, hc, hh⟩ := h₁.next
    cases a <;> cases b <;>
      simp [Role.slotIn, hsame.gauges, hsame.counters, hsame.histograms, hg, hc, hh] <;> omega
  have hne : m.families ≠ f := by
    intro heq
    apply hdisjoint .count .count
    rw [← h₁.slots, ← h₂.slots, heq]
  refine { surfaces := by simp [hsurfaces, hne], slots := ?_ }
  intro g hg g' hg' a b hslot
  rw [hsurfaces] at hg hg'
  -- within one surface numbers tell roles apart, and across surfaces they never meet
  rcases List.mem_pair.mp hg with rfl | rfl <;> rcases List.mem_pair.mp hg' with rfl | rfl
  · rw [h₁.slots, h₁.slots] at hslot
    exact ⟨rfl, Role.slotIn_injective hslot⟩
  · rw [h₁.slots, h₂.slots] at hslot
    exact absurd hslot (hdisjoint a b)
  · rw [h₂.slots, h₁.slots] at hslot
    exact absurd hslot.symm (hdisjoint b a)
  · rw [h₂.slots, h₂.slots] at hslot
    exact ⟨rfl, Role.slotIn_injective hslot⟩

/-- Creating a handle in a registry that has no shared families yet. -/
theorem fresh_of_create {r₀ r : Registry} {g : GroupKind} {legacy : Bool}
    {p : LabelProjection} {m : ConditionMetrics} (hr : r₀.legacy = none) (hp : p.WellFormed)
    (h : ConditionMetrics.create r₀ g legacy p = (r, .ok m)) :
    Fresh m r ∧ m.groupKind = g ∧ m.projection = p ∧ m.legacy.isSome = legacy := by
  obtain ⟨hgroup, hprojection, made, r₁, hmade, hregister, hshares⟩ :=
    ConditionMetrics.create_cases h
  have hsame := Registry.registerAll_same _ hregister
  have hblank : ∀ role, r₁.at? (m.families.collector role) =
      some (m.families.collector role).blank := by
    intro role
    rw [hsame.at?, hmade.blank]
  cases hshares with
  | without hlegacy hnone heq =>
    subst heq
    have hlaid := laid_of_made hp hprojection hmade fun f hf => by
      rw [hnone] at hf
      cases hf
    refine ⟨{ hlaid with separate := separate_single hmade hnone, blank := ?_ }, hgroup,
      hprojection, by rw [hnone, hlegacy]; rfl⟩
    intro f hf
    obtain rfl : f = m.families := by simpa [ConditionMetrics.surfaces, hnone] using hf
    exact hblank
  | joined slot hlegacy hslot =>
    -- there are none to join
    rw [hsame.legacy, hmade.legacy, hr] at hslot
    cases hslot
  | started shared made' r₂ hlegacy hslot hstarted hmade' hregister' heq =>
    have hsame' := Registry.registerAll_same _ hregister'
    have hlaid := laid_of_made hp hprojection hmade fun f hf role => by
      rw [hstarted] at hf
      cases hf
      rw [hmade'.labels role, List.append_nil]
    refine ⟨{ hlaid with separate := separate_both hmade hsame hmade' hstarted, blank := ?_ },
      hgroup, hprojection, by rw [hstarted, hlegacy]; rfl⟩
    intro f hf role
    -- marking the shared families as taken changes no family
    have hslot : r.at? (f.collector role) = r₂.at? (f.collector role) := by
      rw [heq]
      cases f.collector role <;> rfl
    rw [hslot, hsame'.at?]
    have hmem : f = m.families ∨ f = shared := by
      simpa [ConditionMetrics.surfaces, hstarted] using hf
    rcases hmem with rfl | rfl
    · exact hmade'.kept _ _ (hblank role)
    · exact hmade'.blank role

end Metrics

open Metrics (ConditionMetrics Fresh Registry)

namespace Observer

/-- Creating an observer in a fresh registry. -/
theorem fresh_create {scope : String} {g : GroupKind} {settings : ObserverSettings}
    {r : Registry} {o : Observer}
    (h : Observer.create (Registry.new scope) g settings = (r, .ok o)) :
    Fresh o.metrics r ∧ o.snapshots = ∅ ∧ o.metrics.groupKind = g ∧
      o.metrics.projection = LabelProjection.of settings.metrics.labelProjection ∧
      o.metrics.legacy.isSome = settings.metrics.legacyMetrics := by
  unfold Observer.create at h
  cases hm : ConditionMetrics.create (Registry.new scope) g settings.metrics.legacyMetrics
      (LabelProjection.of settings.metrics.labelProjection) with
  | mk r' result =>
  simp only [hm] at h
  cases result with
  | error e => cases h
  | ok m =>
  cases h
  obtain ⟨hfresh, hgroup, hprojection, hlegacy⟩ :=
    Metrics.fresh_of_create rfl (LabelProjection.wellFormed_of _) hm
  exact ⟨hfresh, rfl, hgroup, hprojection, hlegacy⟩

end Observer

namespace Watch

/-! ## Observers that can be looked at -/

/-- Settings with shared families and a projected label. -/
def projecting : ObserverSettings :=
  { (default : ObserverSettings) with metrics := ⟨"operator", true, ["team"]⟩ }

theorem exists_create (g : GroupKind) (settings : ObserverSettings)
    (h : (Observer.create (Registry.new "operator") g settings).2.isOk = true) :
    ∃ r o, Observer.create (Registry.new "operator") g settings = (r, .ok o) := by
  cases hc : Observer.create (Registry.new "operator") g settings with
  | mk r result =>
    cases result with
    | error e =>
      rw [hc] at h
      cases h
    | ok o => exact ⟨r, o, rfl⟩

/-- The observer that is created with some settings, in the registry that it was created in. -/
def launched (settings : ObserverSettings) : Watch :=
  match Observer.create (Registry.new "operator") ⟨"apps", "Deployment"⟩ settings with
  | (r, .ok o) => ⟨o, r⟩
  | (r, .error _) => ⟨default, r⟩

theorem launched_eq {settings : ObserverSettings} {r : Registry} {o : Observer}
    (h : Observer.create (Registry.new "operator") ⟨"apps", "Deployment"⟩ settings = (r, .ok o)) :
    launched settings = ⟨o, r⟩ := by
  rw [launched, h]

theorem create_default : ∃ r o,
    Observer.create (Registry.new "operator") ⟨"apps", "Deployment"⟩ default = (r, .ok o) :=
  exists_create ⟨"apps", "Deployment"⟩ default (by decide +kernel)

theorem create_projecting : ∃ r o,
    Observer.create (Registry.new "operator") ⟨"apps", "Deployment"⟩ projecting = (r, .ok o) :=
  exists_create ⟨"apps", "Deployment"⟩ projecting (by decide +kernel)

/-- A resource with one condition. -/
def ready (ns name : String) (status : ConditionStatus) : Resource :=
  Resource.ofObject
    { metadata := .of .epoch ns name
      groupKind := ⟨"apps", "Deployment"⟩
      conditionTypes := .of "Ready" []
      conditions := [.of .epoch "Ready" status] }

theorem distinct_ready (ns name : String) (status : ConditionStatus) :
    Condition.Distinct (ready ns name status).conditions := List.nodup_singleton _

end Watch

end StatusWatch
