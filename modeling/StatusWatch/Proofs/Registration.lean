import Mathlib.Data.List.Perm.Basic
import StatusWatch.Proofs.Creation

/-!
# Registering and unregistering

A registry holds its collectors by name. As long as every name is that of its collector, the
map can be read as a collection of collectors: registering some adds them, unregistering them
takes them out again, and a registration that fails half way leaves the collection as it was.

- `OrderedMap.values_insert`, `OrderedMap.values_erase`: maps as collections of values.
- `Registry.Named`: every collector is registered under its name.
- `registerAll_ok`, `registerAll_error`: several collectors are registered all or not at all.
- `unregisterAll_perm`: unregistering takes out what was there.
- `unregisterFamilies_perm`, `unregisterAll_registerAll`: the same for the families of a handle.
- `create_error`: what making a handle leaves alone when it fails.
-/

namespace StatusWatch

namespace OrderedMap

variable {κ α : Type} [LT κ] [DecidableEq κ] [DecidableLT κ]

theorem perm_place {k : κ} (v : α) {l : List (κ × α)} (h : find? k l = none) :
    (place k v l).Perm ((k, v) :: l) := by
  induction l with
  | nil => exact List.Perm.refl _
  | cons e l ih =>
    obtain ⟨k', v'⟩ := e
    by_cases hk : k' = k
    · simp [find?, hk] at h
    · simp only [find?, hk, if_false] at h
      unfold place
      split
      · exact List.Perm.refl _
      · rw [if_neg (Ne.symm hk)]
        exact ((ih h).cons (k', v')).trans (List.Perm.swap _ _ _)

variable [StrictOrder κ]

/-- A new entry is one more value. -/
theorem values_insert {m : OrderedMap κ α} {k : κ} (v : α) (h : m.get? k = none) :
    (m.insert k v).values.Perm (v :: m.values) :=
  List.Perm.map Prod.snd (perm_place v h)

/-- Removing an entry takes its value out. -/
theorem values_erase {m : OrderedMap κ α} {k : κ} {v : α} (h : m.get? k = some v) :
    m.values.Perm (v :: (m.erase k).values) := by
  have hback : m = (m.erase k).insert k v := ext_get? fun k' => by
    rw [get?_insert, get?_erase]
    split
    · rename_i hk
      rw [← hk, h]
    · rfl
  have hperm := values_insert v (m := m.erase k) (k := k) (by simp)
  rwa [← hback] at hperm

end OrderedMap

namespace Metrics

namespace Registry

/-! ## Names -/

/-- Every collector is registered under its name. -/
def Named (r : Registry) : Prop :=
  ∀ name c, r.registered.get? name = some c → c.descriptor.name = name

theorem Named.mem_iff {r : Registry} (h : r.Named) {c : Collector} :
    c ∈ r.registered.values ↔ r.registered.get? c.descriptor.name = some c := by
  unfold OrderedMap.values
  rw [List.mem_map]
  constructor
  · rintro ⟨⟨name, c⟩, he, rfl⟩
    have hget := (r.registered.mem_entries_iff name c).mp he
    rw [h name c hget, hget]
  · exact fun hget => ⟨_, (r.registered.mem_entries_iff _ c).mpr hget, rfl⟩

/-- Names are a matter of the registered collectors alone. -/
theorem Named.congr {r r' : Registry} (hr : r.Named) (h : r'.registered = r.registered) :
    r'.Named := fun name c hget => hr name c (h ▸ hget)

theorem Named.with_legacy {r : Registry} (hr : r.Named) (slot : Option LegacySlot) :
    Registry.Named { r with legacy := slot } := hr

theorem named_new (scope : String) : (Registry.new scope).Named := fun _ _ h => nomatch h

/-! ## Registering -/

theorem register_ok {r r' : Registry} {c : Collector} (h : r.register c = .ok r') :
    r.registered.get? c.descriptor.name = none ∧
      r'.registered = r.registered.insert c.descriptor.name c := by
  obtain ⟨hfree, rfl⟩ := register_eq h
  exact ⟨hfree, rfl⟩

theorem Named.register {r r' : Registry} (hr : r.Named) {c : Collector}
    (h : r.register c = .ok r') : r'.Named := by
  obtain ⟨-, hregistered⟩ := register_ok h
  intro name c' hget
  rw [hregistered, OrderedMap.get?_insert] at hget
  split at hget
  · rename_i hname
    cases hget
    exact hname
  · exact hr name c' hget

/-- Collectors that are registered one after the other are in the registry. -/
theorem registerAll_ok (cs : List Collector) : ∀ {r r' : Registry} {done : List Collector},
    r.Named → r.registerAll done cs = (r', .ok ()) →
      r'.Named ∧ r'.registered.values.Perm (cs ++ r.registered.values) := by
  induction cs with
  | nil =>
    intro r r' done hr h
    cases h
    exact ⟨hr, List.Perm.refl _⟩
  | cons c cs ih =>
    intro r r' done hr h
    unfold registerAll at h
    cases hc : r.register c with
    | error e =>
      rw [hc] at h
      cases h
    | ok r₁ =>
      rw [hc] at h
      obtain ⟨hr', hperm⟩ := ih (hr.register hc) h
      obtain ⟨hfree, hregistered⟩ := register_ok hc
      refine ⟨hr', hperm.trans ?_⟩
      rw [hregistered]
      exact ((OrderedMap.values_insert c hfree).append_left cs).trans List.perm_middle

/-! ## Unregistering -/

theorem get?_unregisterAll (cs : List Collector) (name : String) : ∀ r : Registry,
    (r.unregisterAll cs).registered.get? name =
      if name ∈ cs.map (·.descriptor.name) then none else r.registered.get? name := by
  induction cs with
  | nil => exact fun _ => rfl
  | cons c cs ih =>
    intro r
    -- unregistering what is not registered fails and changes nothing
    have hone : ((r.unregister c).toOption.getD r).registered.get? name =
        if c.descriptor.name = name then none else r.registered.get? name := by
      unfold unregister
      simp only
      split
      · exact OrderedMap.get?_erase _ _ _
      · rename_i hmissing
        show r.registered.get? name = _
        split
        · rename_i hname
          rw [← hname]
          simpa [OrderedMap.contains] using hmissing
        · rfl
    show (((r.unregister c).toOption.getD r).unregisterAll cs).registered.get? name = _
    rw [ih, hone]
    by_cases hname : c.descriptor.name = name
    · simp [hname]
    · simp [hname, Ne.symm hname]

/-- Unregistering makes no family and changes none. -/
theorem unregisterAll_same (cs : List Collector) : ∀ r : Registry,
    SameFamilies r (r.unregisterAll cs) := by
  induction cs with
  | nil => exact SameFamilies.refl
  | cons c cs ih =>
    intro r
    have hone : SameFamilies r ((r.unregister c).toOption.getD r) := by
      unfold unregister
      simp only
      split
      · exact ⟨rfl, rfl, rfl, rfl⟩
      · exact SameFamilies.refl r
    exact hone.trans (ih _)

theorem unregisterFamilies_same (f : ConditionFamilies) (r : Registry) :
    SameFamilies r (r.unregisterFamilies f) := unregisterAll_same f.collectors r

theorem Named.unregisterAll {r : Registry} (hr : r.Named) (cs : List Collector) :
    (r.unregisterAll cs).Named := by
  intro name c hget
  rw [get?_unregisterAll] at hget
  split at hget
  · cases hget
  · exact hr name c hget

theorem Named.unregisterFamilies {r : Registry} (hr : r.Named) (f : ConditionFamilies) :
    (r.unregisterFamilies f).Named := hr.unregisterAll f.collectors

/-- Unregistering takes out what was there. -/
theorem unregisterAll_perm (cs : List Collector) {rest : List Collector} : ∀ {r : Registry},
    r.Named → r.registered.values.Perm (cs ++ rest) →
      (r.unregisterAll cs).registered.values.Perm rest := by
  induction cs with
  | nil => exact fun _ h => h
  | cons c cs ih =>
    intro r hr h
    have hget : r.registered.get? c.descriptor.name = some c :=
      hr.mem_iff.mp (h.mem_iff.mpr List.mem_cons_self)
    have hone : (r.unregister c).toOption.getD r =
        { r with registered := r.registered.erase c.descriptor.name } := by
      unfold unregister
      simp [OrderedMap.contains, hget, Except.toOption]
    show (((r.unregister c).toOption.getD r).unregisterAll cs).registered.values.Perm rest
    rw [hone]
    refine ih ?_ ?_
    · have hnamed := hr.unregisterAll [c]
      rwa [show r.unregisterAll [c] = (r.unregister c).toOption.getD r from rfl, hone] at hnamed
    · exact ((OrderedMap.values_erase hget).symm.trans h).cons_inv

/-- A registration that fails takes out again what it registered before. -/
theorem registerAll_error {base : OrderedMap String Collector} (cs : List Collector) :
    ∀ {r r' : Registry} {done : List Collector} {e : MetricError},
      (∀ name, name ∉ done.map (·.descriptor.name) → r.registered.get? name = base.get? name) →
      (∀ name ∈ done.map (·.descriptor.name), base.get? name = none) →
      r.registerAll done cs = (r', .error e) →
        r'.registered = base ∧ SameFamilies r r' := by
  induction cs with
  | nil => exact fun _ _ h => nomatch h
  | cons c cs ih =>
    intro r r' done e hrest hdone h
    unfold registerAll at h
    cases hc : r.register c with
    | error e' =>
      rw [hc] at h
      cases h
      -- what was registered is unregistered again, which leaves what there was at first
      refine ⟨OrderedMap.ext_get? fun name => ?_, unregisterAll_same done r⟩
      rw [get?_unregisterAll]
      split
      · rename_i hname
        exact (hdone name hname).symm
      · rename_i hname
        exact hrest name hname
    | ok r₁ =>
      rw [hc] at h
      obtain ⟨hfree, hregistered⟩ := register_ok hc
      have hnames : (done ++ [c]).map (·.descriptor.name) =
          done.map (·.descriptor.name) ++ [c.descriptor.name] := by simp
      have hnext := @ih r₁ r' (done ++ [c]) e (fun name hname => ?_) (fun name hname => ?_) h
      · exact ⟨hnext.1, (register_same hc).trans hnext.2⟩
      · rw [hnames, List.mem_append, List.mem_singleton, not_or] at hname
        rw [hregistered, OrderedMap.get?_insert, if_neg (Ne.symm hname.2)]
        exact hrest name hname.1
      · rw [hnames, List.mem_append, List.mem_singleton] at hname
        rcases hname with hname | rfl
        · exact hdone name hname
        · by_cases hmem : c.descriptor.name ∈ done.map (·.descriptor.name)
          · exact hdone _ hmem
          · rw [← hrest _ hmem, hfree]

/-- Registering touches free names only. -/
theorem get?_registerAll (cs : List Collector) : ∀ {r r' : Registry} {done : List Collector},
    r.registerAll done cs = (r', .ok ()) → ∀ name,
      (name ∈ cs.map (·.descriptor.name) → r.registered.get? name = none) ∧
        (name ∉ cs.map (·.descriptor.name) →
          r'.registered.get? name = r.registered.get? name) := by
  induction cs with
  | nil =>
    intro r r' done h name
    cases h
    exact ⟨fun hname => absurd hname List.not_mem_nil, fun _ => rfl⟩
  | cons c cs ih =>
    intro r r' done h name
    unfold registerAll at h
    cases hc : r.register c with
    | error e =>
      rw [hc] at h
      cases h
    | ok r₁ =>
      rw [hc] at h
      obtain ⟨hfree, hregistered⟩ := register_ok hc
      obtain ⟨hnone, hsame⟩ := ih h name
      rw [hregistered, OrderedMap.get?_insert] at hnone hsame
      rw [List.map_cons, List.mem_cons]
      -- the first family takes no name but its own
      by_cases hname : c.descriptor.name = name
      · exact ⟨fun _ => hname ▸ hfree, fun hnot => absurd (Or.inl hname.symm) hnot⟩
      · rw [if_neg hname] at hnone hsame
        refine ⟨fun hmem => hnone (hmem.resolve_left (Ne.symm hname)), fun hnot => ?_⟩
        exact hsame fun hmem => hnot (Or.inr hmem)

/-- Unregistering what was registered gives back what was there before. -/
theorem unregisterAll_registerAll {cs done : List Collector} {r r₁ r₂ : Registry}
    (h : r.registerAll done cs = (r₁, .ok ())) (hsame : r₂.registered = r₁.registered) :
    (r₂.unregisterAll cs).registered = r.registered := by
  refine OrderedMap.ext_get? fun name => ?_
  obtain ⟨hnone, hrest⟩ := get?_registerAll cs h name
  rw [get?_unregisterAll, hsame]
  split
  · rename_i hname
    exact (hnone hname).symm
  · rename_i hname
    exact hrest hname

/-- Families that cannot be registered leave the registry with what it had. -/
theorem registerFamilies_error {r r' : Registry} {f : ConditionFamilies} {e : MetricError}
    (h : r.registerFamilies f = (r', .error e)) :
    r'.registered = r.registered ∧ SameFamilies r r' :=
  registerAll_error f.collectors (fun _ _ => rfl) (fun _ hname => absurd hname List.not_mem_nil) h

/-! ## The shared families -/

/-- Families that exist stay what they are. -/
def Keeps (r r' : Registry) : Prop := ∀ c a, r.at? c = some a → r'.at? c = some a

theorem SameFamilies.keeps {r r' : Registry} (h : SameFamilies r r') : Keeps r r' :=
  fun c _ ha => (h.at? c).trans ha

theorem Keeps.trans {r r' r'' : Registry} (h : Keeps r r') (h' : Keeps r' r'') : Keeps r r'' :=
  fun c a ha => h' c a (h c a ha)

@[simp] theorem at?_legacy (r : Registry) (slot : Option LegacySlot) (c : Collector) :
    Registry.at? { r with legacy := slot } c = r.at? c := by
  cases c <;> rfl

@[simp] theorem registered_legacy (r : Registry) (slot : Option LegacySlot) :
    Registry.registered { r with legacy := slot } = r.registered := rfl

theorem keeps_legacy (r : Registry) (slot : Option LegacySlot) :
    Keeps r { r with legacy := slot } :=
  fun c _ ha => (at?_legacy r slot c).trans ha

/-- Shared families that cannot be made or registered leave everything as it was. -/
theorem legacyFamilies_error {r r' : Registry} {e : MetricError}
    (h : r.legacyFamilies = (r', .error e)) :
    r'.registered = r.registered ∧ r'.legacy = r.legacy ∧ Keeps r r' := by
  have hsharing := sharing r
  rw [h] at hsharing
  cases hsharing with
  | unmade _ hslot hnew => exact ⟨rfl, rfl, fun _ _ ha => ha⟩
  | refused made _ f _ hslot hnew hregister =>
    have hmade := made_of_new hnew
    obtain ⟨hback, hsame⟩ := registerFamilies_error hregister
    exact ⟨hback.trans hmade.registered, hsame.legacy.trans hmade.legacy,
      Keeps.trans hmade.kept hsame.keeps⟩

/-- Unregistering the families of a surface takes them out. -/
theorem unregisterFamilies_perm {r : Registry} {f : ConditionFamilies} {rest : List Collector}
    (hr : r.Named) (h : r.registered.values.Perm (f.collectors ++ rest)) :
    (r.unregisterFamilies f).registered.values.Perm rest :=
  unregisterAll_perm f.collectors hr h

/-- A name that is free without the families of a handle is free when the handle is given back. -/
theorem get?_unregister_of_free {m : ConditionMetrics} {r : Registry} {name : String}
    (hfree : (r.unregisterFamilies m.families).registered.get? name = none) :
    (m.unregister r).registered.get? name = none := by
  unfold ConditionMetrics.unregister
  simp only
  split
  · unfold releaseLegacy dropLegacy
    split
    · split
      · -- the shared families are unregistered too
        rw [registered_legacy]
        unfold unregisterFamilies at hfree ⊢
        rw [get?_unregisterAll, hfree, ite_self]
      · rw [apply_ite Registry.registered, ite_self]
        exact hfree
    · exact hfree
  · exact hfree

end Registry

/-! ## Handles -/

namespace ConditionMetrics

open Registry (Keeps registerFamilies_error)

/-- A handle that cannot be made leaves registration, the shared families and all families that
exist as they were. -/
theorem create_error {r r' : Registry} {g : GroupKind} {legacy : Bool} {p : LabelProjection}
    {e : MetricError} (h : ConditionMetrics.create r g legacy p = (r', .error e)) :
    r'.registered = r.registered ∧ r'.legacy = r.legacy ∧ Keeps r r' := by
  have hcreation := creation r g legacy p
  rw [h] at hcreation
  cases hcreation with
  | unmade _ hnew => exact ⟨rfl, rfl, fun _ _ ha => ha⟩
  | refused made _ f _ hnew hregister =>
    -- a family of the kind could not be registered
    have hmade := made_of_new hnew
    obtain ⟨hback, hsame⟩ := registerFamilies_error hregister
    exact ⟨hback.trans hmade.registered, hsame.legacy.trans hmade.legacy,
      Keeps.trans hmade.kept hsame.keeps⟩
  | unshared made r₁ r₂ f _ hlegacy hnew hregister hshared =>
    -- they were, but the shared ones could not be, so they are taken out again
    have hmade := made_of_new hnew
    have hsame := Registry.registerAll_same _ hregister
    obtain ⟨hback, hslot, hkeeps⟩ := Registry.legacyFamilies_error hshared
    have hsame' := Registry.unregisterFamilies_same f r₂
    refine ⟨?_, ?_, ?_⟩
    · exact (Registry.unregisterAll_registerAll hregister hback).trans hmade.registered
    · exact ((hsame'.legacy.trans hslot).trans hsame.legacy).trans hmade.legacy
    · exact ((Keeps.trans hmade.kept hsame.keeps).trans hkeeps).trans hsame'.keeps

end ConditionMetrics

end Metrics

end StatusWatch
