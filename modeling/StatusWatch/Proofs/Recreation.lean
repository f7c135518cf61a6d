import StatusWatch.Proofs.Fleets
import StatusWatch.Proofs.Handles

/-!
# Observing a kind again

Observers come and go in a registry that its owner uses too. Once no observer of a kind is left,
the names of its families are free again, but the registry remembers the labels that they had the
first time, and refuses others. So an observer that projects other labels than the first one cannot
be created, however long ago the first one was shut down.

- `Happening`, `Fleet.after`: observers and the owner of a registry, in any order.
- `firstProjected`: the labels that were projected when the families with a prefix were first asked
  for.
- `Fleet.Named`: the families of observers have the names of their kinds.
- `Fleet.Reserved`: what the registry knows of the names with a prefix; `reserved_happen` and
  `reserved_after`.
- `ready_happen`, `ready_after`: the shared families can be had at any time.
- `recreated_iff`: when an observer can be created for a kind that is not observed.
-/

namespace StatusWatch

open Metrics (ConditionMetrics OwnerStep Registry Role isMetricName namePrefix_ne_empty)
open Metrics.ConditionMetrics (namePrefix)
open Metrics.Registry (SameAt)

/-! ## What leaves names alone -/

namespace Metrics

theorem dimensions_performCalls (m : ConditionMetrics) (r : Registry) (calls : List RoleOps) :
    (m.performCalls r calls).dimensions = r.dimensions := by
  have hop : ∀ (c : Collector) (r : Registry) (op : SeriesOp),
      (op.perform c r).dimensions = r.dimensions := by
    intro c r op
    cases op with
    | write labels value => cases c <;> rfl
    | delete labels =>
      simp only [SeriesOp.perform, Registry.deleteMatching_eq]
      cases c <;> rfl
  have hfamilies : ∀ (f : ConditionFamilies) (r : Registry) (ops : RoleOps),
      (f.performAll r ops).dimensions = r.dimensions := fun f r ops =>
    List.foldlRecOn (motive := fun r' => r'.dimensions = r.dimensions) ops _ rfl
      fun r' hr' op _ => (hop _ r' op.2).trans hr'
  have hall : ∀ (r : Registry) (ops : RoleOps), (m.performAll r ops).dimensions = r.dimensions :=
    fun r ops => List.foldlRecOn (motive := fun r' => r'.dimensions = r.dimensions) m.surfaces _ rfl
      fun r' hr' f _ => (hfamilies f r' ops).trans hr'
  exact List.foldlRecOn (motive := fun r' => r'.dimensions = r.dimensions) calls _ rfl
    fun r' hr' ops _ => (hall r' ops).trans hr'

theorem performCalls_frame (m : ConditionMetrics) (r : Registry) (calls : List RoleOps) :
    (m.performCalls r calls).registered = r.registered ∧
      (m.performCalls r calls).legacy = r.legacy := by
  refine List.foldlRecOn (motive := fun r' : Registry => r'.registered = r.registered ∧
    r'.legacy = r.legacy) calls _ ⟨rfl, rfl⟩ fun r' hr' ops _ => ?_
  obtain ⟨hregistered, hlegacy, -⟩ := Enrolled.performAll_frame m r' ops
  exact ⟨hregistered.trans hr'.1, hlegacy.trans hr'.2⟩

/-- The owner registers or unregisters something under a name, or tries to. -/
def OwnerStep.Uses (name : String) : OwnerStep → Prop
  | newGauge _ | newCounter _ | newHistogram _ _ => False
  | register c | unregister c => c.descriptor.name = name

namespace OwnerStep

theorem perform_sameAt {s : OwnerStep} {name : String} (h : ¬ s.Uses name) (r : Registry) :
    SameAt r (s.perform r) name := by
  cases s with
  | newGauge d => exact .of_eq rfl rfl
  | newCounter d => exact .of_eq rfl rfl
  | newHistogram d bounds => exact .of_eq rfl rfl
  | unregister c =>
    exact @Registry.unregisterAll_sameAt [c] r name fun hmem =>
      h (List.mem_singleton.mp hmem).symm
  | register c =>
    simp only [perform]
    split
    · cases hc : r.register c with
      | error e => exact .refl r name
      | ok r' => exact Registry.register_sameAt hc h
    · exact .refl r name

theorem perform_legacy (s : OwnerStep) (r : Registry) : (s.perform r).legacy = r.legacy := by
  cases s with
  | newGauge d => rfl
  | newCounter d => rfl
  | newHistogram d bounds => rfl
  | unregister c => exact (Registry.unregisterAll_same [c] r).legacy
  | register c =>
    simp only [perform]
    split
    · cases hc : r.register c with
      | error e => rfl
      | ok r' => exact (Registry.register_same hc).legacy
    · rfl

end OwnerStep

end Metrics

/-! ## What happens in a registry -/

namespace Fleet

/-- Observers share a registry with its owner. -/
inductive Happening where
  | own (s : OwnerStep)
  | event (e : Event)

def happen (w : Fleet) : Happening → Fleet
  | .own s => ⟨s.perform w.registry, w.observers⟩
  | .event e => w.step e

def after (w : Fleet) (history : List Happening) : Fleet := history.foldl happen w

/-- The labels that are projected where families with a prefix are asked for. -/
def Happening.projected (pre : String) : Happening → Option (List String)
  | .event (.create g settings) =>
    if namePrefix g = pre then
      some (LabelProjection.of settings.metrics.labelProjection).labelNames
    else none
  | _ => none

/-- The labels that were projected when families with a prefix were first asked for. -/
def firstProjected (pre : String) (history : List Happening) : Option (List String) :=
  history.findSome? (·.projected pre)

theorem firstProjected_cons (pre : String) (e : Happening) (history : List Happening) :
    firstProjected pre (e :: history) = (e.projected pre).or (firstProjected pre history) := by
  unfold firstProjected
  rw [List.findSome?_cons]
  cases e.projected pre <;> rfl

/-- The owner never uses a name. -/
def Unused (name : String) (history : List Happening) : Prop :=
  ∀ s, .own s ∈ history → ¬ s.Uses name

/-- An observer is live whose families have a prefix. -/
def Watches (w : Fleet) (pre : String) : Prop := ∃ o ∈ w.observers, namePrefix o.groupKind = pre

theorem watches_append (r : Registry) (os : List Observer) (o : Observer) (pre : String) :
    (⟨r, os ++ [o]⟩ : Fleet).Watches pre ↔
      (⟨r, os⟩ : Fleet).Watches pre ∨ namePrefix o.groupKind = pre := by
  unfold Watches
  simp only [List.mem_append, List.mem_singleton, or_and_right, exists_or, exists_eq_left]

/-- The families of observers have the names of their kinds. -/
def Named (w : Fleet) : Prop :=
  ∀ o ∈ w.observers, ∃ extra, o.metrics.families.Described (namePrefix o.groupKind) [] extra

/-! ## Steps -/

/-- Everything that creating an observer does. -/
theorem step_create (w : Fleet) (g : GroupKind) (settings : ObserverSettings) :
    ∃ r, r = (ConditionMetrics.create w.registry g settings.metrics.legacyMetrics
        (.of settings.metrics.labelProjection)).1 ∧
      ((∃ o, w.step (.create g settings) = ⟨r, w.observers ++ [o]⟩ ∧ o.groupKind = g ∧
          o.metrics.families.Described (namePrefix g) []
            (LabelProjection.of settings.metrics.labelProjection).labelNames) ∨
        w.step (.create g settings) = ⟨r, w.observers⟩ ∧ r.registered = w.registry.registered) := by
  unfold step
  simp only
  cases hc : Observer.create w.registry g settings with
  | mk r result =>
  cases result with
  | ok o =>
    obtain ⟨hm, hgroup, -⟩ := create_ok hc
    rw [hm]
    exact ⟨r, rfl, Or.inl ⟨o, rfl, hgroup, ConditionMetrics.create_described hm⟩⟩
  | error e =>
    have hm := create_error hc
    rw [hm]
    exact ⟨r, rfl, Or.inr ⟨rfl, (ConditionMetrics.create_error hm).1⟩⟩

/-- Fleets whose observers have the same kinds and handles, one by one. -/
def SameHandles (w w' : Fleet) : Prop :=
  w'.observers.map (fun o => (o.groupKind, o.metrics)) =
    w.observers.map fun o => (o.groupKind, o.metrics)

theorem SameHandles.symm {w w' : Fleet} (h : SameHandles w w') : SameHandles w' w := Eq.symm h

theorem SameHandles.exists_mem {w w' : Fleet} (h : SameHandles w w') {o : Observer}
    (ho : o ∈ w'.observers) :
    ∃ o' ∈ w.observers, o'.groupKind = o.groupKind ∧ o'.metrics = o.metrics := by
  have hmem : (o.groupKind, o.metrics) ∈ w'.observers.map fun o => (o.groupKind, o.metrics) :=
    List.mem_map_of_mem ho
  rw [h] at hmem
  obtain ⟨o', ho', heq⟩ := List.mem_map.mp hmem
  exact ⟨o', ho', Prod.mk.inj heq⟩

theorem SameHandles.watches_iff {w w' : Fleet} (h : SameHandles w w') (pre : String) :
    w'.Watches pre ↔ w.Watches pre := by
  constructor
  · rintro ⟨o, ho, hpre⟩
    obtain ⟨o', ho', hgroup, -⟩ := h.exists_mem ho
    exact ⟨o', ho', hgroup ▸ hpre⟩
  · rintro ⟨o, ho, hpre⟩
    obtain ⟨o', ho', hgroup, -⟩ := h.symm.exists_mem ho
    exact ⟨o', ho', hgroup ▸ hpre⟩

/-- A reconcile leaves names and handles alone. -/
theorem step_reconcile (w : Fleet) (i : Nat) (s : Watch.Step) :
    (w.step (.reconcile i s)).registry.registered = w.registry.registered ∧
      (w.step (.reconcile i s)).registry.dimensions = w.registry.dimensions ∧
      (w.step (.reconcile i s)).registry.legacy = w.registry.legacy ∧
      SameHandles w (w.step (.reconcile i s)) := by
  unfold step
  simp only
  cases hi : w.observers[i]? with
  | none => exact ⟨rfl, rfl, rfl, rfl⟩
  | some o =>
    obtain ⟨hlt, rfl⟩ := List.getElem?_eq_some_iff.mp hi
    simp only [Watch.reconcile_eq]
    obtain ⟨hregistered, hlegacy⟩ := Metrics.performCalls_frame w.observers[i].metrics w.registry
      (s.calls w.observers[i])
    refine ⟨hregistered, Metrics.dimensions_performCalls _ _ _, hlegacy, ?_⟩
    unfold SameHandles
    rw [List.map_set, ← List.getElem_map (fun o : Observer => (o.groupKind, o.metrics))]
    exact List.set_getElem_self ((List.length_map _).symm ▸ hlt)

/-- Whoever is live before a shutdown is live after it, except for the one that shuts down. -/
theorem mem_eraseIdx {l : List Observer} {i : Nat} {o o' : Observer} (hi : l[i]? = some o)
    (ho' : o' ∈ l) : o' = o ∨ o' ∈ l.eraseIdx i := by
  obtain ⟨j, hj⟩ := List.mem_iff_getElem?.mp ho'
  by_cases hij : j = i
  · subst hij
    exact Or.inl (Option.some.inj (hj.symm.trans hi))
  · exact Or.inr (List.mem_eraseIdx_iff_getElem?.mpr ⟨j, hij, hj⟩)

theorem Named.happen {w : Fleet} (h : w.Named) (e : Happening) : (w.happen e).Named := by
  cases e with
  | own s => exact h
  | event e =>
  cases e with
  | create g settings =>
    unfold Fleet.happen
    simp only
    -- only a creation adds an observer, and its families are named by its kind
    obtain ⟨r, -, ⟨o, hstep, hgroup, hdescribed⟩ | ⟨hstep, -⟩⟩ := step_create w g settings
    · rw [hstep]
      intro o' ho'
      rcases List.mem_append.mp ho' with ho' | ho'
      · exact h o' ho'
      · obtain rfl := List.mem_singleton.mp ho'
        exact ⟨_, hgroup ▸ hdescribed⟩
    · rw [hstep]
      exact h
  | reconcile i s =>
    intro o ho
    obtain ⟨o', ho', hgroup, hmetrics⟩ := (step_reconcile w i s).2.2.2.exists_mem ho
    rw [← hgroup, ← hmetrics]
    exact h o' ho'
  | shutdown i =>
    unfold Fleet.happen step
    simp only
    cases hi : w.observers[i]? with
    | none => exact h
    | some o => exact fun o' ho' => h o' ((List.eraseIdx_sublist _ _).subset ho')

/-! ## The names with a prefix -/

/-- What a registry knows of the names with a prefix, by the labels that were projected when they
were first asked for: the names are free while nobody has them, and the labels are those of that
time. -/
structure Reserved (w : Fleet) (pre : String) (first : Option (List String)) : Prop where
  free : ¬ w.Watches pre → ∀ role : Role, w.registry.registered.get? (role.familyName pre) = none
  known : ∀ role : Role, w.registry.dimensions.get? (role.familyName pre) =
    first.map fun names => (role.descriptor pre [] names).dimensions
  unasked : first = none → ¬ w.Watches pre

namespace Reserved

variable {w w' : Fleet} {pre : String} {first : Option (List String)}

/-- What leaves the names and the observers with a prefix alone does not matter. -/
theorem congr (h : w.Reserved pre first) (hwatches : w'.Watches pre ↔ w.Watches pre)
    (hsame : ∀ role : Role, SameAt w.registry w'.registry (role.familyName pre)) :
    w'.Reserved pre first where
  free hgone role := (hsame role).registered.trans (h.free (fun hw => hgone (hwatches.mpr hw)) role)
  known role := (hsame role).dimensions.trans (h.known role)
  unasked hnone hw := h.unasked hnone (hwatches.mp hw)

/-- While no observer has the names, they can be had with the labels of the first time, and with any
labels if there was no first time. -/
theorem accepts_iff (h : w.Reserved pre first) (hgone : ¬ w.Watches pre) (names : List String) :
    w.registry.Accepts pre [] names ↔ ∀ names', first = some names' → names'.Perm names := by
  -- dimensions do not depend on the order of the names
  have hperm : ∀ names' (role : Role), (role.descriptor pre [] names').dimensions =
      (role.descriptor pre [] names).dimensions ↔ names'.Perm names := by
    intro names' role
    rw [Metrics.dimensions_eq_iff]
    exact (and_iff_right rfl).trans (List.perm_append_left_iff _)
  constructor
  · rintro haccepts names' rfl
    exact (hperm names' .count).mp ((haccepts .count).agrees _ (h.known .count))
  · intro hfirst role
    refine ⟨h.free hgone role, fun known hknown => ?_⟩
    rw [show (role.descriptor pre [] names).name = role.familyName pre from rfl, h.known role]
      at hknown
    obtain ⟨names', hnames', rfl⟩ := Option.map_eq_some_iff.mp hknown
    exact (hperm names' role).mpr (hfirst names' hnames')

theorem create_same (h : w.Reserved pre first) {g : GroupKind} (hg : namePrefix g = pre)
    (hname : isMetricName pre = true) (settings : ObserverSettings) :
    (w.step (.create g settings)).Reserved pre
      (first.or (some (LabelProjection.of settings.metrics.labelProjection).labelNames)) := by
  subst hg
  obtain ⟨r, hr, hstep⟩ := step_create w g settings
  have hknown : ∀ role : Role, r.dimensions.get? (role.familyName (namePrefix g)) =
      (first.or (some (LabelProjection.of settings.metrics.labelProjection).labelNames)).map
        fun names => (role.descriptor (namePrefix g) [] names).dimensions := by
    intro role
    rw [hr]
    cases first with
    | some names => exact ConditionMetrics.create_remembers _ _ (h.known role)
    | none =>
      -- nobody asked for them before, so they are registered now
      have haccepts := (h.accepts_iff (h.unasked rfl)
        (LabelProjection.of settings.metrics.labelProjection).labelNames).mpr nofun
      exact ConditionMetrics.create_known hname rfl haccepts role
  -- from now on the names have been asked for
  have hasked : first.or
      (some (LabelProjection.of settings.metrics.labelProjection).labelNames) ≠ none := by
    cases first <;> exact nofun
  obtain ⟨o, hstep, hgroup, -⟩ | ⟨hstep, hback⟩ := hstep
  · rw [hstep]
    have hwatches := (watches_append r w.observers o (namePrefix g)).mpr (Or.inr (hgroup ▸ rfl))
    exact ⟨fun hgone => absurd hwatches hgone, hknown, fun hnone => absurd hnone hasked⟩
  · rw [hstep]
    refine ⟨fun hgone role => ?_, hknown, fun hnone => absurd hnone hasked⟩
    rw [hback]
    exact h.free hgone role

theorem create_other (h : w.Reserved pre first) (hne : pre ≠ "") {g : GroupKind}
    (hg : namePrefix g ≠ pre) (settings : ObserverSettings) :
    (w.step (.create g settings)).Reserved pre first := by
  obtain ⟨r, hr, hstep⟩ := step_create w g settings
  -- neither the families of another kind nor the shared ones have these names
  have hsame : ∀ role : Role, SameAt w.registry r (role.familyName pre) := fun role => by
    rw [hr]
    exact ConditionMetrics.create_sameAt (fun role' heq => hg (Role.familyName_inj heq).1)
      fun role' heq => hne (Role.familyName_inj heq).1.symm
  obtain ⟨o, hstep, hgroup, -⟩ | ⟨hstep, -⟩ := hstep
  · rw [hstep]
    refine h.congr ((watches_append r w.observers o pre).trans (or_iff_left ?_)) hsame
    rw [hgroup]
    exact hg
  · rw [hstep]
    exact h.congr Iff.rfl hsame

theorem shutdown (h : w.Reserved pre first) (hnamed : w.Named) (i : Nat) :
    (w.step (.shutdown i)).Reserved pre first := by
  unfold step
  simp only
  cases hi : w.observers[i]? with
  | none => exact h
  | some o =>
    refine { free := fun hgone role => ?_, known := fun role => ?_, unasked := fun hnone => ?_ }
    · refine Registry.get?_unregister_of_free ?_
      obtain ⟨extra, hdescribed⟩ := hnamed o (List.mem_of_getElem? hi)
      -- its own names become free, and any others stay as free as they were
      by_cases hpre : namePrefix o.groupKind = pre
      · subst hpre
        exact Registry.get?_unregisterFamilies hdescribed w.registry role
      · rw [(Registry.unregisterFamilies_sameAt hdescribed w.registry fun role' heq =>
          hpre (Role.familyName_inj heq).1).registered]
        refine h.free (fun ⟨o', ho', hpre'⟩ => ?_) role
        rcases mem_eraseIdx hi ho' with rfl | ho'
        · exact hpre hpre'
        · exact hgone ⟨o', ho', hpre'⟩
    · rw [← h.known role]
      exact congrArg (OrderedMap.get? · _) (ConditionMetrics.unregister_dimensions _ _)
    · exact fun ⟨o', ho', hpre'⟩ =>
        h.unasked hnone ⟨o', (List.eraseIdx_sublist _ _).subset ho', hpre'⟩

/-- Whatever happens, the labels are those of the first time that the names were asked for. -/
theorem happen (h : w.Reserved pre first) (hnamed : w.Named) (hname : isMetricName pre = true)
    (hne : pre ≠ "") {e : Happening}
    (hown : ∀ s, e = .own s → ∀ role : Role, ¬ s.Uses (role.familyName pre)) :
    (w.happen e).Reserved pre (first.or (e.projected pre)) := by
  cases e with
  | own s =>
    rw [show Happening.projected pre (.own s) = none from rfl, Option.or_none]
    exact h.congr Iff.rfl fun role => OwnerStep.perform_sameAt (hown s rfl role) w.registry
  | event e =>
  cases e with
  | create g settings =>
    unfold Happening.projected
    simp only
    split
    · rename_i hg
      exact h.create_same hg hname settings
    · rename_i hg
      rw [Option.or_none]
      exact h.create_other hne hg settings
  | reconcile i s =>
    rw [show Happening.projected pre (.event (.reconcile i s)) = none from rfl, Option.or_none]
    obtain ⟨hregistered, hdimensions, -, hhandles⟩ := step_reconcile w i s
    exact h.congr (hhandles.watches_iff pre) fun role => .of_eq hregistered hdimensions
  | shutdown i =>
    rw [show Happening.projected pre (.event (.shutdown i)) = none from rfl, Option.or_none]
    exact h.shutdown hnamed i

end Reserved

/-! ## The shared families -/

/-- Handles that are given back leave the names of the shared families in order. -/
theorem ready_unregister {r : Registry} (h : r.Ready) {m : ConditionMetrics} {g : GroupKind}
    {extra : List String} (hdescribed : m.families.Described (namePrefix g) [] extra) :
    (m.unregister r).Ready := by
  have hown : (r.unregisterFamilies m.families).Ready :=
    h.congr (Registry.unregisterFamilies_same m.families r).legacy fun role =>
      Registry.unregisterFamilies_sameAt hdescribed r fun role' =>
        ConditionMetrics.familyName_ne_shared g role' role
  unfold ConditionMetrics.unregister
  simp only
  split
  · exact hown.releaseLegacy _
  · exact hown

theorem ready_happen {w : Fleet} (h : w.registry.Ready) (hnamed : w.Named) {e : Happening}
    (hown : ∀ s, e = .own s → ∀ role : Role, ¬ s.Uses (role.familyName "")) :
    (w.happen e).registry.Ready := by
  cases e with
  | own s =>
    exact h.congr (OwnerStep.perform_legacy s w.registry) fun role =>
      OwnerStep.perform_sameAt (hown s rfl role) w.registry
  | event e =>
  cases e with
  | create g settings =>
    unfold happen
    simp only
    obtain ⟨r, hr, hstep⟩ := step_create w g settings
    -- the registry is ready whether or not the creation fails later on
    have hready : r.Ready := by
      rw [hr]
      exact ConditionMetrics.create_ready h
    obtain ⟨o, hstep, -⟩ | ⟨hstep, -⟩ := hstep
    · rw [hstep]
      exact hready
    · rw [hstep]
      exact hready
  | reconcile i s =>
    obtain ⟨hregistered, hdimensions, hlegacy, -⟩ := step_reconcile w i s
    exact h.congr hlegacy fun role => .of_eq hregistered hdimensions
  | shutdown i =>
    unfold happen step
    simp only
    cases hi : w.observers[i]? with
    | none => exact h
    | some o =>
      obtain ⟨extra, hdescribed⟩ := hnamed o (List.mem_of_getElem? hi)
      exact ready_unregister h hdescribed

/-! ## Runs -/

section Runs

variable {history : List Happening}

theorem Unused.head {name : String} {e : Happening} (h : Unused name (e :: history))
    {s : OwnerStep} (he : e = .own s) : ¬ s.Uses name := h s (he ▸ List.mem_cons_self)

theorem Unused.tail {name : String} {e : Happening} (h : Unused name (e :: history)) :
    Unused name history := fun s hs => h s (List.mem_cons_of_mem _ hs)

theorem reserved_after {pre : String} (hname : isMetricName pre = true) (hne : pre ≠ "") :
    ∀ {w : Fleet} {first : Option (List String)}, w.Named → w.Reserved pre first →
      (∀ role : Role, Unused (role.familyName pre) history) →
        (w.after history).Reserved pre (first.or (firstProjected pre history)) := by
  induction history with
  | nil =>
    intro w first _ h _
    rw [show firstProjected pre [] = none from rfl, Option.or_none]
    exact h
  | cons e history ih =>
    intro w first hnamed h hown
    rw [firstProjected_cons, ← Option.or_assoc]
    exact ih (hnamed.happen e)
      (h.happen hnamed hname hne fun s he role => (hown role).head he)
      fun role => (hown role).tail

theorem ready_after : ∀ {w : Fleet}, w.Named → w.registry.Ready →
    (∀ role : Role, Unused (role.familyName "") history) →
      (w.after history).registry.Ready := by
  induction history with
  | nil => exact fun _ h _ => h
  | cons e history ih =>
    intro w hnamed h hown
    exact ih (hnamed.happen e) (ready_happen h hnamed fun s he role => (hown role).head he)
      fun role => (hown role).tail

theorem named_start (scope : String) : (start scope).Named := fun _ ho => (nomatch ho)

theorem reserved_start (scope pre : String) : (start scope).Reserved pre none where
  free _ _ := rfl
  known _ := rfl
  unasked _ := fun ⟨_, ho, _⟩ => (nomatch ho)

theorem ready_start (scope : String) : (start scope).registry.Ready where
  free _ _ := rfl
  known _ _ hknown := nomatch hknown
  slot _ hslot := nomatch hslot

end Runs

/-- An observer can be created if its handle can be made. -/
theorem create_isOk_iff (r : Registry) (g : GroupKind) (settings : ObserverSettings) :
    (∃ o, (Observer.create r g settings).2 = .ok o) ↔
      ∃ m, (ConditionMetrics.create r g settings.metrics.legacyMetrics
        (.of settings.metrics.labelProjection)).2 = .ok m := by
  unfold Observer.create
  cases hm : ConditionMetrics.create r g settings.metrics.legacyMetrics
      (.of settings.metrics.labelProjection) with
  | mk r' result =>
  cases result with
  | error e =>
    simp only [hm]
    exact ⟨fun ⟨_, hok⟩ => (nomatch hok), fun ⟨_, hok⟩ => (nomatch hok)⟩
  | ok m =>
    simp only [hm]
    exact ⟨fun _ => ⟨m, rfl⟩, fun _ => ⟨_, rfl⟩⟩

/-- Whatever happened in a registry, an observer can be created for a kind that is not observed
exactly if it projects the labels that were projected when the families of the kind were first asked
for. The kind has to give valid names, which the owner of the registry has to leave alone. -/
theorem recreated_iff (scope : String) (history : List Happening) (g : GroupKind)
    (settings : ObserverSettings) (hname : isMetricName (namePrefix g) = true)
    (hown : ∀ role : Role, Unused (role.familyName (namePrefix g)) history)
    (hshared : settings.metrics.legacyMetrics = true →
      ∀ role : Role, Unused (role.familyName "") history)
    (hgone : ¬ ((start scope).after history).Watches (namePrefix g)) :
    (∃ o, (Observer.create ((start scope).after history).registry g settings).2 = .ok o) ↔
      ∀ names, firstProjected (namePrefix g) history = some names →
        names.Perm (LabelProjection.of settings.metrics.labelProjection).labelNames := by
  have hreserved := reserved_after hname (namePrefix_ne_empty g) (named_start scope)
    (reserved_start scope _) hown
  rw [Option.none_or] at hreserved
  have hready := fun hlegacy =>
    ready_after (named_start scope) (ready_start scope) (hshared hlegacy)
  rw [create_isOk_iff, ConditionMetrics.create_iff hname rfl, hreserved.accepts_iff hgone]
  exact and_iff_left fun hlegacy => (hready hlegacy).accepts

/-- Settings with some projected labels. -/
def projectingLabels (legacy : Bool) (keys : List String) : ObserverSettings :=
  { (default : ObserverSettings) with metrics := ⟨"operator", legacy, keys⟩ }

/-- An observer is created and shut down. -/
def shortLived (settings : ObserverSettings) : List Happening :=
  [.event (.create ⟨"g", "K"⟩ settings), .event (.shutdown 0)]

theorem unused_shortLived (settings : ObserverSettings) (name : String) :
    Unused name (shortLived settings) := by
  intro s hs
  simp [shortLived] at hs

theorem not_watches_of_isEmpty {w : Fleet} (h : w.observers.isEmpty = true) (pre : String) :
    ¬ w.Watches pre := by
  rintro ⟨o, ho, -⟩
  rw [List.isEmpty_iff.mp h] at ho
  cases ho

/-- The same labels in another order can be projected after a shutdown. -/
theorem recreated_reordered :
    isMetricName (namePrefix ⟨"g", "K"⟩) = true ∧
      (∀ role : Role, Unused (role.familyName (namePrefix ⟨"g", "K"⟩))
        (shortLived (projectingLabels true ["team", "zone"]))) ∧
      ((projectingLabels true ["zone", "team"]).metrics.legacyMetrics = true →
        ∀ role : Role, Unused (role.familyName "")
          (shortLived (projectingLabels true ["team", "zone"]))) ∧
      ¬ ((start "operator").after (shortLived (projectingLabels true ["team", "zone"]))).Watches
        (namePrefix ⟨"g", "K"⟩) ∧
      ∃ o, (Observer.create ((start "operator").after
        (shortLived (projectingLabels true ["team", "zone"]))).registry ⟨"g", "K"⟩
          (projectingLabels true ["zone", "team"])).2 = .ok o := by
  have hname : isMetricName (namePrefix ⟨"g", "K"⟩) = true := by decide +kernel
  have hunused := unused_shortLived (projectingLabels true ["team", "zone"])
  have hgone := not_watches_of_isEmpty (w := (start "operator").after
    (shortLived (projectingLabels true ["team", "zone"]))) (by decide +kernel)
    (namePrefix ⟨"g", "K"⟩)
  refine ⟨hname, fun _ => hunused _, fun _ _ => hunused _, hgone, ?_⟩
  refine (recreated_iff "operator" _ ⟨"g", "K"⟩ (projectingLabels true ["zone", "team"]) hname
    (fun _ => hunused _) (fun _ _ => hunused _) hgone).mpr fun names hnames => ?_
  have hfirst : firstProjected (namePrefix ⟨"g", "K"⟩)
      (shortLived (projectingLabels true ["team", "zone"])) =
        some ["label_team", "label_zone"] := by decide +kernel
  obtain rfl := Option.some.inj (hfirst.symm.trans hnames)
  decide +kernel

/-- Once a kind was observed without projected labels, none can be projected. -/
theorem not_recreated_projecting :
    isMetricName (namePrefix ⟨"g", "K"⟩) = true ∧
      (∀ name, Unused name (shortLived (projectingLabels false []))) ∧
      ¬ ((start "operator").after (shortLived (projectingLabels false []))).Watches
        (namePrefix ⟨"g", "K"⟩) ∧
      ¬ ∃ o, (Observer.create
        ((start "operator").after (shortLived (projectingLabels false []))).registry ⟨"g", "K"⟩
          (projectingLabels false ["team"])).2 = .ok o := by
  have hname : isMetricName (namePrefix ⟨"g", "K"⟩) = true := by decide +kernel
  have hunused := unused_shortLived (projectingLabels false [])
  have hgone := not_watches_of_isEmpty (w := (start "operator").after
    (shortLived (projectingLabels false []))) (by decide +kernel) (namePrefix ⟨"g", "K"⟩)
  refine ⟨hname, hunused, hgone, ?_⟩
  rw [create_isOk_iff, ConditionMetrics.create_iff hname rfl]
  rintro ⟨haccepts, -⟩
  have hreserved := reserved_after hname (namePrefix_ne_empty _) (named_start "operator")
    (reserved_start "operator" _) fun _ => hunused _
  have hfirst : firstProjected (namePrefix ⟨"g", "K"⟩) (shortLived (projectingLabels false [])) =
      some [] := by decide +kernel
  have hperm := (hreserved.accepts_iff hgone _).mp haccepts [] (by rw [Option.none_or, hfirst])
  exact absurd hperm (by decide +kernel)

end Fleet

end StatusWatch
