import Mathlib.Data.List.Count
import StatusWatch.Proofs.Registration

/-!
# Handles that come and go

A registry is used by its owner and by any number of handles, which are made, written through
and given back in any order. Making one may fail half way, and the shared families are made by
the first handle that wants them and unregistered by the last one that had them. Through all of
this the registry holds what its owner put there, the families of the live handles, and the
shared families as long as a live handle has them.

- `OwnerStep`: what the owner does; `Call`: what is done through a handle.
- `Roster`: a registry with the handles that are live in it; `Roster.run`: what happens to it.
- `sharedOf`: the shared families of the live handles.
- `Enrolled`: the invariant; `Enrolled.create`, `Enrolled.unregister`, `Enrolled.performAll`.
- `roster_orderly`: what is registered at any time, and that failures leave no trace.
-/

namespace StatusWatch.Metrics

/-! ## Calls -/

/-- What can be done through a handle. -/
inductive Call where
  | setCondition (key : ResourceKey) (labels : Labels) (c : Condition) (now : Instant)
  | deleteCondition (key : ResourceKey) (c : Condition)
  | recordTransition (labels : Labels) (c : Condition)
  | observeTransition (labels : Labels) (old : Condition) (seconds : Float)
  | setTermination (key : ResourceKey) (labels : Labels) (seconds : Float)
  | observeTermination (labels : Labels) (seconds : Float)
  | forget (key : ResourceKey)

namespace Call

/-- Do it. -/
def perform (m : ConditionMetrics) (r : Registry) : Call → Registry
  | setCondition key labels c now => m.setCondition r key labels c now
  | deleteCondition key c => (m.deleteCondition r key c).1
  | recordTransition labels c => m.recordTransition r labels c
  | observeTransition labels old seconds => m.observeTransition r labels old seconds
  | setTermination key labels seconds => m.setTermination r key labels seconds
  | observeTermination labels seconds => m.observeTermination r labels seconds
  | forget key => (m.forget r key).1

/-- The operations that it is. -/
def ops (m : ConditionMetrics) : Call → RoleOps
  | setCondition key labels c now => m.conditionOps key labels c now
  | deleteCondition key c => m.staleOps key c
  | recordTransition labels c => m.transitionOps labels c
  | observeTransition labels old seconds => m.stayOps labels old seconds
  | setTermination key labels seconds => m.terminatingOps key labels seconds
  | observeTermination labels seconds => m.terminationOps labels seconds
  | forget key => m.forgetOps key

theorem perform_eq (m : ConditionMetrics) (r : Registry) (call : Call) :
    call.perform m r = m.performAll r (call.ops m) := by
  cases call with
  | setCondition key labels c now => exact m.setCondition_eq r key labels c now
  | deleteCondition key c => exact m.deleteCondition_eq r key c
  | recordTransition labels c => exact m.recordTransition_eq r labels c
  | observeTransition labels old seconds => exact m.observeTransition_eq r labels old seconds
  | setTermination key labels seconds => exact m.setTermination_eq r key labels seconds
  | observeTermination labels seconds => exact m.observeTermination_eq r labels seconds
  | forget key => exact m.forget_eq r key

end Call

/-! ## Rosters -/

/-- What the owner of a registry does with families of its own. -/
inductive OwnerStep where
  | newGauge (d : Descriptor)
  | newCounter (d : Descriptor)
  | newHistogram (d : Descriptor) (bounds : List Float)
  /-- Register a family that was made. -/
  | register (c : Collector)
  | unregister (c : Collector)

/-- A registration that is refused changes nothing. -/
def OwnerStep.perform (r : Registry) : OwnerStep → Registry
  | newGauge d => (r.newGauge d).1
  | newCounter d => (r.newCounter d).1
  | newHistogram d bounds => (r.newHistogram d bounds).1
  | register c => if (r.at? c).isSome then (r.register c).toOption.getD r else r
  | unregister c => (r.unregister c).toOption.getD r

/-- A registry with the handles that are live in it. -/
structure Roster where
  registry : Registry
  live : List ConditionMetrics

namespace Roster

/-- What happens to a roster. -/
inductive Use where
  | create (g : GroupKind) (legacy : Bool) (keys : List String)
  /-- Give a handle back. -/
  | unregister (i : Nat)
  | call (i : Nat) (call : Call)

def step (s : Roster) : Use → Roster
  | .create g legacy keys =>
    match ConditionMetrics.create s.registry g legacy (.of keys) with
    | (r, .ok m) => ⟨r, s.live ++ [m]⟩
    | (r, .error _) => ⟨r, s.live⟩
  | .unregister i =>
    match s.live[i]? with
    | none => s
    | some m => ⟨m.unregister s.registry, s.live.eraseIdx i⟩
  | .call i call =>
    match s.live[i]? with
    | none => s
    | some m => ⟨call.perform m s.registry, s.live⟩

def run (s : Roster) (steps : List Use) : Roster := steps.foldl step s

/-- The registry of an owner, before any handle is made. -/
def start (scope : String) (own : List OwnerStep) : Roster :=
  ⟨own.foldl OwnerStep.perform (Registry.new scope), []⟩

end Roster

/-! ## The shared families of live handles -/

/-- The shared families that live handles have. -/
def sharedOf (live : List ConditionMetrics) : Option ConditionFamilies := live.findSome? (·.legacy)

/-- What live handles have in the registry. -/
def collectorsOf (live : List ConditionMetrics) : List Collector :=
  live.flatMap (·.families.collectors) ++ ((sharedOf live).map (·.collectors)).getD []

theorem sharedOf_eq_none {live : List ConditionMetrics} :
    sharedOf live = none ↔ live.countP (·.legacyEnabled) = 0 := by
  unfold sharedOf ConditionMetrics.legacyEnabled
  rw [List.findSome?_eq_none_iff, List.countP_eq_zero]
  simp

theorem sharedOf_append (live live' : List ConditionMetrics) :
    sharedOf (live ++ live') = (sharedOf live).or (sharedOf live') := List.findSome?_append

theorem sharedOf_singleton (m : ConditionMetrics) : sharedOf [m] = m.legacy := by
  unfold sharedOf
  cases h : m.legacy <;> simp [h]

/-- If all handles share the same families, so do those that are left. -/
theorem sharedOf_eq_some {live : List ConditionMetrics} {f : ConditionFamilies}
    (hsame : ∀ m ∈ live, ∀ f', m.legacy = some f' → f' = f) {m : ConditionMetrics}
    (hm : m ∈ live) (hf : m.legacy = some f) : sharedOf live = some f := by
  unfold sharedOf
  cases hshared : live.findSome? (·.legacy) with
  | none =>
    rw [List.findSome?_eq_none_iff] at hshared
    rw [hshared m hm] at hf
    cases hf
  | some f' =>
    obtain ⟨m', hm', hf'⟩ := List.exists_of_findSome?_eq_some hshared
    rw [hsame m' hm' f' hf']

/-- How a registry stands with the handles that are live in it. -/
structure Enrolled (own : List Collector) (r : Registry) (live : List ConditionMetrics) : Prop where
  named : r.Named
  registered : r.registered.values.Perm (own ++ collectorsOf live)
  /-- All handles that share families share the same ones. -/
  same : ∀ m ∈ live, ∀ f, m.legacy = some f → sharedOf live = some f
  /-- The slot counts the handles that share. -/
  slot : r.legacy = (sharedOf live).map fun f => ⟨f, live.countP (·.legacyEnabled)⟩
  present : ∀ m ∈ live, ∀ f ∈ m.surfaces, ∀ role, (r.at? (f.collector role)).isSome

namespace Enrolled

variable {own : List Collector} {r r' : Registry} {live : List ConditionMetrics}

/-! ## Writing -/

theorem perform_frame (c : Collector) (r : Registry) (op : SeriesOp) :
    (op.perform c r).registered = r.registered ∧ (op.perform c r).legacy = r.legacy := by
  cases op with
  | write labels value => cases c <;> exact ⟨rfl, rfl⟩
  | delete labels =>
    simp only [SeriesOp.perform, Registry.deleteMatching_eq]
    cases c <;> exact ⟨rfl, rfl⟩

/-- Writing through a handle changes families, not their registration. -/
theorem performAll_frame (m : ConditionMetrics) (r : Registry) (ops : RoleOps) :
    (m.performAll r ops).registered = r.registered ∧ (m.performAll r ops).legacy = r.legacy ∧
      ∀ c, ((m.performAll r ops).at? c).isSome = (r.at? c).isSome := by
  have hops : ∀ (f : ConditionFamilies) (ops : RoleOps) (r : Registry),
      (f.performAll r ops).registered = r.registered ∧ (f.performAll r ops).legacy = r.legacy ∧
        ∀ c, ((f.performAll r ops).at? c).isSome = (r.at? c).isSome := by
    intro f ops
    induction ops with
    | nil => exact fun _ => ⟨rfl, rfl, fun _ => rfl⟩
    | cons op ops ih =>
      intro r
      obtain ⟨hregistered, hlegacy, hat⟩ := ih (op.2.perform (f.collector op.1) r)
      obtain ⟨hregistered', hlegacy'⟩ := perform_frame (f.collector op.1) r op.2
      refine ⟨hregistered.trans hregistered', hlegacy.trans hlegacy', fun c => (hat c).trans ?_⟩
      rw [at?_perform]
      split
      · exact Option.isSome_map
      · rfl
  unfold ConditionMetrics.performAll
  generalize m.surfaces = fs
  induction fs generalizing r with
  | nil => exact ⟨rfl, rfl, fun _ => rfl⟩
  | cons f fs ih =>
    obtain ⟨hregistered, hlegacy, hat⟩ := ih (f.performAll r ops)
    obtain ⟨hregistered', hlegacy', hat'⟩ := hops f ops r
    exact ⟨hregistered.trans hregistered', hlegacy.trans hlegacy',
      fun c => (hat c).trans (hat' c)⟩

/-- Handles stay enrolled while registration and the slot stay what they are. -/
theorem congr (h : Enrolled own r live) (hregistered : r'.registered = r.registered)
    (hlegacy : r'.legacy = r.legacy) (hpresent : ∀ c, (r.at? c).isSome → (r'.at? c).isSome) :
    Enrolled own r' live where
  named := h.named.congr hregistered
  registered := by
    rw [hregistered]
    exact h.registered
  same := h.same
  slot := hlegacy.trans h.slot
  present m hm f hf role := hpresent _ (h.present m hm f hf role)

theorem performAll (h : Enrolled own r live) (m : ConditionMetrics) (ops : RoleOps) :
    Enrolled own (m.performAll r ops) live := by
  obtain ⟨hregistered, hlegacy, hat⟩ := performAll_frame m r ops
  exact h.congr hregistered hlegacy fun c hc => (hat c).trans hc

/-! ## Making a handle -/

theorem mem_concat {m m' : ConditionMetrics} (h : m' ∈ live ++ [m]) : m' ∈ live ∨ m' = m :=
  (List.mem_append.mp h).imp_right List.mem_singleton.mp

theorem collectorsOf_concat (m : ConditionMetrics) :
    collectorsOf (live ++ [m]) = live.flatMap (·.families.collectors) ++
      (m.families.collectors ++ ((sharedOf (live ++ [m])).map (·.collectors)).getD []) := by
  unfold collectorsOf
  rw [List.flatMap_append, List.flatMap_singleton, List.append_assoc]

/-- The families of a kind are registered for a handle that does not share. -/
theorem register (h : Enrolled own r live) {made : Registry} {m : ConditionMetrics}
    {extra : List String} (hnone : m.legacy = none) (hmade : Made r made m.families [] extra)
    (hregister : made.registerFamilies m.families = (r', .ok ())) :
    Enrolled own r' (live ++ [m]) := by
  have hsame := Registry.registerAll_same _ hregister
  obtain ⟨hnamed', hperm⟩ := Registry.registerAll_ok _ (h.named.congr hmade.registered) hregister
  rw [hmade.registered] at hperm
  have hshared : sharedOf (live ++ [m]) = sharedOf live := by
    rw [sharedOf_append, sharedOf_singleton, hnone, Option.or_none]
  refine { named := hnamed', registered := ?_, same := ?_, slot := ?_, present := ?_ }
  · rw [collectorsOf_concat, hshared]
    exact (hperm.trans (h.registered.append_left _)).trans <|
      (List.perm_append_comm_assoc _ own _).trans
        ((List.perm_append_comm_assoc _ _ _).append_left own)
  · intro m' hm' f hf
    rw [hshared]
    rcases mem_concat hm' with hm' | rfl
    · exact h.same m' hm' f hf
    · rw [hnone] at hf
      cases hf
  · rw [hsame.legacy, hmade.legacy, h.slot, hshared, List.countP_append, List.countP_singleton]
    simp [ConditionMetrics.legacyEnabled, hnone]
  · intro m' hm' f hf role
    rw [hsame.at?]
    rcases mem_concat hm' with hm' | rfl
    · obtain ⟨a, ha⟩ := Option.isSome_iff_exists.mp (h.present m' hm' f hf role)
      rw [hmade.kept _ _ ha]
      rfl
    · obtain rfl : f = m'.families := by simpa [ConditionMetrics.surfaces, hnone] using hf
      rw [hmade.blank]
      rfl

/-- The last handle starts to share, in a registry that has its shared families. -/
theorem share {m m₀ : ConditionMetrics} (h : Enrolled own r (live ++ [m₀]))
    (hnone : m₀.legacy = none) (hfamilies : m₀.families = m.families) {f : ConditionFamilies}
    (hshares : m.legacy = some f) (hothers : ∀ f', sharedOf live = some f' → f' = f)
    (hnamed : r'.Named)
    (hregistered : r'.registered.values.Perm
      (own ++ (live.flatMap (·.families.collectors) ++ (m.families.collectors ++ f.collectors))))
    (hslot : r'.legacy = some ⟨f, live.countP (·.legacyEnabled) + 1⟩)
    (hkeeps : r.Keeps r') (hpresent : ∀ role, (r'.at? (f.collector role)).isSome) :
    Enrolled own r' (live ++ [m]) := by
  have hshared : sharedOf (live ++ [m]) = some f := by
    rw [sharedOf_append, sharedOf_singleton, hshares]
    cases hlive : sharedOf live with
    | none => rfl
    | some f' => rw [hothers f' hlive, Option.some_or]
  have hshared₀ : sharedOf (live ++ [m₀]) = sharedOf live := by
    rw [sharedOf_append, sharedOf_singleton, hnone, Option.or_none]
  -- families that were there are still there, under the same numbers
  have hkept : ∀ m' ∈ live ++ [m₀], ∀ f' ∈ m'.surfaces, ∀ role,
      (r'.at? (f'.collector role)).isSome := by
    intro m' hm' f' hf' role
    obtain ⟨a, ha⟩ := Option.isSome_iff_exists.mp (h.present m' hm' f' hf' role)
    rw [hkeeps _ _ ha]
    rfl
  refine { named := hnamed, registered := ?_, same := ?_, slot := ?_, present := ?_ }
  · rw [collectorsOf_concat, hshared]
    exact hregistered
  · intro m' hm' f' hf'
    rw [hshared]
    rcases mem_concat hm' with hm' | rfl
    · have hlive := h.same m' (List.mem_append_left _ hm') f' hf'
      rw [hothers f' (hshared₀ ▸ hlive)]
    · rw [← hf', hshares]
  · rw [hslot, hshared, List.countP_append, List.countP_singleton]
    simp [ConditionMetrics.legacyEnabled, hshares]
  · intro m' hm' f' hf' role
    rcases mem_concat hm' with hm' | rfl
    · exact hkept m' (List.mem_append_left _ hm') f' hf' role
    · rcases List.mem_cons.mp hf' with rfl | hf'
      · rw [← hfamilies]
        exact hkept m₀ (List.mem_append_right _ (List.mem_singleton_self m₀)) m₀.families
          List.mem_cons_self role
      · obtain rfl : f' = f := by simpa [hshares] using hf'
        exact hpresent role

/-- A handle that is made is enrolled. -/
theorem create (h : Enrolled own r live) {g : GroupKind} {legacy : Bool} {p : LabelProjection}
    {m : ConditionMetrics} (hc : ConditionMetrics.create r g legacy p = (r', .ok m)) :
    Enrolled own r' (live ++ [m]) := by
  obtain ⟨-, -, made, r₁, hmade, hregister, hshares⟩ := ConditionMetrics.create_cases hc
  have h₁ : Enrolled own r₁ (live ++ [{ m with legacy := none }]) :=
    h.register rfl hmade hregister
  have hslot₁ : r₁.legacy = r.legacy :=
    (Registry.registerAll_same _ hregister).legacy.trans hmade.legacy
  have hperm₁ := h₁.registered
  rw [collectorsOf_concat, sharedOf_append, sharedOf_singleton, Option.or_none] at hperm₁
  cases hshares with
  | without _ hnone heq =>
    subst heq
    obtain ⟨g', p', families, legacy'⟩ := m
    cases hnone
    exact h₁
  | joined slot _ hslot hjoined heq =>
    -- a live handle holds the slot, so its families are the ones that are shared already
    rw [hslot₁, h.slot] at hslot
    obtain ⟨f, hf, rfl⟩ := Option.map_eq_some_iff.mp hslot
    obtain ⟨holder, hholder, hheld⟩ := List.exists_of_findSome?_eq_some hf
    subst heq
    rw [hf] at hperm₁
    refine h₁.share rfl rfl hjoined (fun f' hf' => Option.some.inj (hf'.symm.trans hf)) h₁.named
      hperm₁ rfl (Registry.keeps_legacy _ _) fun role => ?_
    rw [Registry.at?_legacy]
    exact h₁.present holder (List.mem_append_left _ hholder) f
      (ConditionMetrics.mem_surfaces_of_legacy hheld) role
  | started f made' r₂ _ hslot hstarted hmade' hregister' heq =>
    -- no live handle shares yet
    have hsame₂ := Registry.registerAll_same _ hregister'
    obtain ⟨hnamed₂, hperm₂⟩ :=
      Registry.registerAll_ok _ (h₁.named.congr hmade'.registered) hregister'
    rw [hslot₁, h.slot, Option.map_eq_none_iff] at hslot
    rw [hslot, Option.map_none, Option.getD_none, List.append_nil] at hperm₁
    rw [hmade'.registered] at hperm₂
    subst heq
    refine h₁.share rfl rfl hstarted (fun f' hf' => ?_) hnamed₂ ?_ ?_ ?_ fun role => ?_
    · rw [hslot] at hf'
      cases hf'
    · refine (hperm₂.trans (hperm₁.append_left _)).trans (List.perm_append_comm.trans ?_)
      simp only [List.append_assoc]
      exact List.Perm.refl _
    · rw [sharedOf_eq_none.mp hslot]
    · exact (Registry.Keeps.trans hmade'.kept hsame₂.keeps).trans (Registry.keeps_legacy _ _)
    · rw [Registry.at?_legacy, hsame₂.at?, hmade'.blank]
      rfl

/-- A handle that cannot be made changes nothing that matters to the others. -/
theorem create_error (h : Enrolled own r live) {g : GroupKind} {legacy : Bool}
    {p : LabelProjection} {e : MetricError}
    (hc : ConditionMetrics.create r g legacy p = (r', .error e)) : Enrolled own r' live := by
  obtain ⟨hregistered, hlegacy, hkeeps⟩ := ConditionMetrics.create_error hc
  refine h.congr hregistered hlegacy fun c hsome => ?_
  obtain ⟨a, ha⟩ := Option.isSome_iff_exists.mp hsome
  exact Option.isSome_iff_exists.mpr ⟨a, hkeeps c a ha⟩

/-! ## Giving a handle back -/

/-- The last holder unregisters the shared families. -/
theorem releaseLegacy_last {f : ConditionFamilies} (h : r.legacy = some ⟨f, 1⟩) :
    r.releaseLegacy f = { r.unregisterFamilies f with legacy := none } := by
  simp [Registry.releaseLegacy, h]

/-- Any other one leaves them to the rest. -/
theorem releaseLegacy_more {f : ConditionFamilies} {n : Nat} (h : r.legacy = some ⟨f, n + 1⟩)
    (hn : n ≠ 0) : r.releaseLegacy f = { r with legacy := some ⟨f, n⟩ } := by
  simp [Registry.releaseLegacy, Registry.dropLegacy, h, hn]

theorem at?_releaseLegacy (r : Registry) (f : ConditionFamilies) (c : Collector) :
    (r.releaseLegacy f).at? c = r.at? c := by
  unfold Registry.releaseLegacy Registry.dropLegacy
  split
  · split
    · rw [Registry.at?_legacy]
      exact (Registry.unregisterFamilies_same f r).at? c
    · simp only [apply_ite (Registry.at? · c), Registry.at?_legacy, ite_self]
  · rfl

/-- Giving a handle back changes no family. -/
theorem at?_unregister (m : ConditionMetrics) (r : Registry) (c : Collector) :
    (m.unregister r).at? c = r.at? c := by
  have hsame := (Registry.unregisterFamilies_same m.families r).at? c
  unfold ConditionMetrics.unregister
  simp only
  split
  · rw [at?_releaseLegacy]
    exact hsame
  · exact hsame

section Leaving

variable {front back : List ConditionMetrics} {m : ConditionMetrics}

theorem mem_of_mem_rest {m' : ConditionMetrics} (h : m' ∈ front ++ back) :
    m' ∈ front ++ m :: back :=
  (List.Sublist.append_left (List.sublist_cons_self m back) front).subset h

theorem sharedOf_rest (hnone : m.legacy = none) :
    sharedOf (front ++ m :: back) = sharedOf (front ++ back) := by
  unfold sharedOf
  rw [List.findSome?_append, List.findSome?_cons, hnone, List.findSome?_append]

theorem countP_rest : (front ++ m :: back).countP (·.legacyEnabled) =
    (front ++ back).countP (·.legacyEnabled) + if m.legacyEnabled then 1 else 0 := by
  rw [List.countP_append, List.countP_cons, List.countP_append, Nat.add_assoc]

variable (h : Enrolled own r (front ++ m :: back))

include h

/-- All that are left and share, share the families that were shared before. -/
theorem same_rest {m' : ConditionMetrics} (hm' : m' ∈ front ++ back) {f : ConditionFamilies}
    (hf : m'.legacy = some f) : sharedOf (front ++ back) = some f := by
  refine sharedOf_eq_some (fun m'' hm'' f' hf' => ?_) hm' hf
  have hsame := h.same m'' (mem_of_mem_rest hm'') f' hf'
  rw [h.same m' (mem_of_mem_rest hm') f hf] at hsame
  exact (Option.some.inj hsame).symm

/-- What is registered without the families of the kind. -/
theorem perm_rest : (r.unregisterFamilies m.families).registered.values.Perm
    (own ++ ((front ++ back).flatMap (·.families.collectors) ++
      ((sharedOf (front ++ m :: back)).map (·.collectors)).getD [])) := by
  refine Registry.unregisterFamilies_perm h.named (h.registered.trans ?_)
  unfold collectorsOf
  simp only [List.flatMap_append, List.flatMap_cons, List.append_assoc]
  refine (List.Perm.append_left own ?_).trans (List.perm_append_comm_assoc _ _ _)
  exact List.perm_append_comm_assoc _ _ _

/-- The handles that are left, in a registry that holds their families only. -/
theorem leave (hat : ∀ c, r'.at? c = r.at? c) (hnamed : r'.Named)
    (hregistered : r'.registered.values.Perm (own ++ collectorsOf (front ++ back)))
    (hslot : r'.legacy = (sharedOf (front ++ back)).map fun f =>
      ⟨f, (front ++ back).countP (·.legacyEnabled)⟩) : Enrolled own r' (front ++ back) where
  named := hnamed
  registered := hregistered
  same _ hm' _ hf := h.same_rest hm' hf
  slot := hslot
  present m' hm' f hf role := by
    rw [hat]
    exact h.present m' (mem_of_mem_rest hm') f hf role

theorem unregister_unshared (hnone : m.legacy = none) :
    Enrolled own (m.unregister r) (front ++ back) := by
  have heq : m.unregister r = r.unregisterFamilies m.families := by
    unfold ConditionMetrics.unregister
    rw [hnone]
  refine h.leave (at?_unregister m r) ?_ ?_ ?_
  · rw [heq]
    exact h.named.unregisterFamilies m.families
  · rw [heq, collectorsOf, ← sharedOf_rest hnone]
    exact h.perm_rest
  · rw [heq, (Registry.unregisterFamilies_same m.families r).legacy, h.slot,
      sharedOf_rest hnone, countP_rest]
    simp [ConditionMetrics.legacyEnabled, hnone]

theorem unregister_shared {f : ConditionFamilies} (hf : m.legacy = some f) :
    Enrolled own (m.unregister r) (front ++ back) := by
  have hall : sharedOf (front ++ m :: back) = some f :=
    h.same m (List.mem_append_right _ List.mem_cons_self) f hf
  have hslot : (r.unregisterFamilies m.families).legacy =
      some ⟨f, (front ++ back).countP (·.legacyEnabled) + 1⟩ := by
    rw [(Registry.unregisterFamilies_same m.families r).legacy, h.slot, hall, countP_rest]
    simp [ConditionMetrics.legacyEnabled, hf]
  have hnamed := h.named.unregisterFamilies m.families
  have hperm := h.perm_rest
  rw [hall, Option.map_some, Option.getD_some] at hperm
  have heq : m.unregister r = (r.unregisterFamilies m.families).releaseLegacy f := by
    unfold ConditionMetrics.unregister
    rw [hf]
  by_cases hlast : (front ++ back).countP (·.legacyEnabled) = 0
  · -- no other handle shares, so the shared families are unregistered too
    rw [hlast] at hslot
    rw [releaseLegacy_last hslot] at heq
    have hnone := sharedOf_eq_none.mpr hlast
    refine h.leave (at?_unregister m r) ?_ ?_ ?_
    · rw [heq]
      exact (hnamed.unregisterFamilies f).with_legacy none
    · rw [heq, Registry.registered_legacy, collectorsOf, hnone, Option.map_none, Option.getD_none,
        List.append_nil]
      refine Registry.unregisterFamilies_perm hnamed (hperm.trans ?_)
      exact (List.perm_append_comm.append_left own).trans (List.perm_append_comm_assoc _ _ _)
    · rw [heq, hnone]
      rfl
  · rw [releaseLegacy_more hslot hlast] at heq
    have hrest : sharedOf (front ++ back) = some f := by
      obtain ⟨m', hm', hshares⟩ := List.countP_pos_iff.mp (Nat.pos_of_ne_zero hlast)
      obtain ⟨f', hf'⟩ := Option.isSome_iff_exists.mp hshares
      rw [h.same_rest hm' hf', ← h.same m' (mem_of_mem_rest hm') f' hf', hall]
    refine h.leave (at?_unregister m r) ?_ ?_ ?_
    · rw [heq]
      exact hnamed.with_legacy _
    · rw [heq, Registry.registered_legacy, collectorsOf, hrest]
      exact hperm
    · rw [heq, hrest]
      rfl

/-- A handle that is given back takes its families along, and the shared ones if no other handle
has them. -/
theorem unregister : Enrolled own (m.unregister r) (front ++ back) := by
  cases hlegacy : m.legacy with
  | none => exact h.unregister_unshared hlegacy
  | some f => exact h.unregister_shared hlegacy

end Leaving

theorem unregister_at (h : Enrolled own r live) {i : Nat} {m : ConditionMetrics}
    (hi : live[i]? = some m) : Enrolled own (m.unregister r) (live.eraseIdx i) := by
  obtain ⟨hlt, rfl⟩ := List.getElem?_eq_some_iff.mp hi
  rw [← List.take_append_drop i live, List.drop_eq_getElem_cons hlt] at h
  have hgone := h.unregister
  rwa [← List.eraseIdx_eq_take_drop_succ] at hgone

end Enrolled

/-! ## Runs -/

namespace Registry

/-- What the owner does leaves collectors under their names and no shared families. -/
theorem named_own (own : List OwnerStep) : ∀ {r : Registry}, r.Named → r.legacy = none →
    (own.foldl OwnerStep.perform r).Named ∧ (own.foldl OwnerStep.perform r).legacy = none := by
  induction own with
  | nil => exact fun hr hnone => ⟨hr, hnone⟩
  | cons step own ih =>
    intro r hr hnone
    have hone : (step.perform r).Named ∧ (step.perform r).legacy = none := by
      cases step with
      | newGauge d => exact ⟨hr, hnone⟩
      | newCounter d => exact ⟨hr, hnone⟩
      | newHistogram d bounds => exact ⟨hr, hnone⟩
      | unregister c =>
        exact ⟨hr.unregisterAll [c], (unregisterAll_same [c] r).legacy.trans hnone⟩
      | register c =>
        simp only [OwnerStep.perform]
        split
        · cases hc : r.register c with
          | error e => exact ⟨hr, hnone⟩
          | ok r' => exact ⟨hr.register hc, (register_same hc).legacy.trans hnone⟩
        · exact ⟨hr, hnone⟩
    exact ih hone.1 hone.2

end Registry

namespace Roster

theorem enrolled_start (scope : String) (own : List OwnerStep) :
    Enrolled (start scope own).registry.registered.values (start scope own).registry [] := by
  obtain ⟨hnamed, hnone⟩ := Registry.named_own own (Registry.named_new scope) rfl
  refine { named := hnamed, registered := ?_, same := ?_, slot := hnone, present := ?_ }
  · rw [show collectorsOf [] = [] from rfl, List.append_nil]
  · exact fun m hm => nomatch hm
  · exact fun m hm => nomatch hm

/-- Every step keeps the registry in order. -/
theorem enrolled_step {own : List Collector} {s : Roster} (h : Enrolled own s.registry s.live)
    (step : Use) : Enrolled own (s.step step).registry (s.step step).live := by
  cases step with
  | create g legacy keys =>
    unfold Roster.step
    simp only
    cases hc : ConditionMetrics.create s.registry g legacy (.of keys) with
    | mk r result =>
    cases result with
    | ok m => exact h.create hc
    | error e => exact h.create_error hc
  | unregister i =>
    unfold Roster.step
    simp only
    cases hi : s.live[i]? with
    | none => exact h
    | some m => exact h.unregister_at hi
  | call i call =>
    unfold Roster.step
    simp only
    cases hi : s.live[i]? with
    | none => exact h
    | some m =>
      simp only [call.perform_eq]
      exact h.performAll m _

theorem enrolled_run {own : List Collector} (steps : List Use) : ∀ {s : Roster},
    Enrolled own s.registry s.live → Enrolled own (s.run steps).registry (s.run steps).live := by
  induction steps with
  | nil => exact fun h => h
  | cons step steps ih => exact fun h => ih (enrolled_step h step)

/-- A registry holds what it should: what its owner registered, the families of the live handles,
and the shared families if a live handle has them. A handle that cannot be made leaves nothing
behind. -/
structure Orderly (own : List Collector) (s : Roster) : Prop where
  unshared : (∀ m ∈ s.live, m.legacyEnabled = false) →
    s.registry.registered.values.Perm (own ++ s.live.flatMap (·.families.collectors))
  shared : ∀ m ∈ s.live, ∀ f, m.legacy = some f → s.registry.registered.values.Perm
    (own ++ s.live.flatMap (·.families.collectors) ++ f.collectors)
  refused : ∀ g legacy keys r e,
    ConditionMetrics.create s.registry g legacy (.of keys) = (r, .error e) →
      r.registered = s.registry.registered ∧ r.legacy = s.registry.legacy ∧
        ∀ m ∈ s.live, ∀ f ∈ m.surfaces, ∀ role,
          (s.registry.at? (f.collector role)).isSome ∧
            r.at? (f.collector role) = s.registry.at? (f.collector role)

theorem orderly_of_enrolled {own : List Collector} {s : Roster}
    (h : Enrolled own s.registry s.live) : s.Orderly own where
  unshared hnone := by
    have hshared : sharedOf s.live = none := by
      rw [sharedOf_eq_none, List.countP_eq_zero]
      exact fun m hm => Bool.eq_false_iff.mp (hnone m hm)
    have hregistered := h.registered
    rw [collectorsOf, hshared, Option.map_none, Option.getD_none, List.append_nil] at hregistered
    exact hregistered
  shared m hm f hf := by
    have hregistered := h.registered
    rw [collectorsOf, h.same m hm f hf, Option.map_some, Option.getD_some,
      ← List.append_assoc] at hregistered
    exact hregistered
  refused g legacy keys r e hc := by
    obtain ⟨hregistered, hlegacy, hkeeps⟩ := ConditionMetrics.create_error hc
    refine ⟨hregistered, hlegacy, fun m hm f hf role => ?_⟩
    have hpresent := h.present m hm f hf role
    obtain ⟨a, ha⟩ := Option.isSome_iff_exists.mp hpresent
    exact ⟨hpresent, (hkeeps _ a ha).trans ha.symm⟩

/-- Whatever handles are made, used and given back in a registry, and however often making one
fails, the registry stays in order. -/
theorem roster_orderly (scope : String) (own : List OwnerStep) (steps : List Use) :
    ((start scope own).run steps).Orderly (start scope own).registry.registered.values :=
  orderly_of_enrolled (enrolled_run steps (enrolled_start scope own))

end Roster

end StatusWatch.Metrics
