import StatusWatch.Proofs.Roster

/-!
# Handles in one registry

Any number of handles write to one registry. Each of them has the families of its kind for
itself, and some have families in common that belong to no kind. Whatever handles come and go,
a family holds what was done through the handles that write to it, in order, and nothing else.

- `Log`, `Log.seen`: what was done through which handle, and what of it a family sees.
- `Housed`: the handles that were ever made, with what their families hold.
- `Housed.performAll`: one more call; `Unseen`: families that are new; `Housed.add`,
  `Housed.create`: one more handle.
- `Roster.made`, `Roster.log`: the handles and the calls of a run; `housed_run`.
-/

namespace StatusWatch.Metrics

/-! ## Slots -/

/-- A family that is there has another slot than the ones that are made next. -/
theorem slot_ne_slotIn {r : Registry} {c : Collector} (h : (r.at? c).isSome) (role : Role) :
    c.slot ≠ role.slotIn r := by
  cases c with
  | gauge ref =>
    have hlt : ref.index < r.gauges.length := by simpa [Registry.at?] using h
    cases role <;> simp [Collector.slot, Role.slotIn] <;> omega
  | counter ref =>
    have hlt : ref.index < r.counters.length := by simpa [Registry.at?] using h
    cases role <;> simp [Collector.slot, Role.slotIn]
    omega
  | histogram ref =>
    have hlt : ref.index < r.histograms.length := by simpa [Registry.at?] using h
    cases role <;> simp [Collector.slot, Role.slotIn] <;> omega

/-- Families that are made are new: they share no slot with a family that was there. -/
theorem Made.slot_ne {r made : Registry} {f : ConditionFamilies} {scope extra : List String}
    (h : Made r made f scope extra) {c : Collector} (hc : (r.at? c).isSome) (role : Role) :
    (f.collector role).slot ≠ c.slot := by
  rw [h.slots]
  exact (slot_ne_slotIn hc role).symm

namespace ConditionMetrics

/-- Writing through a handle changes no family of another slot. -/
theorem at?_performAll_of_ne {m : ConditionMetrics} {c : Collector}
    (h : ∀ f ∈ m.surfaces, ∀ role, (f.collector role).slot ≠ c.slot) (r : Registry)
    (ops : RoleOps) :
    (m.performAll r ops).at? c = r.at? c := by
  have hone : ∀ f ∈ m.surfaces, ∀ (ops : RoleOps) (r : Registry),
      (f.performAll r ops).at? c = r.at? c := by
    intro f hf ops
    induction ops with
    | nil => exact fun _ => rfl
    | cons op ops ih =>
      intro r
      show (f.performAll (op.2.perform (f.collector op.1) r) ops).at? c = _
      rw [ih, at?_perform, if_neg (h f hf op.1)]
  unfold performAll
  generalize m.surfaces = fs at hone
  induction fs generalizing r with
  | nil => rfl
  | cons f fs ih =>
    rw [List.foldl_cons, ih _ fun f' hf' => hone f' (List.mem_cons_of_mem _ hf'),
      hone f List.mem_cons_self]

end ConditionMetrics

/-! ## What families see -/

/-- What was done through which handle, in order. -/
abbrev Log := List (ConditionMetrics × RoleOps)

namespace Log

/-- The operations on the family of a surface with a role: those of all handles with the
surface. -/
def seen (log : Log) (f : ConditionFamilies) (role : Role) : List SeriesOp :=
  (log.filter fun e => f ∈ e.1.surfaces).flatMap fun e => RoleOps.on e.2 role

/-- The operations through one handle on the families with a role. -/
def through (log : Log) (m : ConditionMetrics) (role : Role) : List SeriesOp :=
  (log.filter fun e => e.1 = m).flatMap fun e => RoleOps.on e.2 role

theorem seen_concat (log : Log) (e : ConditionMetrics × RoleOps) (f : ConditionFamilies)
    (role : Role) :
    seen (log ++ [e]) f role =
      log.seen f role ++ if f ∈ e.1.surfaces then RoleOps.on e.2 role else [] := by
  unfold seen
  rw [List.filter_append, List.flatMap_append]
  by_cases h : f ∈ e.1.surfaces <;> simp [h]

/-- Families that no handle of the log has see nothing of it. -/
theorem seen_eq_nil {log : Log} {f : ConditionFamilies} (h : ∀ e ∈ log, f ∉ e.1.surfaces)
    (role : Role) : log.seen f role = [] := by
  unfold seen
  rw [List.filter_eq_nil_iff.mpr fun e he => by simpa using h e he, List.flatMap_nil]

end Log

/-- The handles that were ever made in a registry, with what their families hold. -/
structure Housed (r : Registry) (ms : List ConditionMetrics) (log : Log) : Prop where
  laid : ∀ m ∈ ms, m.Laid
  /-- No two families of any surfaces share a slot. -/
  slots : ∀ m ∈ ms, ∀ f ∈ m.surfaces, ∀ m' ∈ ms, ∀ f' ∈ m'.surfaces, ∀ a b,
    (f.collector a).slot = (f'.collector b).slot → f = f' ∧ a = b
  /-- The families of a kind belong to one handle, and are not shared by it. -/
  own : ∀ m ∈ ms, ∀ m' ∈ ms, m.families ∈ m'.surfaces → m' = m
  unshared : ∀ m ∈ ms, m.legacy ≠ some m.families
  /-- The families in the slot are those of some handle. -/
  slot : ∀ s, r.legacy = some s → ∃ m ∈ ms, m.legacy = some s.families
  logged : ∀ e ∈ log, e.1 ∈ ms
  holds : ∀ m ∈ ms, ∀ f ∈ m.surfaces, ∀ role, r.at? (f.collector role) =
    some ((log.seen f role).foldl (fun a op => op.apply (f.collector role) a)
      (f.collector role).blank)

namespace Housed

variable {r r' : Registry} {ms : List ConditionMetrics} {log : Log}

theorem nil {r : Registry} (h : r.legacy = none) : Housed r [] [] where
  laid _ hm := nomatch hm
  slots _ hm := nomatch hm
  own _ hm := nomatch hm
  unshared _ hm := nomatch hm
  slot s hs := by
    rw [h] at hs
    cases hs
  logged _ he := nomatch he
  holds _ hm := nomatch hm

/-- Of families only what they hold matters. -/
theorem congr (h : Housed r ms log) (hat : ∀ c a, r.at? c = some a → r'.at? c = some a)
    (hslot : ∀ s, r'.legacy = some s → ∃ s', r.legacy = some s' ∧ s'.families = s.families) :
    Housed r' ms log where
  laid := h.laid
  slots := h.slots
  own := h.own
  unshared := h.unshared
  slot s hs := by
    obtain ⟨s', hs', heq⟩ := hslot s hs
    obtain ⟨m, hm, hshared⟩ := h.slot s' hs'
    exact ⟨m, hm, heq ▸ hshared⟩
  logged := h.logged
  holds m hm f hf role := hat _ _ (h.holds m hm f hf role)

theorem present (h : Housed r ms log) {m : ConditionMetrics} (hm : m ∈ ms) {f : ConditionFamilies}
    (hf : f ∈ m.surfaces) (role : Role) : (r.at? (f.collector role)).isSome := by
  rw [h.holds m hm f hf role]
  rfl

theorem separate (h : Housed r ms log) {m : ConditionMetrics} (hm : m ∈ ms) : m.Separate where
  surfaces := by
    refine List.nodup_cons.mpr ⟨fun hmem => h.unshared m hm (Option.mem_toList.mp hmem), ?_⟩
    cases m.legacy <;> simp
  slots f hf g hg a b heq := h.slots m hm f hf m hm g hg a b heq

/-! ## Writing -/

/-- What is done through a handle is seen by the families of its surfaces. -/
theorem performAll (h : Housed r ms log) {m : ConditionMetrics} (hm : m ∈ ms) (ops : RoleOps) :
    Housed (m.performAll r ops) ms (log ++ [(m, ops)]) where
  laid := h.laid
  slots := h.slots
  own := h.own
  unshared := h.unshared
  slot s hs := h.slot s ((Enrolled.performAll_frame m r ops).2.1 ▸ hs)
  logged e he := by
    rcases List.mem_append.mp he with he | he
    · exact h.logged e he
    · rw [List.mem_singleton.mp he]
      exact hm
  holds m' hm' f hf role := by
    rw [Log.seen_concat, List.foldl_append]
    by_cases hmem : f ∈ m.surfaces
    · rw [ConditionMetrics.at?_performAll (h.separate hm) hmem, h.holds m' hm' f hf role,
        if_pos hmem]
      rfl
    · rw [ConditionMetrics.at?_performAll_of_ne, h.holds m' hm' f hf role, if_neg hmem]
      · rfl
      · intro g hg a heq
        exact hmem ((h.slots m hm g hg m' hm' f hf a role heq).1 ▸ hg)

theorem performCalls {m : ConditionMetrics} (hm : m ∈ ms) (calls : List RoleOps) :
    ∀ {r : Registry} {log : Log}, Housed r ms log →
      Housed (m.performCalls r calls) ms (log ++ calls.map fun ops => (m, ops)) := by
  induction calls with
  | nil =>
    intro r log h
    rwa [List.map_nil, List.append_nil]
  | cons ops calls ih =>
    intro r log h
    have hrest := ih (h.performAll hm ops)
    rwa [List.append_assoc, List.singleton_append] at hrest

/-! ## Making a handle -/

/-- Families that a registry had no room for before, and that start without series. -/
structure Unseen (r r' : Registry) (f : ConditionFamilies) : Prop where
  blank : ∀ role, r'.at? (f.collector role) = some (f.collector role).blank
  slot_ne : ∀ role c, (r.at? c).isSome → (f.collector role).slot ≠ c.slot

/-- Families that were made and registered. -/
theorem unseen_of_made {made : Registry} {f : ConditionFamilies} {scope extra : List String}
    (hmade : Made r made f scope extra) (hsame : Registry.SameFamilies made r') :
    Unseen r r' f where
  blank role := by rw [hsame.at?, hmade.blank]
  slot_ne role _ hsome := hmade.slot_ne hsome role

theorem Unseen.later {r'' : Registry} {f : ConditionFamilies} (h : Unseen r r' f)
    (hkeeps : r'.Keeps r'') : Unseen r r'' f :=
  ⟨fun role => hkeeps _ _ (h.blank role), h.slot_ne⟩

theorem Unseen.earlier {r'' : Registry} {f : ConditionFamilies} (h : Unseen r' r'' f)
    (hkeeps : r.Keeps r') : Unseen r r'' f where
  blank := h.blank
  slot_ne role c hsome := by
    obtain ⟨a, ha⟩ := Option.isSome_iff_exists.mp hsome
    exact h.slot_ne role c (by rw [hkeeps c a ha]; rfl)

section Adding

variable (h : Housed r ms log)

include h

/-- Families that are new are not those of a handle that was there. -/
theorem not_mem_of_unseen {f : ConditionFamilies} (hf : Unseen r r' f) {m : ConditionMetrics}
    (hm : m ∈ ms) : f ∉ m.surfaces := fun hmem =>
  hf.slot_ne .count _ (h.present hm hmem .count) rfl

variable {m : ConditionMetrics} (hown : Unseen r r' m.families)
  (hshared : ∀ f, m.legacy = some f → (∃ m' ∈ ms, m'.legacy = some f) ∨ Unseen r r' f)

include hown hshared

omit h in
/-- The families of the surfaces of a handle that is made are known, or they are new. -/
theorem known_or_unseen {f : ConditionFamilies} (hf : f ∈ m.surfaces) :
    (∃ m' ∈ ms, f ∈ m'.surfaces) ∨ Unseen r r' f := by
  rcases List.mem_cons.mp hf with rfl | hf
  · exact Or.inr hown
  · refine (hshared f (Option.mem_toList.mp hf)).imp_left ?_
    rintro ⟨m', hm', hf'⟩
    exact ⟨m', hm', ConditionMetrics.mem_surfaces_of_legacy hf'⟩

theorem slots_add (hsep : m.Separate) : ∀ m₁ ∈ ms ++ [m], ∀ f ∈ m₁.surfaces,
    ∀ m₂ ∈ ms ++ [m], ∀ f' ∈ m₂.surfaces, ∀ a b,
      (f.collector a).slot = (f'.collector b).slot → f = f' ∧ a = b := by
  have hknown : ∀ m' ∈ ms ++ [m], ∀ f ∈ m'.surfaces,
      (∃ m'' ∈ ms, f ∈ m''.surfaces) ∨ (Unseen r r' f ∧ f ∈ m.surfaces) := by
    intro m' hm' f hf
    rcases Enrolled.mem_concat hm' with hm' | rfl
    · exact Or.inl ⟨m', hm', hf⟩
    · exact (known_or_unseen hown hshared hf).imp_right fun hunseen => ⟨hunseen, hf⟩
  intro m₁ hm₁ f hf m₂ hm₂ g hg a b heq
  -- two known families, a known and a new one, or two new ones of the handle
  rcases hknown m₁ hm₁ f hf with ⟨m₁', hm₁', hf'⟩ | ⟨hf', hf⟩ <;>
    rcases hknown m₂ hm₂ g hg with ⟨m₂', hm₂', hg'⟩ | ⟨hg', hg⟩
  · exact h.slots m₁' hm₁' f hf' m₂' hm₂' g hg' a b heq
  · exact absurd heq.symm (hg'.slot_ne b _ (h.present hm₁' hf' a))
  · exact absurd heq (hf'.slot_ne a _ (h.present hm₂' hg' b))
  · exact hsep.slots f hf g hg a b heq

theorem own_add : ∀ m₁ ∈ ms ++ [m], ∀ m₂ ∈ ms ++ [m], m₁.families ∈ m₂.surfaces → m₂ = m₁ := by
  intro m₁ hm₁ m₂ hm₂ hf
  rcases Enrolled.mem_concat hm₁ with hold₁ | rfl <;>
    rcases Enrolled.mem_concat hm₂ with hold₂ | rfl
  · exact h.own m₁ hold₁ m₂ hold₂ hf
  · rcases List.mem_cons.mp hf with heq | hf
    · exact absurd List.mem_cons_self (heq ▸ h.not_mem_of_unseen hown hold₁)
    · rcases hshared _ (Option.mem_toList.mp hf) with ⟨m', hm', hf'⟩ | hunseen
      · have hsame := h.own m₁ hold₁ m' hm' (ConditionMetrics.mem_surfaces_of_legacy hf')
        exact absurd (hsame ▸ hf') (h.unshared m₁ hold₁)
      · exact absurd List.mem_cons_self (h.not_mem_of_unseen hunseen hold₁)
  · exact absurd hf (h.not_mem_of_unseen hown hold₂)
  · rfl

/-- One more handle, with families of its kind that are new, and with shared families that are new
or shared by another handle. -/
theorem add (hlaid : m.Laid) (hsep : m.Separate) (hkeeps : r.Keeps r')
    (hslot : ∀ s, r'.legacy = some s → ∃ m' ∈ ms ++ [m], m'.legacy = some s.families) :
    Housed r' (ms ++ [m]) log := by
  refine { laid := ?_, slots := h.slots_add hown hshared hsep, own := h.own_add hown hshared,
           unshared := ?_, slot := hslot, logged := ?_, holds := ?_ }
  · intro m' hm'
    rcases Enrolled.mem_concat hm' with hm' | rfl
    · exact h.laid m' hm'
    · exact hlaid
  · intro m' hm'
    rcases Enrolled.mem_concat hm' with hm' | rfl
    · exact h.unshared m' hm'
    · intro hf
      have hnodup := hsep.surfaces
      rw [ConditionMetrics.surfaces, hf] at hnodup
      simp at hnodup
  · exact fun e he => List.mem_append_left _ (h.logged e he)
  · intro m' hm' f hf role
    have hold : ∀ m' ∈ ms, f ∈ m'.surfaces → r'.at? (f.collector role) =
        some ((log.seen f role).foldl (fun a op => op.apply (f.collector role) a)
          (f.collector role).blank) :=
      fun m' hm' hf => hkeeps _ _ (h.holds m' hm' f hf role)
    rcases Enrolled.mem_concat hm' with hm' | rfl
    · exact hold m' hm' hf
    · -- shared families have seen what others did to them, new ones nothing
      rcases known_or_unseen hown hshared hf with ⟨m'', hm'', hf''⟩ | hunseen
      · exact hold m'' hm'' hf''
      · rw [hunseen.blank role,
          Log.seen_eq_nil fun e he => h.not_mem_of_unseen hunseen (h.logged e he)]
        rfl

end Adding

/-- A handle that joins those that share is separate if the families of its kind are. -/
theorem separate_joined (h : Housed r ms log) {m holder : ConditionMetrics} (hholder : holder ∈ ms)
    {f : ConditionFamilies} (hheld : holder.legacy = some f) (hjoined : m.legacy = some f)
    (hown : Unseen r r' m.families)
    (hslots : ∀ a b, (m.families.collector a).slot = (m.families.collector b).slot → a = b) :
    m.Separate := by
  have hmem : f ∈ holder.surfaces := ConditionMetrics.mem_surfaces_of_legacy hheld
  have hsurfaces : m.surfaces = [m.families, f] := by
    rw [ConditionMetrics.surfaces, hjoined]
    rfl
  have hdiffers : ∀ a b, (m.families.collector a).slot ≠ (f.collector b).slot := fun a b =>
    hown.slot_ne a _ (h.present hholder hmem b)
  constructor
  · rw [hsurfaces]
    have hne : m.families ≠ f := fun heq => hdiffers .count .count (heq ▸ rfl)
    simp [hne]
  · intro g hg g' hg' a b heq
    rw [hsurfaces] at hg hg'
    rcases List.mem_pair.mp hg with rfl | rfl <;> rcases List.mem_pair.mp hg' with rfl | rfl
    · exact ⟨rfl, hslots a b heq⟩
    · exact absurd heq (hdiffers a b)
    · exact absurd heq.symm (hdiffers b a)
    · exact h.slots holder hholder _ hmem holder hholder _ hmem a b heq

section Creating

variable {r₁ made : Registry} {m : ConditionMetrics} {p : LabelProjection} (h : Housed r ms log)
  (hp : p.WellFormed) (hprojection : m.projection = p)
  (hmade : Made r made m.families [] p.labelNames)
  (hregister : made.registerFamilies m.families = (r₁, .ok ()))

include h hp hprojection hmade hregister

/-- A handle without shared families is one more. -/
theorem add_unshared (hnone : m.legacy = none) : Housed r₁ (ms ++ [m]) log := by
  have hsame := Registry.registerAll_same _ hregister
  have hnot : ∀ f, m.legacy ≠ some f := by simp [hnone]
  refine h.add (unseen_of_made hmade hsame) (fun f hf => absurd hf (hnot f))
    (laid_of_made hp hprojection hmade fun f hf => absurd hf (hnot f))
    (separate_single hmade hnone) (Registry.Keeps.trans hmade.kept hsame.keeps) fun s hs => ?_
  rw [hsame.legacy, hmade.legacy] at hs
  obtain ⟨m', hm', hf⟩ := h.slot s hs
  exact ⟨m', List.mem_append_left _ hm', hf⟩

/-- So is a handle that joins the holders of the shared families. -/
theorem add_joined {slot : LegacySlot} (hslot : r₁.legacy = some slot)
    (hjoined : m.legacy = some slot.families) :
    Housed { r₁ with legacy := some { slot with holders := slot.holders + 1 } } (ms ++ [m])
      log := by
  have hsame := Registry.registerAll_same _ hregister
  have hown : Unseen r r₁ m.families := unseen_of_made hmade hsame
  have hkeeps := Registry.keeps_legacy r₁ (some { slot with holders := slot.holders + 1 })
  -- the slot says which families are shared, and another handle has them
  rw [hsame.legacy, hmade.legacy] at hslot
  obtain ⟨holder, hholder, hheld⟩ := h.slot slot hslot
  have hsep := h.separate_joined hholder hheld hjoined hown fun a b hslots => by
    rw [hmade.slots, hmade.slots] at hslots
    exact Role.slotIn_injective hslots
  refine h.add (hown.later hkeeps) (fun f hf => ?_)
    (laid_of_made hp hprojection hmade fun f hf => ?_) hsep
    ((Registry.Keeps.trans hmade.kept hsame.keeps).trans hkeeps) fun s hs => ?_
  · rw [hjoined] at hf
    cases hf
    exact Or.inl ⟨holder, hholder, hheld⟩
  · rw [hjoined] at hf
    cases hf
    exact (h.laid holder hholder).shared _ hheld
  · cases hs
    exact ⟨m, by simp, hjoined⟩

/-- And so is a handle for which the shared families are made. -/
theorem add_started {f : ConditionFamilies} {made' r₂ : Registry} (hstarted : m.legacy = some f)
    (hmade' : Made r₁ made' f [groupLabel, kindLabel] [])
    (hregister' : made'.registerFamilies f = (r₂, .ok ())) :
    Housed { r₂ with legacy := some ⟨f, 1⟩ } (ms ++ [m]) log := by
  have hsame := Registry.registerAll_same _ hregister
  have hsame' := Registry.registerAll_same _ hregister'
  have hkeeps : r.Keeps r₁ := Registry.Keeps.trans hmade.kept hsame.keeps
  have hslot := Registry.keeps_legacy r₂ (some ⟨f, 1⟩)
  have hkeeps' : r₁.Keeps { r₂ with legacy := some ⟨f, 1⟩ } :=
    Registry.Keeps.trans (Registry.Keeps.trans hmade'.kept hsame'.keeps) hslot
  refine h.add ((unseen_of_made hmade hsame).later hkeeps') (fun f' hf' => ?_)
    (laid_of_made hp hprojection hmade fun f' hf' role => ?_)
    (separate_both hmade hsame hmade' hstarted) (hkeeps.trans hkeeps') fun s hs => ?_
  · -- they were made after those of the kind, so they are new as well
    rw [hstarted] at hf'
    cases hf'
    exact Or.inr (((unseen_of_made hmade' hsame').later hslot).earlier hkeeps)
  · rw [hstarted] at hf'
    cases hf'
    rw [hmade'.labels role, List.append_nil]
  · cases hs
    exact ⟨m, by simp, hstarted⟩

end Creating

/-- A handle that is made is one more. -/
theorem create (h : Housed r ms log) {g : GroupKind} {legacy : Bool} {p : LabelProjection}
    {m : ConditionMetrics} (hp : p.WellFormed)
    (hc : ConditionMetrics.create r g legacy p = (r', .ok m)) : Housed r' (ms ++ [m]) log := by
  obtain ⟨-, hprojection, made, r₁, hmade, hregister, hshares⟩ := ConditionMetrics.create_cases hc
  cases hshares with
  | without _ hnone heq =>
    rw [heq]
    exact h.add_unshared hp hprojection hmade hregister hnone
  | joined slot _ hslot hjoined heq =>
    rw [heq]
    exact h.add_joined hp hprojection hmade hregister hslot hjoined
  | started f made' r₂ _ _ hstarted hmade' hregister' heq =>
    rw [heq]
    exact h.add_started hp hprojection hmade hregister hstarted hmade' hregister'

theorem create_error (h : Housed r ms log) {g : GroupKind} {legacy : Bool} {p : LabelProjection}
    {e : MetricError} (hc : ConditionMetrics.create r g legacy p = (r', .error e)) :
    Housed r' ms log := by
  obtain ⟨-, hlegacy, hkeeps⟩ := ConditionMetrics.create_error hc
  exact h.congr hkeeps fun s hs => ⟨s, hlegacy ▸ hs, rfl⟩

/-! ## Giving a handle back -/

theorem legacy_releaseLegacy {f : ConditionFamilies} {s : LegacySlot}
    (h : (r.releaseLegacy f).legacy = some s) :
    ∃ s', r.legacy = some s' ∧ s'.families = s.families := by
  unfold Registry.releaseLegacy Registry.dropLegacy at h
  cases hslot : r.legacy with
  | none =>
    rw [hslot] at h
    rw [hslot] at h
    cases h
  | some s' =>
    rw [hslot] at h
    refine ⟨s', rfl, ?_⟩
    simp only at h
    split at h
    · cases h
    · split at h
      · cases h
        rfl
      · rw [hslot] at h
        cases h
        rfl

/-- Families outlive the handles that wrote to them. -/
theorem unregister (h : Housed r ms log) (m : ConditionMetrics) :
    Housed (m.unregister r) ms log := by
  refine h.congr (fun c a ha => (Enrolled.at?_unregister m r c).trans ha) fun s hs => ?_
  have hsame := (Registry.unregisterFamilies_same m.families r).legacy
  unfold ConditionMetrics.unregister at hs
  simp only at hs
  split at hs
  · obtain ⟨s', hs', heq⟩ := legacy_releaseLegacy hs
    exact ⟨s', hsame ▸ hs', heq⟩
  · exact ⟨s, hsame ▸ hs, rfl⟩

end Housed

/-! ## Runs -/

namespace Roster

/-- The handle that a step makes. -/
def madeBy (s : Roster) : Use → List ConditionMetrics
  | .create g legacy keys =>
    match ConditionMetrics.create s.registry g legacy (.of keys) with
    | (_, .ok m) => [m]
    | (_, .error _) => []
  | .unregister _ => []
  | .call _ _ => []

/-- The call that a step is. -/
def loggedBy (s : Roster) : Use → Log
  | .create _ _ _ => []
  | .unregister _ => []
  | .call i call =>
    match s.live[i]? with
    | none => []
    | some m => [(m, call.ops m)]

/-- The handles that a run makes. -/
def made (s : Roster) : List Use → List ConditionMetrics
  | [] => []
  | step :: steps => s.madeBy step ++ (s.step step).made steps

/-- The calls of a run. -/
def log (s : Roster) : List Use → Log
  | [] => []
  | step :: steps => s.loggedBy step ++ (s.step step).log steps

theorem housed_step {s : Roster} {ms : List ConditionMetrics} {log : Log}
    (h : Housed s.registry ms log) (hlive : s.live ⊆ ms) (step : Use) :
    Housed (s.step step).registry (ms ++ s.madeBy step) (log ++ s.loggedBy step) ∧
      (s.step step).live ⊆ ms ++ s.madeBy step := by
  -- only calls write to families, the other steps add handles or take them away
  cases step with
  | create g legacy keys =>
    unfold Roster.step madeBy loggedBy
    simp only [List.append_nil]
    cases hc : ConditionMetrics.create s.registry g legacy (.of keys) with
    | mk r result =>
    cases result with
    | ok m =>
      refine ⟨h.create (LabelProjection.wellFormed_of keys) hc, ?_⟩
      exact List.append_subset.mpr ⟨List.subset_append_of_subset_left _ hlive,
        List.subset_append_right _ _⟩
    | error e =>
      rw [List.append_nil]
      exact ⟨h.create_error hc, hlive⟩
  | unregister i =>
    unfold Roster.step madeBy loggedBy
    simp only [List.append_nil]
    cases s.live[i]? with
    | none => exact ⟨h, hlive⟩
    | some m => exact ⟨h.unregister m, fun m' hm' => hlive (List.mem_of_mem_eraseIdx hm')⟩
  | call i call =>
    unfold Roster.step madeBy loggedBy
    simp only [List.append_nil]
    cases hi : s.live[i]? with
    | none =>
      rw [List.append_nil]
      exact ⟨h, hlive⟩
    | some m =>
      simp only [call.perform_eq]
      exact ⟨h.performAll (hlive (List.mem_of_getElem? hi)) _, hlive⟩

/-- After a run, every family that was made holds what was done through its handles. -/
theorem housed_run (steps : List Use) : ∀ {s : Roster} {ms : List ConditionMetrics} {log : Log},
    Housed s.registry ms log → s.live ⊆ ms →
      Housed (s.run steps).registry (ms ++ s.made steps) (log ++ s.log steps) ∧
        (s.run steps).live ⊆ ms ++ s.made steps := by
  induction steps with
  | nil =>
    intro s ms log h hlive
    simp only [made, Roster.log, List.append_nil]
    exact ⟨h, hlive⟩
  | cons step steps ih =>
    intro s ms log h hlive
    obtain ⟨hnext, hlive'⟩ := housed_step h hlive step
    have hrest := ih hnext hlive'
    rw [List.append_assoc, List.append_assoc] at hrest
    exact hrest

theorem housed_start (scope : String) (own : List OwnerStep) (steps : List Use) :
    Housed ((start scope own).run steps).registry ((start scope own).made steps)
        ((start scope own).log steps) ∧
      ((start scope own).run steps).live ⊆ (start scope own).made steps := by
  obtain ⟨-, hnone⟩ := Registry.named_own own (Registry.named_new scope) rfl
  exact housed_run steps (Housed.nil hnone) (List.nil_subset _)

end Roster

end StatusWatch.Metrics
