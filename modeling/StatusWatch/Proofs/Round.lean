import StatusWatch.Proofs.Family

/-!
# Rounds of writes and deletions

What one reconcile does to a family of presence gauges: the series of a resource may be
forgotten first, then the present states are written, and last the stale states are
deleted by partial labels.

- `Family.writeAll`, `Family.deleteAll`: many writes, many deletions.
- `Round`, `Family.after`: a whole round.
- `live_after`: the index after a round, whatever the tuples are.
- `value?_after`, `Mirrors.after`: if the tuples that are live while the writes happen are
  apart, the family is the map that the round describes.
- `exists_missing_of_not_apart`: if they are not, some written tuple has no series.
-/

namespace StatusWatch.Metrics

theorem SeriesIndex.agrees_congr {i j : SeriesIndex} (h : i.labelNames = j.labelNames) :
    i.agrees = j.agrees := by
  obtain ⟨names, live⟩ := i
  obtain ⟨names', live'⟩ := j
  subst h
  rfl

theorem SeriesIndex.tuple_congr {i j : SeriesIndex} (h : i.labelNames = j.labelNames) :
    i.tuple = j.tuple := by
  funext labels
  simp only [tuple, h]

namespace Family

variable {α : Type}

/-! ## Many writes -/

/-- Write values one after the other. -/
def writeAll (f : Family α) (writes : List (Labels × α)) : Family α :=
  writes.foldl (fun f w => f.record w.1 fun _ => w.2) f

/-- The tuples of the writes with their values. -/
def written (i : SeriesIndex) (writes : List (Labels × α)) : List (LabelTuple × α) :=
  writes.map fun w => (i.tuple w.1, w.2)

@[simp] theorem writeAll_nil (f : Family α) : f.writeAll [] = f := rfl

theorem writeAll_cons (f : Family α) (w : Labels × α) (writes : List (Labels × α)) :
    f.writeAll (w :: writes) = (f.record w.1 fun _ => w.2).writeAll writes := rfl

theorem written_congr {i j : SeriesIndex} (h : i.labelNames = j.labelNames)
    (writes : List (Labels × α)) : written i writes = written j writes := by
  simp only [written, SeriesIndex.tuple_congr h]

@[simp] theorem written_record (f : Family α) (labels : Labels) (step : Option α → α)
    (writes : List (Labels × α)) :
    written (f.record labels step).index writes = written f.index writes :=
  written_congr (labelNames_record f labels step) writes

theorem labelNames_writeAll (writes : List (Labels × α)) : ∀ f : Family α,
    (f.writeAll writes).index.labelNames = f.index.labelNames := by
  induction writes with
  | nil => exact fun _ => rfl
  | cons w ws ih => exact fun f => (ih _).trans (labelNames_record f w.1 _)

theorem WellFormed.writeAll (writes : List (Labels × α)) : ∀ {f : Family α},
    f.WellFormed → (f.writeAll writes).WellFormed := by
  induction writes with
  | nil => exact fun h => h
  | cons w ws ih => exact fun h => ih (h.record w.1 _)

theorem live_writeAll (writes : List (Labels × α)) (t : LabelTuple) : ∀ f : Family α,
    t ∈ (f.writeAll writes).index.live ↔
      t ∈ (written f.index writes).map (·.1) ∨ t ∈ f.index.live := by
  induction writes with
  | nil => simp [written]
  | cons w ws ih =>
    intro f
    rw [writeAll_cons, ih, live_record, written_record]
    simp only [written, List.map_cons, List.mem_cons]
    tauto

/-- Writes of other tuples leave a missing series missing. -/
theorem value?_writeAll_of_not_mem (writes : List (Labels × α)) (t : LabelTuple) :
    ∀ {f : Family α}, f.WellFormed → t ∉ (written f.index writes).map (·.1) →
      f.value? t = none → (f.writeAll writes).value? t = none := by
  induction writes with
  | nil => exact fun _ _ hnone => hnone
  | cons w ws ih =>
    intro f h hnot hnone
    have hne : t ≠ f.index.tuple w.1 := fun e => hnot (e ▸ List.mem_cons_self)
    refine ih (h.record w.1 _) ?_ (value?_record_ne h _ hne hnone)
    rw [written_record]
    exact fun hm => hnot (List.mem_cons_of_mem _ hm)

/-- Writes that stay apart from each other and from what is live are writes to a map. -/
theorem writeAll_of_apart (writes : List (Labels × α)) : ∀ {f : Family α}, f.WellFormed →
    f.Mirrors → ((written f.index writes).map (·.1)).Nodup →
    Apart ((written f.index writes).map (·.1) ++ f.index.live) →
    (f.writeAll writes).Mirrors ∧
      ∀ t, (f.writeAll writes).value? t =
        (OrderedMap.find? t (written f.index writes)).or (f.value? t) := by
  induction writes with
  | nil => exact fun _ hm _ _ => ⟨hm, fun t => by simp [written, OrderedMap.find?]⟩
  | cons w ws ih =>
    intro f h hm hdistinct hapart
    obtain ⟨hfresh, hdistinct⟩ := List.nodup_cons.mp hdistinct
    -- the first write is apart from what is live, and the others from both of them
    have hhead : Apart (f.index.tuple w.1 :: f.index.live) := hapart.mono fun t ht => by
      rcases List.mem_cons.mp ht with rfl | ht
      · exact List.mem_append_left _ List.mem_cons_self
      · exact List.mem_append_right _ ht
    obtain ⟨hmirrors, hvalue⟩ := ih (h.record w.1 fun _ => w.2) (hm.record h (fun _ => w.2) hhead)
      (by rwa [written_record]) (by
        rw [written_record]
        refine hapart.mono fun t ht => ?_
        rcases List.mem_append.mp ht with ht | ht
        · exact List.mem_append_left _ (List.mem_cons_of_mem _ ht)
        · rcases (live_record f w.1 _ t).mp ht with rfl | ht
          · exact List.mem_append_left _ List.mem_cons_self
          · exact List.mem_append_right _ ht)
    refine ⟨hmirrors, fun t => ?_⟩
    have hone : ∀ t, (f.value? t).isSome → t.joined = (f.index.tuple w.1).joined →
        t = f.index.tuple w.1 := fun t ht hj =>
      hhead t (List.mem_cons_of_mem _ ((hm t).mpr ht)) _ List.mem_cons_self hj
    rw [writeAll_cons, hvalue, written_record, value?_record h w.1 _ hone]
    show _ = (OrderedMap.find? t ((f.index.tuple w.1, w.2) :: written f.index ws)).or _
    by_cases ht : t = f.index.tuple w.1
    · subst ht
      have hnone : OrderedMap.find? (f.index.tuple w.1) (written f.index ws) = none :=
        Option.not_isSome_iff_eq_none.mp fun hs => hfresh (find?_isSome_iff.mp hs)
      simp [OrderedMap.find?, hnone]
    · simp [OrderedMap.find?, ht, Ne.symm ht]

/-- If the writes do not stay apart, one of them does not get a series of its own. -/
theorem exists_missing_writeAll (writes : List (Labels × α)) : ∀ {f : Family α},
    f.WellFormed → f.Mirrors → ((written f.index writes).map (·.1)).Nodup →
    ¬ Apart ((written f.index writes).map (·.1) ++ f.index.live) →
    ∃ t ∈ (written f.index writes).map (·.1), (f.writeAll writes).value? t = none := by
  induction writes with
  | nil => exact fun h hm _ hnot => absurd (hm.apart h) hnot
  | cons w ws ih =>
    intro f h hm hdistinct hnot
    obtain ⟨hfresh, hdistinct⟩ := List.nodup_cons.mp hdistinct
    by_cases hrun : ∃ t, (f.value? t).isSome ∧ t.joined = (f.index.tuple w.1).joined ∧
        t ≠ f.index.tuple w.1
    · -- the first write runs together with a live tuple, and nothing later mends that
      obtain ⟨t, ht, hj, hne⟩ := hrun
      refine ⟨f.index.tuple w.1, List.mem_cons_self, ?_⟩
      refine value?_writeAll_of_not_mem ws _ (h.record w.1 _) ?_
        (value?_record_of_runTogether h w.1 _ ht hj hne)
      rw [written_record]
      exact hfresh
    · push Not at hrun
      -- the first write is apart from what is live, so one of the others is not
      have hhead : Apart (f.index.tuple w.1 :: f.index.live) := by
        intro a ha b hb hj
        rcases List.mem_cons.mp ha with rfl | ha <;> rcases List.mem_cons.mp hb with rfl | hb
        · rfl
        · exact (hrun b ((hm b).mp hb) hj.symm).symm
        · exact hrun a ((hm a).mp ha) hj
        · exact hm.apart h a ha b hb hj
      obtain ⟨t, ht, hnone⟩ := ih (h.record w.1 fun _ => w.2) (hm.record h (fun _ => w.2) hhead)
        (by rwa [written_record]) (by
          rw [written_record]
          refine fun hap => hnot (hap.mono fun t ht => ?_)
          rw [List.mem_append, live_record]
          rcases List.mem_append.mp ht with ht | ht
          · rcases List.mem_cons.mp ht with rfl | ht
            · exact Or.inr (Or.inl rfl)
            · exact Or.inl ht
          · exact Or.inr (Or.inr ht))
      rw [written_record] at ht
      exact ⟨t, List.mem_cons_of_mem _ ht, hnone⟩

/-! ## Many deletions -/

/-- Delete by several partial label maps. -/
def deleteAll (f : Family α) (partials : List Labels) : Family α :=
  partials.foldl (fun f labels => (f.deleteMatching labels).1) f

/-- Whether one of several partial label maps covers a tuple. -/
def covered (i : SeriesIndex) (partials : List Labels) (tuple : LabelTuple) : Bool :=
  partials.any fun labels => i.agrees labels tuple

theorem covered_congr {i j : SeriesIndex} (h : i.labelNames = j.labelNames) :
    covered i = covered j := by
  funext partials tuple
  simp only [covered, SeriesIndex.agrees_congr h]

theorem labelNames_deleteAll (partials : List Labels) : ∀ {f : Family α}, f.WellFormed →
    (f.deleteAll partials).index.labelNames = f.index.labelNames := by
  induction partials with
  | nil => exact fun _ => rfl
  | cons l ls ih =>
    exact fun h => (ih (h.deleteMatching l)).trans (labelNames_deleteMatching h l)

theorem WellFormed.deleteAll (partials : List Labels) : ∀ {f : Family α}, f.WellFormed →
    (f.deleteAll partials).WellFormed := by
  induction partials with
  | nil => exact fun h => h
  | cons l ls ih => exact fun h => ih (h.deleteMatching l)

theorem live_deleteAll (partials : List Labels) (t : LabelTuple) : ∀ {f : Family α},
    f.WellFormed → (t ∈ (f.deleteAll partials).index.live ↔
      t ∈ f.index.live ∧ covered f.index partials t = false) := by
  induction partials with
  | nil => simp [deleteAll, covered]
  | cons l ls ih =>
    intro f h
    show t ∈ ((f.deleteMatching l).1.deleteAll ls).index.live ↔ _
    rw [ih (h.deleteMatching l), live_deleteMatching h,
      covered_congr (labelNames_deleteMatching h l), and_assoc]
    simp [covered]

theorem value?_deleteAll_of_none (partials : List Labels) (t : LabelTuple) :
    ∀ {f : Family α}, f.WellFormed → f.value? t = none →
      (f.deleteAll partials).value? t = none := by
  induction partials with
  | nil => exact fun _ hnone => hnone
  | cons l ls ih =>
    exact fun h hnone => ih (h.deleteMatching l) (value?_deleteMatching_of_none h l hnone)

theorem deleteAll_of_mirrors (partials : List Labels) : ∀ {f : Family α}, f.WellFormed →
    f.Mirrors → (f.deleteAll partials).Mirrors ∧
      ∀ t, (f.deleteAll partials).value? t =
        if covered f.index partials t then none else f.value? t := by
  induction partials with
  | nil => exact fun _ hm => ⟨hm, fun t => by simp [deleteAll, covered]⟩
  | cons l ls ih =>
    intro f h hm
    obtain ⟨hmirrors, hvalue⟩ := ih (h.deleteMatching l) (hm.deleteMatching h l)
    refine ⟨hmirrors, fun t => ?_⟩
    show ((f.deleteMatching l).1.deleteAll ls).value? t = _
    rw [hvalue, covered_congr (labelNames_deleteMatching h l), value?_deleteMatching h l hm]
    simp only [covered, List.any_cons, Bool.or_eq_true]
    by_cases h₁ : f.index.agrees l t = true <;> simp [h₁]

end Family

/-! ## Rounds -/

/-- What one reconcile does to a family: forget, write, delete what is stale. -/
structure Round (α : Type) where
  forgotten : List Labels
  writes : List (Labels × α)
  stale : List Labels

namespace Family

variable {α : Type}

/-- The family after a round. -/
def after (f : Family α) (r : Round α) : Family α :=
  ((f.deleteAll r.forgotten).writeAll r.writes).deleteAll r.stale

/-- The tuples that are live when all writes of a round are done. -/
def inflight (f : Family α) (r : Round α) : List LabelTuple :=
  (written f.index r.writes).map (·.1) ++
    f.index.live.filter fun t => !covered f.index r.forgotten t

section Round

variable {f : Family α} (h : f.WellFormed) (r : Round α)

include h

theorem labelNames_after : (f.after r).index.labelNames = f.index.labelNames := by
  unfold after
  rw [labelNames_deleteAll _ ((h.deleteAll _).writeAll _), labelNames_writeAll,
    labelNames_deleteAll _ h]

theorem WellFormed.after : (f.after r).WellFormed := ((h.deleteAll _).writeAll _).deleteAll _

theorem live_after (t : LabelTuple) : t ∈ (f.after r).index.live ↔
    t ∈ f.inflight r ∧ covered f.index r.stale t = false := by
  have hnames := labelNames_deleteAll r.forgotten h
  unfold Family.after
  rw [live_deleteAll _ t ((h.deleteAll _).writeAll _), live_writeAll, live_deleteAll _ t h,
    covered_congr ((labelNames_writeAll r.writes _).trans hnames), written_congr hnames]
  simp [inflight]

/-- The state after the writes of a round, before anything stale is deleted. -/
theorem writes_of_apart (hm : f.Mirrors)
    (hdistinct : ((written f.index r.writes).map (·.1)).Nodup) (hapart : Apart (f.inflight r)) :
    ((f.deleteAll r.forgotten).writeAll r.writes).Mirrors ∧
      ∀ t, ((f.deleteAll r.forgotten).writeAll r.writes).value? t =
        (OrderedMap.find? t (written f.index r.writes)).or
          (if covered f.index r.forgotten t then none else f.value? t) := by
  have hnames := labelNames_deleteAll r.forgotten h
  obtain ⟨hm', hvalue'⟩ := deleteAll_of_mirrors r.forgotten h hm
  rw [← written_congr hnames] at hdistinct ⊢
  obtain ⟨hmirrors, hvalue⟩ := writeAll_of_apart r.writes (h.deleteAll _) hm' hdistinct (by
    refine hapart.mono fun t ht => ?_
    rw [written_congr hnames, List.mem_append, live_deleteAll _ t h] at ht
    simpa [inflight] using ht)
  exact ⟨hmirrors, fun t => by rw [hvalue, hvalue']⟩

theorem Mirrors.after (hm : f.Mirrors) (hdistinct : ((written f.index r.writes).map (·.1)).Nodup)
    (hapart : Apart (f.inflight r)) : (f.after r).Mirrors :=
  (deleteAll_of_mirrors r.stale ((h.deleteAll _).writeAll _)
    (writes_of_apart h r hm hdistinct hapart).1).1

/-- A round whose tuples are apart does to the family what it would do to a map. -/
theorem value?_after (hm : f.Mirrors) (hdistinct : ((written f.index r.writes).map (·.1)).Nodup)
    (hapart : Apart (f.inflight r)) (t : LabelTuple) :
    (f.after r).value? t =
      if covered f.index r.stale t then none
      else (OrderedMap.find? t (written f.index r.writes)).or
        (if covered f.index r.forgotten t then none else f.value? t) := by
  obtain ⟨hmirrors, hvalue⟩ := writes_of_apart h r hm hdistinct hapart
  have hnames := (labelNames_writeAll r.writes _).trans (labelNames_deleteAll r.forgotten h)
  unfold Family.after
  rw [(deleteAll_of_mirrors r.stale ((h.deleteAll _).writeAll _) hmirrors).2 t, hvalue,
    covered_congr hnames]

/-- A round whose tuples are not apart leaves a written tuple without a series. -/
theorem exists_missing_of_not_apart (hm : f.Mirrors)
    (hdistinct : ((written f.index r.writes).map (·.1)).Nodup) (hnot : ¬ Apart (f.inflight r)) :
    ∃ t ∈ (written f.index r.writes).map (·.1), (f.after r).value? t = none := by
  have hnames := labelNames_deleteAll r.forgotten h
  rw [← written_congr hnames] at hdistinct ⊢
  obtain ⟨t, ht, hnone⟩ := exists_missing_writeAll r.writes (h.deleteAll _)
    (deleteAll_of_mirrors r.forgotten h hm).1 hdistinct (by
      refine fun hap => hnot (hap.mono fun t ht => ?_)
      rw [written_congr hnames, List.mem_append, live_deleteAll _ t h]
      simpa [inflight] using ht)
  exact ⟨t, ht, value?_deleteAll_of_none _ t ((h.deleteAll _).writeAll _) hnone⟩

end Round

end Family

end StatusWatch.Metrics
