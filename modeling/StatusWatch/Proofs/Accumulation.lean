import Mathlib.Algebra.GroupWithZero.Nat
import Mathlib.Data.List.Dedup
import Mathlib.Data.List.Induction
import StatusWatch.Proofs.Writes
import StatusWatch.Proofs.Family

/-!
# Families that only grow

Counters and histograms of a handle are written to and never deleted from. What such a
family shows in the end is what its entries add up to, series by series, as long as no two
tuples of label values run together to the same text.

- `total`, `totals`: what the entries with one key add up to, and all of these sums.
- `Family.accumulate`: write entries one after the other, each on top of what is there.
- `accumulate_labelled_iff`: an empty family ends up with the totals of its entries exactly
  if their tuples are apart.
- `sum_accumulate`: whatever the tuples are, no entry is lost; `sum_increments` and
  `sum_samples` say so of counters and histograms.
- `sum_totals`: totals of increments, added up, count entries.
- `foldl_increments`, `foldl_samples`: writes to counters and histograms accumulate.
-/

namespace StatusWatch.Metrics

variable {α β κ : Type} [DecidableEq κ]

/-! ## Totals -/

/-- What the entries with a key add up to; nothing if there are none. -/
def total (step : β → Option α → α) (entries : List (κ × β)) (k : κ) : Option α :=
  (entries.filter fun e => e.1 = k).foldl (fun a e => some (step e.2 a)) none

/-- What the entries add up to, key by key. -/
def totals (step : β → Option α → α) (entries : List (κ × β)) : List (κ × α) :=
  (entries.map (·.1)).dedup.filterMap fun k => (total step entries k).map fun a => (k, a)

section

variable (step : β → Option α → α)

theorem total_concat (entries : List (κ × β)) (e : κ × β) (k : κ) :
    total step (entries ++ [e]) k =
      if k = e.1 then some (step e.2 (total step entries k)) else total step entries k := by
  unfold total
  rw [List.filter_append, List.foldl_append]
  by_cases h : e.1 = k
  · simp [h]
  · simp [h, Ne.symm h]

/-- There is a total for the keys of the entries and for no other. -/
theorem total_isSome_iff (entries : List (κ × β)) (k : κ) :
    (total step entries k).isSome ↔ k ∈ entries.map (·.1) := by
  induction entries using List.reverseRecOn with
  | nil => simp [total]
  | append_singleton entries e ih =>
    rw [total_concat, List.map_append, List.mem_append, ← ih]
    by_cases h : k = e.1
    · simp [h]
    · simp [h]

/-- Renaming keys without mixing them up keeps the totals. -/
theorem total_map {κ' : Type} [DecidableEq κ'] {f : κ → κ'} {entries : List (κ × β)} {k : κ}
    (h : ∀ e ∈ entries, f e.1 = f k → e.1 = k) :
    total step (entries.map fun e => (f e.1, e.2)) (f k) = total step entries k := by
  unfold total
  have hsame : ∀ e ∈ entries, decide (f e.1 = f k) = decide (e.1 = k) := fun e he =>
    decide_eq_decide.mpr ⟨h e he, fun heq => congrArg f heq⟩
  rw [List.filter_map, List.foldl_map]
  exact congrArg _ (List.filter_congr hsame)

theorem mem_totals (entries : List (κ × β)) (k : κ) (a : α) :
    (k, a) ∈ totals step entries ↔ total step entries k = some a := by
  unfold totals
  rw [List.mem_filterMap]
  constructor
  · rintro ⟨k', -, h⟩
    obtain ⟨a', ha', heq⟩ := Option.map_eq_some_iff.mp h
    cases heq
    exact ha'
  · intro h
    have hkey : k ∈ entries.map (·.1) := (total_isSome_iff step entries k).mp (by simp [h])
    exact ⟨k, List.mem_dedup.mpr hkey, by rw [h]; rfl⟩

theorem map_fst_totals (entries : List (κ × β)) :
    (totals step entries).map (·.1) = (entries.map (·.1)).dedup := by
  have hall : ∀ ks : List κ, (∀ k ∈ ks, (total step entries k).isSome) →
      (ks.filterMap fun k => (total step entries k).map fun a => (k, a)).map (·.1) = ks := by
    intro ks hks
    induction ks with
    | nil => rfl
    | cons k ks ih =>
      obtain ⟨a, ha⟩ := Option.isSome_iff_exists.mp (hks k List.mem_cons_self)
      have ih := ih fun k' hk' => hks k' (List.mem_cons_of_mem _ hk')
      simp [ha, ih]
  exact hall _ fun k hk => (total_isSome_iff step entries k).mpr (List.mem_dedup.mp hk)

/-- Totals belong to keys of entries. -/
theorem key_of_mem_totals {entries : List (κ × β)} {e : κ × α} (h : e ∈ totals step entries) :
    ∃ e' ∈ entries, e'.1 = e.1 := by
  have hmem : e.1 ∈ (totals step entries).map (·.1) := List.mem_map_of_mem h
  rw [map_fst_totals, List.mem_dedup] at hmem
  exact List.mem_map.mp hmem

section Renamed

variable {κ' : Type} {f : κ → κ'} {entries : List (κ × β)}
  (hinj : ∀ a ∈ entries, ∀ b ∈ entries, f a.1 = f b.1 → a.1 = b.1)

include hinj

/-- Renamed totals are the totals of renamed entries. -/
theorem mem_map_totals [DecidableEq κ'] (k' : κ') (a : α) :
    (k', a) ∈ (totals step entries).map (fun e => (f e.1, e.2)) ↔
      total step (entries.map fun e => (f e.1, e.2)) k' = some a := by
  rw [List.mem_map]
  constructor
  · rintro ⟨e, he, heq⟩
    cases heq
    obtain ⟨e', he', hkey⟩ := key_of_mem_totals step he
    rw [← hkey, total_map step fun e'' he'' heq => hinj e'' he'' e' he' heq, hkey]
    exact (mem_totals step entries e.1 e.2).mp he
  · intro ha
    have hmem := (total_isSome_iff step (entries.map fun e => (f e.1, e.2)) k').mp (by simp [ha])
    rw [List.map_map] at hmem
    obtain ⟨e, he, rfl⟩ := List.mem_map.mp hmem
    refine ⟨(e.1, a), (mem_totals step entries e.1 a).mpr ?_, rfl⟩
    exact (total_map step fun e'' he'' heq => hinj e'' he'' e he heq).symm.trans ha

theorem nodup_map_totals : ((totals step entries).map fun e => f e.1).Nodup := by
  have hsplit : ((totals step entries).map fun e => f e.1) =
      ((totals step entries).map (·.1)).map f := by
    rw [List.map_map]
    rfl
  rw [hsplit]
  refine List.Nodup.map_on ?_ (by rw [map_fst_totals]; exact List.nodup_dedup _)
  intro a ha b hb heq
  obtain ⟨ea, hea, rfl⟩ := List.mem_map.mp ha
  obtain ⟨eb, heb, rfl⟩ := List.mem_map.mp hb
  obtain ⟨ea', hea', hka⟩ := key_of_mem_totals step hea
  obtain ⟨eb', heb', hkb⟩ := key_of_mem_totals step heb
  rw [← hka, ← hkb] at heq ⊢
  exact hinj ea' hea' eb' heb' heq

end Renamed

end

/-! ## Families -/

namespace Family

/-- Write entries one after the other, each on top of what is there. -/
def accumulate (step : β → Option α → α) (f : Family α) (entries : List (Labels × β)) :
    Family α :=
  entries.foldl (fun f e => f.record e.1 (step e.2)) f

/-- The entries with the tuples that a family reads off their labels. -/
def tuples (i : SeriesIndex) (entries : List (Labels × β)) : List (LabelTuple × β) :=
  entries.map fun e => (i.tuple e.1, e.2)

section

variable (step : β → Option α → α) (f : Family α)

theorem accumulate_append (entries entries' : List (Labels × β)) :
    f.accumulate step (entries ++ entries') =
      (f.accumulate step entries).accumulate step entries' :=
  List.foldl_append

theorem accumulate_concat (entries : List (Labels × β)) (e : Labels × β) :
    f.accumulate step (entries ++ [e]) = (f.accumulate step entries).record e.1 (step e.2) :=
  accumulate_append step f entries [e]

theorem labelNames_accumulate (entries : List (Labels × β)) :
    (f.accumulate step entries).index.labelNames = f.index.labelNames := by
  induction entries using List.reverseRecOn with
  | nil => rfl
  | append_singleton entries e ih => rw [accumulate_concat, labelNames_record, ih]

variable {f}

theorem WellFormed.accumulate (h : f.WellFormed) (entries : List (Labels × β)) :
    (f.accumulate step entries).WellFormed := by
  induction entries using List.reverseRecOn with
  | nil => exact h
  | append_singleton entries e ih =>
    rw [accumulate_concat]
    exact ih.record e.1 _

/-- Entries whose tuples are apart add up series by series. -/
theorem value?_accumulate (h : f.WellFormed) (hempty : f.vec.series = [])
    (entries : List (Labels × β)) (hapart : Apart ((tuples f.index entries).map (·.1))) :
    ∀ t, (f.accumulate step entries).value? t = total step (tuples f.index entries) t := by
  induction entries using List.reverseRecOn with
  | nil =>
    intro t
    show OrderedMap.find? t f.vec.series = none
    rw [hempty]
    rfl
  | append_singleton entries e ih =>
    have hsplit : tuples f.index (entries ++ [e]) =
        tuples f.index entries ++ [(f.index.tuple e.1, e.2)] := by
      simp [tuples]
    rw [hsplit, List.map_append] at hapart
    -- the entries before are apart too
    have ih := ih (hapart.mono fun t ht => List.mem_append_left _ ht)
    have htuple : (f.accumulate step entries).index.tuple e.1 = f.index.tuple e.1 := by
      simp only [SeriesIndex.tuple, labelNames_accumulate]
    intro t
    rw [accumulate_concat, hsplit, total_concat, value?_record (h.accumulate step entries),
      htuple, ih, ih]
    · by_cases ht : t = f.index.tuple e.1
      · rw [if_pos ht, if_pos ht, ht]
      · rw [if_neg ht, if_neg ht]
    · -- what is shown belongs to earlier entries, from which the new one is apart
      intro t' ht' hj
      rw [ih, total_isSome_iff] at ht'
      rw [htuple] at hj ⊢
      exact hapart t' (List.mem_append_left _ ht') _ (List.mem_append_right _ (by simp)) hj

/-- Whatever the tuples are, no entry is lost: if an entry adds one to a measure of the value
that it is put on top of, the measures of all series add up to the number of entries. -/
theorem sum_accumulate {measure : α → Nat}
    (hstep : ∀ e a, measure (step e a) = (a.map measure).getD 0 + 1) (h : f.WellFormed)
    (entries : List (Labels × β)) :
    ((f.accumulate step entries).labelled.map fun s => measure s.2).sum =
      (f.labelled.map fun s => measure s.2).sum + entries.length := by
  -- a write raises one measure by one, or adds a series whose measure is one
  have hput : ∀ (tuple : LabelTuple) (e : β) (l : List (LabelTuple × α)),
      ((SeriesVec.put tuple (step e) l).map fun s => measure s.2).sum =
        (l.map fun s => measure s.2).sum + 1 := by
    intro tuple e l
    induction l with
    | nil => simp [SeriesVec.put, hstep]
    | cons s l ih =>
      unfold SeriesVec.put
      split
      · simp only [List.map_cons, List.sum_cons, hstep, Option.map_some, Option.getD_some]
        omega
      · simp only [List.map_cons, List.sum_cons, ih]
        omega
  unfold labelled
  simp only [List.map_map, Function.comp_def]
  induction entries using List.reverseRecOn with
  | nil => rfl
  | append_singleton entries e ih =>
    rw [accumulate_concat, series_record (h.accumulate step entries)]
    dsimp only
    rw [hput, ih, List.length_append, List.length_singleton]
    omega

/-- An empty family ends up with the totals of its entries exactly if their tuples are
apart. -/
theorem accumulate_exact_iff (h : f.WellFormed) (hempty : f.vec.series = [])
    (entries : List (Labels × β)) :
    (∀ t, (f.accumulate step entries).value? t = total step (tuples f.index entries) t) ↔
      Apart ((tuples f.index entries).map (·.1)) := by
  constructor
  · intro hexact a ha b hb hj
    have hshown : ∀ t ∈ (tuples f.index entries).map (·.1),
        ((f.accumulate step entries).value? t).isSome := by
      intro t ht
      rw [hexact]
      exact (total_isSome_iff step _ t).mpr ht
    exact (h.accumulate step entries).eq_of_joined (hshown a ha) (hshown b hb) hj
  · exact value?_accumulate step h hempty entries

/-- The same for series with their labels. -/
theorem accumulate_labelled_iff (h : f.WellFormed) (hempty : f.vec.series = [])
    {entries : List (Labels × β)} {pairs : List (List (String × String) × β)}
    (htuples : tuples f.index entries = pairs.map fun e => (e.1.map (·.2), e.2))
    (hnames : ∀ e ∈ pairs, e.1.map (·.1) = f.index.labelNames) :
    (f.accumulate step entries).labelled.Perm (totals step pairs) ↔
      Apart (pairs.map fun e => e.1.map (·.2)) := by
  have hzip : ∀ e ∈ pairs, e.1 = f.index.labelNames.zip (e.1.map (·.2)) := by
    intro e he
    rw [← hnames e he, ← List.unzip_fst, ← List.unzip_snd, List.zip_unzip]
  -- the names are the same for all, so the values tell the labels apart
  have hinj : ∀ a ∈ pairs, ∀ b ∈ pairs, a.1.map (·.2) = b.1.map (·.2) → a.1 = b.1 := by
    intro a ha b hb heq
    rw [hzip a ha, hzip b hb, heq]
  have hdeclared : ∀ e ∈ totals step pairs,
      e.1.map (·.1) = (f.accumulate step entries).index.labelNames := by
    intro e he
    obtain ⟨e', he', hkey⟩ := key_of_mem_totals step he
    rw [labelNames_accumulate, ← hkey]
    exact hnames e' he'
  -- both sides are told by the total of each tuple
  have hview : ∀ t v, (t, v) ∈ (totals step pairs).map (fun e => (e.1.map (·.2), e.2)) ↔
      total step (tuples f.index entries) t = some v := by
    intro t v
    rw [htuples]
    exact mem_map_totals step hinj t v
  have hapart : (tuples f.index entries).map (·.1) = pairs.map fun e => e.1.map (·.2) := by
    rw [htuples, List.map_map]
    rfl
  rw [perm_labelled_iff (h.accumulate step entries) hdeclared (nodup_map_totals step hinj),
    ← hapart, ← accumulate_exact_iff step h hempty]
  simp only [hview]
  exact forall_congr' fun t => ⟨Option.ext, fun heq v => by rw [heq]⟩

end

end Family

/-! ## Counters and histograms -/

/-- One more. -/
def increment (_ : β) (n : Option Nat) : Nat := n.getD 0 + 1

/-- One more value. -/
def sample (bounds : List Float) (value : Float) (h : Option Histogram) : Histogram :=
  (h.getD (Histogram.empty bounds)).observe value

/-- A counter family loses no increment, whatever the tuples are. -/
theorem Family.sum_increments {f : Family Nat} (h : f.WellFormed) (entries : List (Labels × β)) :
    ((f.accumulate increment entries).labelled.map (·.2)).sum =
      (f.labelled.map (·.2)).sum + entries.length := by
  have hone : ∀ (e : β) (n : Option Nat), id (increment e n) = (n.map id).getD 0 + 1 := by
    intro e n
    rw [Option.map_id]
    rfl
  exact sum_accumulate increment hone h entries

/-- A histogram family loses no sample. -/
theorem Family.sum_samples (bounds : List Float) {f : Family Histogram} (h : f.WellFormed)
    (entries : List (Labels × Float)) :
    ((f.accumulate (sample bounds) entries).labelled.map (·.2.count)).sum =
      (f.labelled.map (·.2.count)).sum + entries.length := by
  have hone : ∀ (value : Float) (old : Option Histogram),
      (sample bounds value old).count = (old.map Histogram.count).getD 0 + 1 := by
    intro value old
    cases old <;> rfl
  exact sum_accumulate _ hone h entries

/-- Increments add up to their number. -/
theorem total_increment (entries : List (κ × β)) (k : κ) :
    total increment entries k =
      let n := (entries.map (·.1)).count k
      if n = 0 then none else some n := by
  induction entries using List.reverseRecOn with
  | nil => rfl
  | append_singleton entries e ih =>
    rw [total_concat, ih, List.map_append, List.count_append]
    by_cases h : k = e.1
    · subst h
      by_cases hn : (entries.map (·.1)).count e.1 = 0
      · simp [hn, increment]
      · simp [hn, increment]
    · have hnone : ([e].map (·.1)).count k = 0 := by simp [Ne.symm h]
      rw [if_neg h, hnone, Nat.add_zero]

/-- A total of increments counts the entries with the key. -/
theorem countP_of_total_increment {entries : List (κ × β)} {k : κ} {n : Nat}
    (h : total increment entries k = some n) : n = entries.countP fun e => decide (e.1 = k) := by
  have hcount : entries.countP (fun e => decide (e.1 = k)) = (entries.map (·.1)).count k := by
    rw [List.count, List.countP_map]
    exact List.countP_congr fun e _ => by simp
  rw [total_increment] at h
  simp only at h
  split at h
  · cases h
  · rw [hcount]
    exact (Option.some.inj h).symm

/-- A total of samples counts the entries with the key, by bounds. -/
theorem counts_of_total_sample (bounds : List Float) (entries : List (κ × Float)) (k : κ) :
    let h := (total (sample bounds) entries k).getD (Histogram.empty bounds)
    h.count = entries.countP (fun e => decide (e.1 = k)) ∧
      h.buckets = bounds.map fun b =>
        (b, entries.countP fun e => decide (e.2 ≤ b) && decide (e.1 = k)) := by
  induction entries using List.reverseRecOn with
  | nil => exact ⟨rfl, rfl⟩
  | append_singleton entries e ih =>
    obtain ⟨hcount, hbuckets⟩ := ih
    simp only [total_concat, List.countP_append, List.countP_singleton]
    by_cases hk : e.1 = k
    · rw [if_pos hk.symm, Option.getD_some]
      simp only [sample, Histogram.observe, hcount, hbuckets, List.map_map, hk]
      refine ⟨rfl, List.map_congr_left fun b _ => Prod.ext rfl ?_⟩
      by_cases hle : e.2 ≤ b <;> simp [hle]
    · rw [if_neg (Ne.symm hk)]
      simp only [hcount, hbuckets, hk, decide_false, Bool.and_false, Bool.false_eq_true, if_false,
        Nat.add_zero, and_self]

theorem totals_increment (entries : List (κ × β)) :
    totals increment entries =
      (entries.map (·.1)).dedup.map fun k => (k, (entries.map (·.1)).count k) := by
  have hsome : ∀ k ∈ (entries.map (·.1)).dedup,
      (total increment entries k).map (fun n => (k, n)) =
        some (k, (entries.map (·.1)).count k) := by
    intro k hk
    have hpos := List.count_pos_iff.mpr (List.mem_dedup.mp hk)
    have hne : (entries.map (·.1)).count k ≠ 0 := by omega
    rw [total_increment]
    simp [hne]
  exact (List.filterMap_congr hsome).trans (congrFun List.filterMap_eq_map _)

/-- Counts of some keys, each taken once, count the entries with one of these keys. -/
theorem sum_counts (l : List κ) (p : κ → Bool) {ks : List κ} (hks : ks.Nodup) :
    ((ks.filter p).map fun k => l.count k).sum = l.countP fun k => p k && decide (k ∈ ks) := by
  induction ks with
  | nil => simp
  | cons k ks ih =>
    obtain ⟨hk, hks⟩ := List.nodup_cons.mp hks
    have ih := ih hks
    -- an entry has the first key or one of the others, but not both
    have hfirst : p k = true → ∀ l : List κ, (l.countP fun a => p a && decide (a ∈ k :: ks)) =
        l.count k + l.countP fun a => p a && decide (a ∈ ks) := by
      intro hp l
      induction l with
      | nil => rfl
      | cons a l ihl =>
        rw [List.count_cons, List.countP_cons, List.countP_cons, ihl]
        by_cases hak : a = k
        · subst hak
          simp [hp, hk]
          omega
        · simp [hak]
          omega
    rw [List.filter_cons]
    split
    · rename_i hp
      rw [List.map_cons, List.sum_cons, ih, hfirst hp l]
    · rename_i hp
      rw [ih]
      refine List.countP_congr fun a _ => ?_
      by_cases hak : a = k
      · subst hak
        simp [hp]
      · simp [hak]

/-- Totals of increments, added up, count entries. -/
theorem sum_totals (p : κ → Bool) (entries : List (κ × β)) :
    (((totals increment entries).filter fun e => p e.1).map (·.2)).sum =
      entries.countP fun e => p e.1 := by
  rw [totals_increment, List.filter_map, List.map_map]
  have hcounts := sum_counts (entries.map (·.1)) p (List.nodup_dedup (entries.map (·.1)))
  refine Eq.trans hcounts ?_
  rw [List.countP_map]
  refine List.countP_congr fun e he => ?_
  have hmem : e.1 ∈ (entries.map (·.1)).dedup := List.mem_dedup.mpr (List.mem_map_of_mem he)
  simp [hmem]

theorem foldl_increments (c : Collector) (entries : List (Labels × Float)) :
    ∀ f : Family Nat, (entries.map fun e => SeriesOp.write e.1 e.2).foldl
      (fun a op => op.apply c a) (.counter f) = .counter (f.accumulate increment entries) := by
  induction entries with
  | nil => exact fun _ => rfl
  | cons e entries ih => exact fun f => ih _

theorem foldl_samples (c : Collector) (entries : List (Labels × Float)) :
    ∀ h : HistogramFamily, (entries.map fun e => SeriesOp.write e.1 e.2).foldl
      (fun a op => op.apply c a) (.histogram h) =
        .histogram { h with family := h.family.accumulate (sample h.bounds) entries } := by
  induction entries with
  | nil => exact fun _ => rfl
  | cons e entries ih => exact fun h => ih _

end StatusWatch.Metrics
