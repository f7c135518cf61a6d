/-!
# Ordered maps

A finite map whose entries are kept in strictly increasing key order. The order
is part of the type, so two maps with the same lookups are the same value and
reading the entries off gives them sorted.

- `StrictOrder κ`: the laws of a strict total order on the keys.
- `OrderedMap κ α`: the map, with its entries and the proof that they increase.
- `get?`, `insert`, `erase`, `ofList`, `keys`: lookup, overwrite, removal,
  construction (the last of several equal keys wins) and the sorted keys.

The lookup lemmas `get?_insert`, `get?_erase` and the extensionality
principle `ext_get?` are all that users of the type need.
-/

namespace StatusWatch

/-- A strict total order: the laws that make sorted key lists canonical. -/
class StrictOrder (κ : Type) [LT κ] : Prop where
  irrefl : ∀ a : κ, ¬ a < a
  trans : ∀ {a b c : κ}, a < b → b < c → a < c
  connected : ∀ {a b : κ}, ¬ a < b → ¬ b < a → a = b

/-- Text is ordered by code points. -/
instance : StrictOrder String where
  irrefl := String.lt_irrefl
  trans := String.lt_trans
  connected h₁ h₂ := String.le_antisymm (String.not_lt.1 h₂) (String.not_lt.1 h₁)

/-- A finite map with strictly increasing keys. -/
structure OrderedMap (κ α : Type) [LT κ] where
  entries : List (κ × α)
  increasing : entries.Pairwise fun a b => a.1 < b.1

namespace OrderedMap

variable {κ α : Type} [LT κ]

instance [DecidableEq κ] [DecidableEq α] : DecidableEq (OrderedMap κ α)
  | ⟨a, _⟩, ⟨b, _⟩ =>
    if h : a = b then isTrue (by subst h; rfl)
    else isFalse fun e => h (congrArg OrderedMap.entries e)

/-- The map without entries. -/
def empty : OrderedMap κ α := ⟨[], List.Pairwise.nil⟩

instance : EmptyCollection (OrderedMap κ α) := ⟨empty⟩
instance : Inhabited (OrderedMap κ α) := ⟨empty⟩

@[simp] theorem entries_empty : (∅ : OrderedMap κ α).entries = [] := rfl

def isEmpty (m : OrderedMap κ α) : Bool := m.entries.isEmpty

def size (m : OrderedMap κ α) : Nat := m.entries.length

/-- The keys in increasing order. -/
def keys (m : OrderedMap κ α) : List κ := m.entries.map (·.1)

/-- The values in the order of their keys. -/
def values (m : OrderedMap κ α) : List α := m.entries.map (·.2)

/-! ## Lookup -/

/-- The value under `k` in a list of entries, the first one if there are several. -/
def find? [DecidableEq κ] (k : κ) : List (κ × α) → Option α
  | [] => none
  | (k', v) :: rest => if k' = k then some v else find? k rest

def get? [DecidableEq κ] (m : OrderedMap κ α) (k : κ) : Option α := find? k m.entries

def contains [DecidableEq κ] (m : OrderedMap κ α) (k : κ) : Bool := (m.get? k).isSome

@[simp] theorem get?_empty [DecidableEq κ] (k : κ) : (∅ : OrderedMap κ α).get? k = none := rfl

omit [LT κ] in
theorem find?_eq_none_of_forall [DecidableEq κ] {k : κ} {l : List (κ × α)}
    (h : ∀ e ∈ l, e.1 ≠ k) : find? k l = none := by
  induction l with
  | nil => rfl
  | cons e l ih =>
    simp only [find?, h e (by simp), if_false]
    exact ih fun e' he' => h e' (by simp [he'])

/-! ## Removal -/

/-- Drop the entry under `k`, if there is one. -/
def erase [DecidableEq κ] (m : OrderedMap κ α) (k : κ) : OrderedMap κ α :=
  ⟨m.entries.filter fun e => e.1 ≠ k, m.increasing.filter _⟩

omit [LT κ] in
theorem find?_filter_ne [DecidableEq κ] (k k' : κ) (l : List (κ × α)) :
    find? k' (l.filter fun e => e.1 ≠ k) = if k = k' then none else find? k' l := by
  induction l with
  | nil => simp [find?]
  | cons e l ih =>
    rw [List.filter_cons]
    by_cases h : e.1 = k
    · rw [if_neg (by simp [h]), ih]
      by_cases h' : k = k' <;> simp [find?, h, h']
    · rw [if_pos (by simp [h])]
      simp only [find?, ih]
      by_cases h' : e.1 = k'
      · have : k ≠ k' := fun e' => h (h'.trans e'.symm)
        simp [h', this]
      · simp [h']

@[simp] theorem get?_erase [DecidableEq κ] (m : OrderedMap κ α) (k k' : κ) :
    (m.erase k).get? k' = if k = k' then none else m.get? k' :=
  find?_filter_ne k k' m.entries

/-! ## Insertion -/

/-- Put `v` under `k` in a list of increasing keys, replacing what is there. -/
def place [DecidableLT κ] [DecidableEq κ] (k : κ) (v : α) : List (κ × α) → List (κ × α)
  | [] => [(k, v)]
  | (k', v') :: rest =>
    if k < k' then (k, v) :: (k', v') :: rest
    else if k = k' then (k, v) :: rest
    else (k', v') :: place k v rest

theorem mem_place [DecidableLT κ] [DecidableEq κ] {k : κ} {v : α} {e : κ × α} :
    ∀ {l : List (κ × α)}, e ∈ place k v l → e = (k, v) ∨ e ∈ l
  | [], h => by simpa [place] using h
  | (k', v') :: rest, h => by
    unfold place at h
    split at h
    · simpa using h
    · split at h
      · rcases List.mem_cons.1 h with h | h
        · exact Or.inl h
        · exact Or.inr (List.mem_cons_of_mem _ h)
      · rcases List.mem_cons.1 h with h | h
        · exact Or.inr (h ▸ List.mem_cons_self)
        · rcases mem_place h with h | h
          · exact Or.inl h
          · exact Or.inr (List.mem_cons_of_mem _ h)

theorem place_increasing [DecidableLT κ] [DecidableEq κ] [StrictOrder κ] (k : κ) (v : α) :
    ∀ {l : List (κ × α)}, (l.Pairwise fun a b => a.1 < b.1) →
      (place k v l).Pairwise fun a b => a.1 < b.1
  | [], _ => by simp [place]
  | (k', v') :: rest, h => by
    have hr := (List.pairwise_cons.1 h).1
    unfold place
    split
    · rename_i hlt
      refine List.pairwise_cons.2 ⟨fun e he => ?_, h⟩
      rcases List.mem_cons.1 he with he | he
      · exact he ▸ hlt
      · exact StrictOrder.trans hlt (hr e he)
    · split
      · rename_i heq
        exact List.pairwise_cons.2 ⟨fun e he => heq ▸ hr e he, (List.pairwise_cons.1 h).2⟩
      · rename_i hlt hne
        have hgt : k' < k := Classical.byContradiction fun hc =>
          hne (StrictOrder.connected hlt hc)
        refine List.pairwise_cons.2
          ⟨fun e he => ?_, place_increasing k v (List.pairwise_cons.1 h).2⟩
        rcases mem_place he with he | he
        · exact he ▸ hgt
        · exact hr e he

/-- Put `v` under `k`, replacing what is there. -/
def insert [DecidableLT κ] [DecidableEq κ] [StrictOrder κ]
    (m : OrderedMap κ α) (k : κ) (v : α) : OrderedMap κ α :=
  ⟨place k v m.entries, place_increasing k v m.increasing⟩

theorem find?_place [DecidableLT κ] [DecidableEq κ] (k k' : κ) (v : α) :
    ∀ l : List (κ × α), find? k' (place k v l) = if k = k' then some v else find? k' l
  | [] => by simp [place, find?]
  | (k₀, v₀) :: rest => by
    unfold place
    split
    · simp [find?]
    · split
      · rename_i heq
        subst heq
        by_cases h' : k = k' <;> simp [find?, h']
      · rename_i hne
        simp only [find?, find?_place k k' v rest]
        by_cases h₀ : k₀ = k'
        · subst h₀
          simp [hne]
        · simp [h₀]

@[simp] theorem get?_insert [DecidableLT κ] [DecidableEq κ] [StrictOrder κ]
    (m : OrderedMap κ α) (k k' : κ) (v : α) :
    (m.insert k v).get? k' = if k = k' then some v else m.get? k' :=
  find?_place k k' v m.entries

/-- The map of a list of pairs; the last of several equal keys wins. -/
def ofList [DecidableLT κ] [DecidableEq κ] [StrictOrder κ] (l : List (κ × α)) : OrderedMap κ α :=
  l.foldl (fun m e => m.insert e.1 e.2) ∅

/-- Keep the entries whose key and value pass the test. -/
def filter (p : κ → α → Bool) (m : OrderedMap κ α) : OrderedMap κ α :=
  ⟨m.entries.filter fun e => p e.1 e.2, m.increasing.filter _⟩

/-- Change the value under `k`, if there is one. -/
def modify [DecidableEq κ] (m : OrderedMap κ α) (k : κ) (f : α → α) : OrderedMap κ α :=
  ⟨m.entries.map fun e => if e.1 = k then (e.1, f e.2) else e, by
    refine List.pairwise_map.2 (m.increasing.imp fun {a b} h => ?_)
    simpa [apply_ite Prod.fst] using h⟩

/-! ## Extensionality -/

theorem mem_entries_iff [DecidableEq κ] [StrictOrder κ] (m : OrderedMap κ α) (k : κ) (v : α) :
    (k, v) ∈ m.entries ↔ m.get? k = some v := by
  obtain ⟨l, h⟩ := m
  unfold get?
  induction l with
  | nil => simp [find?]
  | cons e l ih =>
    obtain ⟨k₀, v₀⟩ := e
    have hr := (List.pairwise_cons.1 h).1
    have ih := ih (List.pairwise_cons.1 h).2
    by_cases h₀ : k₀ = k
    · subst h₀
      simp only [find?, if_true, Option.some.injEq, List.mem_cons, Prod.mk.injEq, true_and]
      refine ⟨fun hm => hm.elim Eq.symm fun hm => ?_, fun e => Or.inl e.symm⟩
      exact absurd (hr _ hm) (StrictOrder.irrefl k₀)
    · simp only [find?, h₀, if_false, List.mem_cons, Prod.mk.injEq, Ne.symm h₀, false_and, false_or]
      exact ih

/-- Lists with increasing keys are equal as soon as they have the same entries. -/
theorem eq_of_same_entries [StrictOrder κ] :
    ∀ {l l' : List (κ × α)}, (l.Pairwise fun a b => a.1 < b.1) →
      (l'.Pairwise fun a b => a.1 < b.1) → (∀ e, e ∈ l ↔ e ∈ l') → l = l'
  | [], [], _, _, _ => rfl
  | [], e :: _, _, _, h => by simpa using (h e).2
  | e :: _, [], _, _, h => by simpa using (h e).1
  | e :: l, e' :: l', hl, hl', h => by
    have hr := (List.pairwise_cons.1 hl).1
    have hr' := (List.pairwise_cons.1 hl').1
    have heq : e = e' := by
      rcases List.mem_cons.1 ((h e).1 List.mem_cons_self) with he | he
      · exact he
      · rcases List.mem_cons.1 ((h e').2 List.mem_cons_self) with he' | he'
        · exact he'.symm
        · exact absurd (StrictOrder.trans (hr _ he') (hr' _ he)) (StrictOrder.irrefl _)
    subst heq
    refine congrArg (e :: ·) (eq_of_same_entries (List.pairwise_cons.1 hl).2
      (List.pairwise_cons.1 hl').2 fun x => ⟨fun hx => ?_, fun hx => ?_⟩)
    · rcases List.mem_cons.1 ((h x).1 (List.mem_cons_of_mem _ hx)) with hx' | hx'
      · exact absurd (hx' ▸ hr x hx) (StrictOrder.irrefl _)
      · exact hx'
    · rcases List.mem_cons.1 ((h x).2 (List.mem_cons_of_mem _ hx)) with hx' | hx'
      · exact absurd (hx' ▸ hr' x hx) (StrictOrder.irrefl _)
      · exact hx'

/-- Maps with the same lookups are the same map. -/
theorem ext_get? [DecidableEq κ] [StrictOrder κ] {m m' : OrderedMap κ α}
    (h : ∀ k, m.get? k = m'.get? k) : m = m' := by
  have he : m.entries = m'.entries :=
    eq_of_same_entries m.increasing m'.increasing fun e => by
      rw [m.mem_entries_iff, m'.mem_entries_iff, h]
  cases m
  cases m'
  simpa using he

end OrderedMap

end StatusWatch
