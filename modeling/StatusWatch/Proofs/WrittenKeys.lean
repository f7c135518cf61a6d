import Mathlib.Data.List.DropRight
import Mathlib.Data.Set.Function
import StatusWatch.ResourceKey

/-!
# Keys as text

The text of a key has the separator only if there is a namespace, but reading accepts it
with an empty namespace too. So neither function undoes the other everywhere, and this
module says what each of them does to the other's results.

- `separators`, `nameIn`: what of a text decides whether it is a key.
- `text_cases`: a text has no separator, one, or more.
- `parse_separated`, `parse_tooMany`: what is read in each case.
- `Plain`: the keys that are read as they were written.
- `parse_render_iff`: reading undoes writing for plain keys and for no others.
- `reading_and_writing`: all of it together.
-/

namespace StatusWatch.ResourceKey

/-! ## Texts -/

/-- How many separators a text has. -/
def separators (text : String) : Nat := text.toList.count '/'

/-- What follows the last separator, or all of the text if there is none. -/
def nameIn (text : String) : String := String.ofList (text.toList.rtakeWhile (· ≠ '/'))

/-- What precedes the last separator, or nothing if there is none. -/
def namespaceIn (text : String) : String :=
  String.ofList (GroupKind.beforeLastSeparator text.toList)

/-- The text without a separator at its start. -/
def withoutLeading (text : String) : String :=
  if text.toList.head? = some '/' then String.ofList text.toList.tail else text

/-- A text without separators. -/
def Unseparated (text : String) : Prop := '/' ∉ text.toList

instance (text : String) : Decidable (Unseparated text) :=
  inferInstanceAs (Decidable ('/' ∉ text.toList))

theorem unseparated_iff {text : String} : Unseparated text ↔ separators text = 0 :=
  List.count_eq_zero.symm

theorem unseparated_empty : Unseparated "" := by decide

@[simp] theorem separators_append (a b : String) :
    separators (a ++ b) = separators a + separators b := by
  simp [separators]

@[simp] theorem separators_separator : separators "/" = 1 := by decide

/-- A text has no separator, one, or more. -/
theorem text_cases (text : String) :
    Unseparated text ∨
    (∃ ns name, text = ns ++ "/" ++ name ∧ Unseparated ns ∧ Unseparated name) ∨
    ∃ a b c, text = a ++ "/" ++ b ++ "/" ++ c ∧ Unseparated a ∧ Unseparated b := by
  -- by the first two separators; what follows the second may hold more
  by_cases hnone : Unseparated text
  · exact Or.inl hnone
  · obtain ⟨before, after, hsplit, hbefore⟩ :=
      List.eq_append_cons_of_mem (Classical.not_not.mp hnone)
    by_cases hone : '/' ∈ after
    · obtain ⟨between, rest, hrest, hbetween⟩ := List.eq_append_cons_of_mem hone
      refine Or.inr (Or.inr ⟨String.ofList before, String.ofList between, String.ofList rest,
        String.toList_inj.mp ?_, ?_, ?_⟩)
      · simp [hsplit, hrest]
      · simpa [Unseparated] using hbefore
      · simpa [Unseparated] using hbetween
    · refine Or.inr (Or.inl ⟨String.ofList before, String.ofList after,
        String.toList_inj.mp ?_, ?_, ?_⟩)
      · simp [hsplit]
      · simpa [Unseparated] using hbefore
      · simpa [Unseparated] using hone

theorem splitOn_separated {a : String} (h : Unseparated a) (b : String) :
    (a ++ "/" ++ b).toList.splitOn '/' = a.toList :: b.toList.splitOn '/' := by
  rw [← List.splitOn_append_cons_self_of_not_mem h]
  simp

theorem Unseparated.of_mem_reverse {text : String} (h : Unseparated text) :
    ∀ c ∈ text.toList.reverse, decide (c ≠ '/') = true := fun _ hc =>
  decide_eq_true fun e => h (e ▸ List.mem_reverse.mp hc)

theorem reverse_separated (a b : String) :
    (a ++ "/" ++ b).toList.reverse = b.toList.reverse ++ '/' :: a.toList.reverse := by
  simp

theorem nameIn_unseparated {text : String} (h : Unseparated text) : nameIn text = text := by
  have hall : text.toList.rtakeWhile (· ≠ '/') = text.toList :=
    List.rtakeWhile_eq_self_iff.mpr fun c hc => h.of_mem_reverse c (List.mem_reverse.mpr hc)
  rw [nameIn, hall, String.ofList_toList]

theorem nameIn_separated (a : String) {b : String} (h : Unseparated b) :
    nameIn (a ++ "/" ++ b) = b := by
  rw [nameIn, List.rtakeWhile, reverse_separated, List.takeWhile_append_of_pos h.of_mem_reverse]
  simp

/-! ## Reading -/

theorem parse_unseparated {text : String} (h : Unseparated text) :
    parse text = if text = "" then .error .empty else .ok ⟨"", text⟩ := by
  rw [parse, List.splitOn_eq_singleton h]
  by_cases he : text = ""
  · rw [if_pos he, if_pos he]
  · rw [if_neg he, if_neg he]
    simp [parse.ofSegments, he]

theorem parse_separated {ns name : String} (hns : Unseparated ns) (hname : Unseparated name) :
    parse (ns ++ "/" ++ name) =
      if name = "" then .error (.emptyName (ns ++ "/" ++ name)) else .ok ⟨ns, name⟩ := by
  have hne : ns ++ "/" ++ name ≠ "" := by simp
  rw [parse, if_neg hne, splitOn_separated hns, List.splitOn_eq_singleton hname]
  simp [parse.ofSegments]

theorem parse_tooMany {a b : String} (ha : Unseparated a) (hb : Unseparated b) (c : String) :
    parse (a ++ "/" ++ b ++ "/" ++ c) =
      .error (.tooManySegments (a ++ "/" ++ b ++ "/" ++ c)) := by
  have hne : a ++ "/" ++ b ++ "/" ++ c ≠ "" := by simp
  have hsplit : (a ++ "/" ++ b ++ "/" ++ c).toList.splitOn '/' =
      a.toList :: b.toList :: c.toList.splitOn '/' := by
    rw [show a ++ "/" ++ b ++ "/" ++ c = a ++ "/" ++ (b ++ "/" ++ c) by simp [String.append_assoc],
      splitOn_separated ha, splitOn_separated hb]
  rw [parse, if_neg hne, hsplit]
  cases hrest : c.toList.splitOn '/' with
  | nil => exact absurd hrest (List.splitOn_ne_nil _ _)
  | cons d ds => rfl

theorem namespaceIn_unseparated {text : String} (h : Unseparated text) :
    namespaceIn text = "" := by
  rw [namespaceIn, GroupKind.beforeLastSeparator, List.dropWhile_eq_nil_iff.mpr h.of_mem_reverse]
  rfl

theorem namespaceIn_separated (a : String) {b : String} (h : Unseparated b) :
    namespaceIn (a ++ "/" ++ b) = a := by
  rw [namespaceIn, GroupKind.beforeLastSeparator, reverse_separated,
    List.dropWhile_append_of_pos h.of_mem_reverse]
  simp

/-- What is read of a text, by its separators and its name. -/
theorem parse_eq (text : String) :
    parse text =
      if text = "" then .error .empty
      else if 2 ≤ separators text then .error (.tooManySegments text)
      else if nameIn text = "" then .error (.emptyName text)
      else .ok ⟨namespaceIn text, nameIn text⟩ := by
  rcases text_cases text with h | ⟨ns, name, rfl, hns, hname⟩ | ⟨a, b, c, rfl, ha, hb⟩
  · rw [parse_unseparated h, unseparated_iff.mp h, nameIn_unseparated h, namespaceIn_unseparated h]
    by_cases he : text = "" <;> simp [he]
  · have hone : separators (ns ++ "/" ++ name) = 1 := by
      simp [unseparated_iff.mp hns, unseparated_iff.mp hname]
    rw [parse_separated hns hname, hone, nameIn_separated ns hname, namespaceIn_separated ns hname]
    simp
  · have htwo : 2 ≤ separators (a ++ "/" ++ b ++ "/" ++ c) := by
      simp only [separators_append, separators_separator]
      omega
    rw [parse_tooMany ha hb, if_neg (by simp), if_pos htwo]

/-! ## Reading what was written, and writing what was read -/

/-- A key with a name, and without separators in it. -/
structure Plain (k : ResourceKey) : Prop where
  named : k.name ≠ ""
  ns : Unseparated k.ns
  name : Unseparated k.name

theorem parse_render {k : ResourceKey} (h : k.Plain) : parse k.render = .ok k := by
  obtain ⟨ns, name⟩ := k
  show parse (if ns = "" then name else ns ++ "/" ++ name) = _
  by_cases hns : ns = ""
  · rw [if_pos hns, parse_unseparated h.name, if_neg h.named, hns]
  · rw [if_neg hns, parse_separated h.ns h.name, if_neg h.named]

/-- A key that is read is plain, and the text is the written key with at most a separator in
front of it. -/
theorem parse_eq_ok_iff {text : String} {k : ResourceKey} :
    parse text = .ok k ↔
      k.Plain ∧ (text = k.render ∨ k.ns = "" ∧ text = "/" ++ k.render) := by
  constructor
  · intro h
    rcases text_cases text with hnone | ⟨ns, name, rfl, hns, hname⟩ | ⟨a, b, c, rfl, ha, hb⟩
    · rw [parse_unseparated hnone] at h
      split at h
      · cases h
      · rename_i hne
        cases h
        exact ⟨⟨hne, unseparated_empty, hnone⟩, Or.inl rfl⟩
    · rw [parse_separated hns hname] at h
      split at h
      · cases h
      · rename_i hne
        cases h
        refine ⟨⟨hne, hns, hname⟩, ?_⟩
        -- a separator may stand behind an empty namespace, but none is ever written there
        by_cases hempty : ns = ""
        · exact Or.inr ⟨hempty, by simp [render, hempty]⟩
        · exact Or.inl (by simp [render, hempty])
    · rw [parse_tooMany ha hb] at h
      cases h
  · rintro ⟨hplain, rfl | ⟨hns, rfl⟩⟩
    · exact parse_render hplain
    · obtain ⟨ns, name⟩ := k
      obtain rfl : ns = "" := hns
      have hread := parse_separated unseparated_empty hplain.name
      rw [if_neg hplain.named] at hread
      simpa [render] using hread

/-- Reading undoes writing for plain keys and for no others. -/
theorem parse_render_iff {k : ResourceKey} : parse k.render = .ok k ↔ k.Plain :=
  ⟨fun h => (parse_eq_ok_iff.mp h).1, parse_render⟩

/-- A written plain key does not start with a separator. -/
theorem head?_render {k : ResourceKey} (h : k.Plain) : k.render.toList.head? ≠ some '/' := by
  obtain ⟨ns, name⟩ := k
  show (if ns = "" then name else ns ++ "/" ++ name).toList.head? ≠ some '/'
  by_cases hns : ns = ""
  · rw [if_pos hns]
    exact fun hhead => h.name (List.mem_of_head? hhead)
  · rw [if_neg hns]
    intro hhead
    refine h.ns (List.mem_of_head? ?_)
    have hne : ns.toList ≠ [] := fun e => hns (String.toList_eq_nil_iff.mp e)
    rw [String.toList_append, String.toList_append, List.append_assoc,
      List.head?_append_of_ne_nil _ hne] at hhead
    exact hhead

/-- What was read is written as the text, less a separator at its start. -/
theorem render_of_parse {text : String} {k : ResourceKey} (h : parse text = .ok k) :
    k.render = withoutLeading text := by
  obtain ⟨hplain, rfl | ⟨-, rfl⟩⟩ := parse_eq_ok_iff.mp h
  · rw [withoutLeading, if_neg (head?_render hplain)]
  · simp [withoutLeading]

/-- Different plain keys are written differently. -/
theorem render_injOn : Set.InjOn render {k | k.Plain} := by
  intro a ha b hb heq
  have hread := parse_render ha
  rw [heq, parse_render hb] at hread
  cases hread
  rfl

/-! ## All of it -/

/-- What reading does to a text. -/
structure Reading (text : String) : Prop where
  /-- Keys have at most one separator, and a name behind it. -/
  accepted : (∃ k, parse text = .ok k) ↔ separators text ≤ 1 ∧ nameIn text ≠ ""
  empty : parse text = .error .empty ↔ text = ""
  tooMany : parse text = .error (.tooManySegments text) ↔ 2 ≤ separators text
  emptyName : parse text = .error (.emptyName text) ↔
    text ≠ "" ∧ separators text ≤ 1 ∧ nameIn text = ""
  /-- The key that is read is written as the text, less a separator at its start. -/
  rewritten : ∀ k, parse text = .ok k → k.render = withoutLeading text ∧ parse k.render = .ok k

theorem reading (text : String) : Reading text := by
  have hblank : text = "" → separators text = 0 ∧ nameIn text = "" := by
    rintro rfl
    exact ⟨by decide, by decide⟩
  refine ⟨?_, ?_, ?_, ?_, fun k hk => ⟨render_of_parse hk, parse_render (parse_eq_ok_iff.mp hk).1⟩⟩
  all_goals
    rw [parse_eq]
    split_ifs <;> grind

/-- A text is read as a key exactly if it has at most one separator and a name behind it, and
else refused for the reason that applies. What is read is written as the text, less a
separator at its start, and what is written is read back exactly if it is plain. -/
theorem reading_and_writing :
    (∀ text, Reading text) ∧ (∀ k : ResourceKey, parse k.render = .ok k ↔ k.Plain) ∧
      Set.InjOn render {k : ResourceKey | k.Plain} :=
  ⟨reading, fun _ => parse_render_iff, render_injOn⟩

end StatusWatch.ResourceKey
