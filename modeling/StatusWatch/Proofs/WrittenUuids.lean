import Mathlib.Algebra.GroupWithZero.Nat
import Mathlib.Data.List.Basic
import StatusWatch.Uuid

/-!
# Identifiers as they are written

An identifier may be read from several forms: with hyphens or without, in braces, after a label,
in either case. The text that is written for it is one of them, so it is read back as that
identifier.

- `digit?_hexChar`, `filterMap_digit?`: digits are read back.
- `unwrap?_of_digit`: a text that begins with a digit is not enclosed in anything.
- `groups`, `hyphenated_eq`: what stands between the hyphens.
- `parse_render`: the round trip.
-/

namespace StatusWatch.Uuid

/-! ## Digits -/

theorem digit?_hexChar : ∀ d : Fin 16, digit? (hexChar d) = some d := by decide

theorem hexChar_ne_hyphen : ∀ d : Fin 16, hexChar d ≠ '-' := by decide

theorem filterMap_digit? (ds : List (Fin 16)) : (ds.map hexChar).filterMap digit? = ds := by
  rw [List.filterMap_map]
  exact (List.filterMap_congr fun d _ => digit?_hexChar d).trans List.filterMap_some

/-- Neither a brace nor the label begins with a digit. -/
theorem unwrap?_of_digit (d : Fin 16) (cs : List Char) : unwrap? (hexChar d :: cs) = none := by
  have hbrace : ∀ d : Fin 16, hexChar d ≠ '\x7b' := by decide
  have hlabel : ∀ d : Fin 16, (hexChar d).toLower ≠ 'u' := by decide
  unfold unwrap?
  rw [if_neg, if_neg]
  · intro h
    exact hlabel d (List.cons.inj h).1
  · rintro ⟨h, -⟩
    exact hbrace d (Option.some.inj h)

/-! ## Groups -/

/-- The groups of the given lengths, one after the other. -/
def groups : List Nat → List Char → List (List Char)
  | [], _ => []
  | n :: ns, cs => cs.take n :: groups ns (cs.drop n)

theorem hyphenated_eq (ns : List Nat) : ∀ cs : List Char,
    hyphenated ns cs = ['-'].intercalate (groups ns cs) := by
  induction ns with
  | nil => exact fun _ => rfl
  | cons n ns ih =>
    intro cs
    -- the last group has no hyphen behind it
    cases ns with
    | nil => simp [hyphenated, groups, List.intercalate]
    | cons m ns =>
      show cs.take n ++ '-' :: hyphenated (m :: ns) (cs.drop n) = _
      rw [ih]
      rfl

/-- Groups that use up the digits have their lengths and hold all digits. -/
theorem map_length_groups (ns : List Nat) : ∀ cs : List Char, cs.length = ns.sum →
    (groups ns cs).map List.length = ns ∧ (groups ns cs).flatten = cs := by
  induction ns with
  | nil =>
    intro cs h
    exact ⟨rfl, (List.length_eq_zero_iff.mp h).symm⟩
  | cons n ns ih =>
    intro cs h
    rw [List.sum_cons] at h
    obtain ⟨hlengths, hflatten⟩ := ih (cs.drop n) (by rw [List.length_drop]; omega)
    constructor
    · rw [groups, List.map_cons, hlengths, List.length_take, Nat.min_eq_left (by omega)]
    · rw [groups, List.flatten_cons, hflatten, List.take_append_drop]

theorem mem_groups {ns : List Nat} : ∀ {cs g : List Char} {c : Char},
    g ∈ groups ns cs → c ∈ g → c ∈ cs := by
  induction ns with
  | nil =>
    intro cs g c hg
    cases hg
  | cons n ns ih =>
    intro cs g c hg hc
    rcases List.mem_cons.mp hg with rfl | hg
    · exact List.mem_of_mem_take hc
    · exact List.mem_of_mem_drop (ih hg hc)

/-! ## Identifiers -/

theorem ofChars?_digits (u : Uuid) : ofChars? (u.digits.map hexChar) = some u := by
  unfold ofChars?
  simp only [filterMap_digit?, List.length_map, u.length_digits, dite_true, if_true]

/-- What is written for an identifier is read back as that identifier. -/
theorem parse_render (u : Uuid) : parse u.render = .ok u := by
  let hs := u.digits.map hexChar
  have hlength : hs.length = groupLengths.sum := (List.length_map _).trans u.length_digits
  obtain ⟨hlengths, hflatten⟩ := map_length_groups groupLengths hs hlength
  have htext : u.render.toList = ['-'].intercalate (groups groupLengths hs) := by
    rw [render, String.toList_ofList, hyphenated_eq]
  have hsplit : u.render.toList.splitOn '-' = groups groupLengths hs := by
    rw [htext]
    refine List.splitOn_intercalate '-' (fun g hg hmem => ?_) (by simp [groups, groupLengths])
    obtain ⟨d, -, hd⟩ := List.mem_map.mp (mem_groups hg hmem)
    exact hexChar_ne_hyphen d hd
  -- the text begins with a digit, so it is not enclosed
  have hopen : unwrap? u.render.toList = none := by
    obtain ⟨d, ds, hdigits⟩ := List.exists_cons_of_length_eq_add_one u.length_digits
    rw [htext]
    show unwrap? (hs.take 8 ++ _) = none
    rw [show hs = hexChar d :: ds.map hexChar by simp only [hs, hdigits, List.map_cons]]
    exact unwrap?_of_digit d _
  have hgrouped : ofGroups? (groups groupLengths hs) = some u := by
    rw [ofGroups?, if_pos hlengths, hflatten]
    exact ofChars?_digits u
  unfold parse
  simp only [hopen, Option.getD_none, hsplit, hgrouped]
  rfl

end StatusWatch.Uuid
