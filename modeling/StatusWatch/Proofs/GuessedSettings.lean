import StatusWatch.Proofs.RoundedNumbers
import StatusWatch.Proofs.WrittenTimes
import StatusWatch.Settings.Environment

/-!
# Guessed types

The text of a variable is taken for a truth value, a whole number or a float if it is written like
one, whatever the setting it is meant for, and converted to the type of that setting afterwards.
Truth values and whole numbers of 63 bits pass both steps unharmed. A larger number passes through
the nearest float, a text takes the form in which the scalar is written that it was taken for, and
joined keys are a list again unless there is only one and it looks like a scalar.

- `readInt?_toString`, `read?_of_isDigit`: digits are read as the number they were made of.
- `readInt?_of_comma`, `read?_of_comma`: no number has a comma in it.
- `guess?`, `settingValue_eq`: what a text is taken for, apart from the setting it is meant for.
- `Kept`, `reread_eq_iff`, `kept_iff`: the texts that come back as they were.
- `KeptNumber`, `rereadNumber_eq_iff`: the numbers that do.
- `Separable`, `asTexts?_of_separable`, `asTexts?_of_not_separable`: the keys that do.
-/

namespace StatusWatch

/-! ## Digits and marks -/

namespace Decimal

variable {cs ds : List Char} {c : Char}

theorem toNat_lt_of_isDigit (h : c.isDigit = true) : c.toNat < 65 := by
  have hrange : 48 ≤ c.toNat ∧ c.toNat ≤ 57 := by
    simpa [Char.isDigit, UInt32.le_iff_toNat_le] using h
  omega

theorem toLower_of_lt (h : c.toNat < 65) : c.toLower = c := by
  unfold Char.toLower
  rw [dif_neg]
  rintro ⟨hle, -⟩
  have hletter : 65 ≤ c.toNat := hle
  omega

/-- A text with a digit or a mark in it is no word, whatever the case of its letters. -/
theorem ofList_map_toLower_ne (word : List Char) (hword : ∀ d ∈ word, 65 ≤ d.toNat) (hmem : c ∈ cs)
    (hlow : c.toNat < 65) : String.ofList (cs.map Char.toLower) ≠ String.ofList word := by
  intro h
  have hlower : c.toLower ∈ word := by
    rw [← String.ofList_inj.mp h]
    exact List.mem_map_of_mem hmem
  rw [toLower_of_lt hlow] at hlower
  exact absurd (hword c hlower) (by omega)

theorem toDigits_ne_nil (n : Nat) : Nat.toDigits 10 n ≠ [] :=
  List.length_pos_iff.mp Nat.length_toDigits_pos

theorem isDigit_toDigits (n : Nat) : ∀ c ∈ Nat.toDigits 10 n, c.isDigit = true :=
  fun _ => Nat.isDigit_of_mem_toDigits (by decide) (by decide)

/-! ## Reading digits -/

theorem readSign_of_isDigit (hdigits : ∀ c ∈ ds, c.isDigit = true) : readSign ds = (false, ds) := by
  cases ds with
  | nil => rfl
  | cons c ds =>
    have hminus : c ≠ '-' := fun h => absurd (hdigits c List.mem_cons_self) (by rw [h]; decide)
    have hplus : c ≠ '+' := fun h => absurd (hdigits c List.mem_cons_self) (by rw [h]; decide)
    simp [readSign, hminus, hplus]

theorem readInt?_of_isDigit (hne : ds ≠ []) (hdigits : ∀ c ∈ ds, c.isDigit = true) :
    readInt? ds = some (natOfDigits ds : Int) := by
  simp [readInt?, readSign_of_isDigit hdigits, readNat?, hne, List.all_eq_true.mpr hdigits]

theorem readInt?_minus (hne : ds ≠ []) (hdigits : ∀ c ∈ ds, c.isDigit = true) :
    readInt? ('-' :: ds) = some (-(natOfDigits ds : Int)) := by
  simp [readInt?, readSign, readNat?, hne, List.all_eq_true.mpr hdigits]

theorem toList_toString_natCast (n : Nat) : (toString (n : Int)).toList = Nat.toDigits 10 n :=
  Nat.toList_repr

theorem toList_toString_negSucc (n : Nat) :
    (toString (Int.negSucc n)).toList = '-' :: Nat.toDigits 10 (n + 1) := by
  show ("-" ++ Nat.repr (n + 1)).toList = _
  rw [String.toList_append, Nat.toList_repr]
  rfl

/-- A whole number is read back. -/
theorem readInt?_toString (n : Int) : readInt? (toString n).toList = some n := by
  cases n with
  | ofNat n =>
    rw [Int.ofNat_eq_natCast, toList_toString_natCast,
      readInt?_of_isDigit (toDigits_ne_nil n) (isDigit_toDigits n), natOfDigits_toDigits]
  | negSucc n =>
    rw [toList_toString_negSucc, readInt?_minus (toDigits_ne_nil _) (isDigit_toDigits _),
      natOfDigits_toDigits]
    rfl

theorem exists_low_of_toString (n : Int) : ∃ c ∈ (toString n).toList, c.toNat < 65 := by
  cases n with
  | ofNat n =>
    rw [Int.ofNat_eq_natCast, toList_toString_natCast]
    obtain ⟨c, hc⟩ := List.exists_mem_of_ne_nil _ (toDigits_ne_nil n)
    exact ⟨c, hc, toNat_lt_of_isDigit (isDigit_toDigits n c hc)⟩
  | negSucc n =>
    rw [toList_toString_negSucc]
    exact ⟨'-', List.mem_cons_self, by decide⟩

/-- A text that is no word is a number or nothing. -/
theorem read?_of_low {negative : Bool} {rest : List Char} (hsign : readSign cs = (negative, rest))
    (hmem : c ∈ rest) (hlow : c.toNat < 65) :
    read? cs = (readUnsigned? rest).map fun x => if negative then -x else x := by
  -- the words for special values have letters only
  have hinf := ofList_map_toLower_ne ['i', 'n', 'f'] (by simp) hmem hlow
  have hinfinity :=
    ofList_map_toLower_ne ['i', 'n', 'f', 'i', 'n', 'i', 't', 'y'] (by simp) hmem hlow
  have hnan := ofList_map_toLower_ne ['n', 'a', 'n'] (by simp) hmem hlow
  unfold read?
  rw [hsign]
  cases negative <;> simp only [Bool.false_eq_true, if_false, if_true]

theorem readUnsigned?_of_isDigit (hne : ds ≠ []) (hdigits : ∀ c ∈ ds, c.isDigit = true) :
    readUnsigned? ds = some (nearest (natOfDigits ds) 0) := by
  simp [readUnsigned?, List.takeWhile_eq_self_iff.mpr hdigits,
    List.dropWhile_eq_nil_iff.mpr hdigits, hne, readExponent?]

theorem read?_of_isDigit (hne : ds ≠ []) (hdigits : ∀ c ∈ ds, c.isDigit = true) :
    read? ds = some (nearest (natOfDigits ds) 0) := by
  obtain ⟨c, hc⟩ := List.exists_mem_of_ne_nil ds hne
  rw [read?_of_low (readSign_of_isDigit hdigits) hc (toNat_lt_of_isDigit (hdigits c hc)),
    readUnsigned?_of_isDigit hne hdigits]
  rfl

/-! ## Commas -/

theorem mem_readSign (hmem : c ∈ cs) (hminus : c ≠ '-') (hplus : c ≠ '+') :
    c ∈ (readSign cs).2 := by
  unfold readSign
  split
  · exact (List.mem_cons.mp hmem).resolve_left hminus
  · exact (List.mem_cons.mp hmem).resolve_left hplus
  · exact hmem

theorem readInt?_of_comma (h : ',' ∈ cs) : readInt? cs = none := by
  have hmem := mem_readSign h (by decide) (by decide)
  have hall : (readSign cs).2.all Char.isDigit = false :=
    List.all_eq_false.mpr ⟨',', hmem, by decide⟩
  simp [readInt?, readNat?, hall]

theorem mem_dropWhile_of_neg {p : Char → Bool} (h : c ∈ cs) (hp : p c = false) :
    c ∈ cs.dropWhile p := by
  rw [← List.takeWhile_append_dropWhile (p := p) (l := cs)] at h
  refine (List.mem_append.mp h).resolve_left fun htake => ?_
  rw [List.mem_takeWhile_imp htake] at hp
  cases hp

theorem readExponent?_of_comma (h : ',' ∈ cs) : readExponent? cs = none := by
  cases cs with
  | nil => cases h
  | cons c cs =>
    simp only [readExponent?]
    split
    · have hne : ',' ≠ c := by
        rintro rfl
        revert ‹_ ∨ _›
        decide
      exact readInt?_of_comma ((List.mem_cons.mp h).resolve_left hne)
    · rfl

/-- A comma is no digit and no point, so it stays in what has to be the exponent. -/
theorem readUnsigned?_of_comma (h : ',' ∈ cs) : readUnsigned? cs = none := by
  have hrest : ',' ∈ cs.dropWhile Char.isDigit := mem_dropWhile_of_neg h (by decide)
  simp only [readUnsigned?]
  split
  · rename_i more hmore
    rw [hmore] at hrest
    have hmem : ',' ∈ more.dropWhile Char.isDigit :=
      mem_dropWhile_of_neg ((List.mem_cons.mp hrest).resolve_left (by decide)) (by decide)
    simp [readExponent?_of_comma hmem]
  · simp [readExponent?_of_comma hrest]

theorem read?_of_comma (h : ',' ∈ cs) : read? cs = none := by
  have hmem := mem_readSign h (by decide) (by decide)
  rcases hsign : readSign cs with ⟨negative, rest⟩
  rw [hsign] at hmem
  rw [read?_of_low hsign hmem (by decide), readUnsigned?_of_comma hmem]
  rfl

end Decimal

namespace Environment

/-! ## Guesses -/

/-- The scalar that a text is taken for. -/
def guess? (text : String) : Option Setting :=
  if Setting.foldCase text = "true" then some (.bool true)
  else if Setting.foldCase text = "false" then some (.bool false)
  else ((readInt64? text.toList).map .int).or ((Decimal.read? text.toList).map .float)

/-- The setting that a text is meant for decides only about texts that are taken for nothing. -/
theorem settingValue_eq (name text : String) :
    settingValue name text = (guess? text).getD
      (if name = listSetting then
        .list ((splitAt ',' text.toList).map fun item => .text (String.ofList item))
      else .text text) := by
  unfold settingValue guess?
  split
  · rename_i htrue
    rw [if_pos htrue, Option.getD_some]
  · rename_i hfalse
    rw [if_neg (by rw [hfalse]; decide), if_pos hfalse, Option.getD_some]
  · rename_i hnotTrue hnotFalse
    rw [if_neg hnotTrue, if_neg hnotFalse]
    cases readInt64? text.toList <;> cases Decimal.read? text.toList <;> rfl

/-- What a text is taken for has a text of its own and is no list. -/
theorem asText?_of_guess? {text : String} {value : Setting} (h : guess? text = some value) :
    (∃ written, value.asText? = some written) ∧ value.asTexts? = none := by
  unfold guess? at h
  -- whatever is guessed is a scalar, which has a text and is no list
  split_ifs at h
  · obtain rfl := Option.some.inj h
    exact ⟨⟨_, rfl⟩, rfl⟩
  · obtain rfl := Option.some.inj h
    exact ⟨⟨_, rfl⟩, rfl⟩
  · rcases Option.or_eq_some_iff.mp h with h | ⟨-, h⟩
    · obtain ⟨n, -, rfl⟩ := Option.map_eq_some_iff.mp h
      exact ⟨⟨_, rfl⟩, rfl⟩
    · obtain ⟨x, -, rfl⟩ := Option.map_eq_some_iff.mp h
      exact ⟨⟨_, rfl⟩, rfl⟩

theorem guess?_of_low {text : String} {c : Char} (hmem : c ∈ text.toList) (hlow : c.toNat < 65) :
    guess? text =
      ((readInt64? text.toList).map .int).or ((Decimal.read? text.toList).map .float) := by
  have htrue := Decimal.ofList_map_toLower_ne ['t', 'r', 'u', 'e'] (by simp) hmem hlow
  have hfalse := Decimal.ofList_map_toLower_ne ['f', 'a', 'l', 's', 'e'] (by simp) hmem hlow
  rw [guess?, Setting.foldCase, if_neg htrue, if_neg hfalse]

theorem guess?_of_comma {text : String} (h : ',' ∈ text.toList) : guess? text = none := by
  rw [guess?_of_low h (by decide), readInt64?, Decimal.readInt?_of_comma h,
    Decimal.read?_of_comma h]
  rfl

theorem guess?_toString_bool (b : Bool) : guess? (toString b) = some (.bool b) := by
  cases b <;> rfl

theorem guess?_toString {n : Int} (hlow : -0x8000000000000000 ≤ n)
    (hhigh : n < 0x8000000000000000) : guess? (toString n) = some (.int n) := by
  obtain ⟨c, hmem, hc⟩ := Decimal.exists_low_of_toString n
  have hread : readInt64? (toString n).toList = some n := by
    rw [readInt64?, Decimal.readInt?_toString, Option.filter_some, if_pos (by simp [hlow, hhigh])]
  rw [guess?_of_low hmem hc, hread]
  rfl

theorem toString_natCast (n : Nat) : toString (n : Int) = toString n := rfl

/-- A number that 63 bits do not hold is taken for the float nearest to it. -/
theorem guess?_toString_large {n : Nat} (h : 2 ^ 63 ≤ n) :
    guess? (toString n) = some (.float (Decimal.nearest n 0)) := by
  obtain ⟨c, hmem, hc⟩ := Decimal.exists_low_of_toString n
  have hread : readInt64? (toString (n : Int)).toList = none := by
    rw [readInt64?, Decimal.readInt?_toString, Option.filter_some, if_neg (by simp; omega)]
  rw [← toString_natCast, guess?_of_low hmem hc, hread, Decimal.toList_toString_natCast,
    Decimal.read?_of_isDigit (Decimal.toDigits_ne_nil n) (Decimal.isDigit_toDigits n),
    Decimal.natOfDigits_toDigits]
  rfl

/-! ## Texts -/

/-- The text that becomes of a text. -/
def reread (text : String) : String := ((guess? text).bind Setting.asText?).getD text

/-- A text comes back as it was if it is taken for nothing, or is how the scalar is written that
it is taken for. -/
def Kept (text : String) : Prop := ∀ value ∈ guess? text, value.asText? = some text

theorem asText?_settingValue {name : String} (hname : name ≠ listSetting) (text : String) :
    (settingValue name text).asText? = some (reread text) := by
  rw [settingValue_eq, if_neg hname, reread]
  cases h : guess? text with
  | none => rfl
  | some value =>
    obtain ⟨⟨written, hwritten⟩, -⟩ := asText?_of_guess? h
    rw [Option.getD_some, Option.bind_some, hwritten, Option.getD_some]

theorem reread_eq_iff (text : String) : reread text = text ↔ Kept text := by
  unfold reread Kept
  cases h : guess? text with
  | none => simp
  | some value =>
    obtain ⟨⟨written, hwritten⟩, -⟩ := asText?_of_guess? h
    simp [hwritten]

/-- The texts that are kept: those that look like no scalar, truth values in small letters, whole
numbers of 64 bits with a sign in their usual form, and floats in their shortest form. -/
theorem kept_iff (text : String) :
    Kept text ↔ guess? text = none ∨ (∃ b : Bool, text = toString b) ∨
      (∃ n : Int, -0x8000000000000000 ≤ n ∧ n < 0x8000000000000000 ∧ text = toString n) ∨
      ∃ x, guess? text = some (.float x) ∧ text = Decimal.render x := by
  constructor
  · intro hkept
    cases h : guess? text with
    | none => exact Or.inl rfl
    | some value =>
      -- each guess is written back in one way, so it leaves one text for its value
      have hwritten := hkept value h
      unfold guess? at h
      split_ifs at h
      · obtain rfl := Option.some.inj h
        exact Or.inr (Or.inl ⟨true, (Option.some.inj hwritten).symm⟩)
      · obtain rfl := Option.some.inj h
        exact Or.inr (Or.inl ⟨false, (Option.some.inj hwritten).symm⟩)
      · rcases Option.or_eq_some_iff.mp h with hint | ⟨-, hfloat⟩
        · obtain ⟨n, hn, rfl⟩ := Option.map_eq_some_iff.mp hint
          have hrange : -0x8000000000000000 ≤ n ∧ n < 0x8000000000000000 := by
            simpa using (Option.filter_eq_some_iff.mp hn).2
          exact Or.inr (Or.inr (Or.inl
            ⟨n, hrange.1, hrange.2, (Option.some.inj hwritten).symm⟩))
        · obtain ⟨x, -, rfl⟩ := Option.map_eq_some_iff.mp hfloat
          exact Or.inr (Or.inr (Or.inr ⟨x, rfl, (Option.some.inj hwritten).symm⟩))
  · rintro (h | ⟨b, rfl⟩ | ⟨n, hlow, hhigh, rfl⟩ | ⟨x, h, htext⟩) value hvalue
    · rw [h] at hvalue
      cases hvalue
    · rw [guess?_toString_bool] at hvalue
      obtain rfl := Option.some.inj hvalue
      cases b <;> rfl
    · rw [guess?_toString hlow hhigh] at hvalue
      obtain rfl := Option.some.inj hvalue
      rfl
    · rw [h] at hvalue
      obtain rfl := Option.some.inj hvalue
      exact congrArg some htext.symm

theorem asBool?_settingValue (name : String) (b : Bool) :
    (settingValue name (toString b)).asBool? = some b := by
  rw [settingValue_eq, guess?_toString_bool]
  rfl

/-! ## Numbers -/

/-- The number that becomes of a number. -/
def rereadNumber (n : UInt64) : UInt64 :=
  if n.toNat < 2 ^ 63 then n else Setting.roundUInt64 (Decimal.nearest n.toNat 0)

/-- A number comes back as it was if 63 bits hold it or 53 bits hold all that is not zero of it,
and the largest number comes back too. -/
def KeptNumber (n : UInt64) : Prop :=
  n.toNat < 2 ^ 63 ∨ 2 ^ 11 ∣ n.toNat ∨ n.toNat = 2 ^ 64 - 1

theorem asUInt64?_settingValue (name : String) (n : UInt64) :
    (settingValue name (toString n.toNat)).asUInt64? = some (rereadNumber n) := by
  rw [settingValue_eq, rereadNumber]
  by_cases hlt : n.toNat < 2 ^ 63
  · have hsize : n.toNat < UInt64.size := n.toNat_lt
    rw [if_pos hlt, ← toString_natCast, guess?_toString (by omega) (by omega)]
    simp [Setting.asUInt64?, hsize]
  · rw [if_neg hlt, guess?_toString_large (by omega)]
    rfl

theorem rereadNumber_eq_iff (n : UInt64) : rereadNumber n = n ↔ KeptNumber n := by
  unfold rereadNumber KeptNumber
  split
  · exact iff_of_true rfl (Or.inl ‹_›)
  · rw [← UInt64.toNat_inj, Decimal.toNat_roundUInt64_nearest_eq_iff (by omega) n.toNat_lt]
    exact (or_iff_right ‹_›).symm

/-! ## Lists of keys -/

/-- Joined keys are taken for a list. A single key has no separator that would tell it from a
scalar. -/
def Separable (keys : List String) : Prop := ∀ key, keys = [key] → guess? key = none

theorem splitAt_eq_splitOn (c : Char) (cs : List Char) : splitAt c cs = cs.splitOn c := by
  induction cs with
  | nil => rfl
  | cons d cs ih =>
    rw [splitAt, ih]
    unfold List.splitOn
    rw [List.splitOnP_cons_eq_if_modifyHead]
    by_cases h : d = c
    · simp [h]
    · simp only [h, if_false, beq_iff_eq]
      -- splitting gives at least one piece, to which the character is added
      cases hsplit : cs.splitOnP (· == c) with
      | nil => exact (List.splitOnP_ne_nil _ _ hsplit).elim
      | cons first others => rfl

section Keys

variable {keys : List String}

theorem splitAt_intercalate (hne : keys ≠ []) (hcomma : ∀ key ∈ keys, ',' ∉ key.toList) :
    splitAt ',' (",".intercalate keys).toList = keys.map String.toList := by
  rw [splitAt_eq_splitOn, String.toList_intercalate]
  refine List.splitOn_intercalate ',' (fun cs hcs => ?_) (by simpa using hne)
  obtain ⟨key, hkey, rfl⟩ := List.mem_map.mp hcs
  exact hcomma key hkey

theorem guess?_intercalate (hne : keys ≠ []) (hseparable : Separable keys) :
    guess? (",".intercalate keys) = none := by
  match keys, hne with
  | [key], _ =>
    rw [String.intercalate_singleton]
    exact hseparable key rfl
  | first :: second :: others, _ =>
    refine guess?_of_comma ?_
    rw [String.intercalate_cons_cons, String.toList_append, String.toList_append]
    exact List.mem_append_left _ (List.mem_append_right _ (by decide))

theorem mapM_asText? (keys : List String) :
    (keys.map Setting.text).mapM Setting.asText? = some keys := by
  induction keys with
  | nil => rfl
  | cons key keys ih => simp [List.mapM_cons, ih, Setting.asText?]

theorem asTexts?_of_separable (hne : keys ≠ []) (hcomma : ∀ key ∈ keys, ',' ∉ key.toList)
    (hseparable : Separable keys) :
    (settingValue listSetting (",".intercalate keys)).asTexts? = some keys := by
  rw [settingValue_eq, guess?_intercalate hne hseparable, Option.getD_none, if_pos rfl,
    splitAt_intercalate hne hcomma, List.map_map]
  simp only [Function.comp_def, String.ofList_toList]
  exact mapM_asText? keys

theorem asTexts?_of_not_separable (h : ¬ Separable keys) :
    (settingValue listSetting (",".intercalate keys)).asTexts? = none := by
  obtain ⟨key, rfl, hkey⟩ : ∃ key, keys = [key] ∧ guess? key ≠ none := by
    simpa [Separable] using h
  obtain ⟨value, hvalue⟩ := Option.ne_none_iff_exists'.mp hkey
  rw [String.intercalate_singleton, settingValue_eq, hvalue]
  exact (asText?_of_guess? hvalue).2

end Keys

end Environment

end StatusWatch
