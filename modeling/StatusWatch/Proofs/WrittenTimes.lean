import Mathlib.Algebra.GroupWithZero.Nat
import Mathlib.Data.List.TakeWhile
import StatusWatch.Instant.Rfc3339

/-!
# Times as they are written

Reading a time is more lenient than writing one, so many texts stand for one instant. The text
that is written for an instant is one of them: it is read back as that instant, whatever its year
and its fraction, leap seconds included.

- `Decimal.natOfDigits_toDigits`: digits stand for the number that they were made of.
- `readNumber_append`: a number is read up to where its digits end.
- `length_padded`, `readNumber_padded`: numbers with leading zeros.
- `readPart_padded`, `readMark_cons`, `readYear_renderYear`, `readFraction_renderFraction`: each
  part of a time is read back, whatever follows it.
- `parse_render`: so is the time.
-/

namespace StatusWatch

namespace Decimal

theorem natOfDigits_toDigits (n : Nat) : natOfDigits (Nat.toDigits 10 n) = n :=
  Nat.ofDigitChars_toDigits (by decide) (by decide)

theorem natOfDigits_zeros (k : Nat) (ds : List Char) :
    natOfDigits (List.replicate k '0' ++ ds) = natOfDigits ds := by
  induction k with
  | zero => rfl
  | succ k ih => exact ih

end Decimal

namespace Instant

open Decimal (natOfDigits natOfDigits_toDigits natOfDigits_zeros)

/-! ## Numbers -/

theorem isBlank_of_isDigit {c : Char} (h : c.isDigit = true) : isBlank c = false := by
  have hlow : 48 ≤ c.toNat ∧ c.toNat ≤ 57 := by
    simpa [Char.isDigit, UInt32.le_iff_toNat_le] using h
  simp only [isBlank, Bool.or_eq_false_iff, Bool.and_eq_false_imp, decide_eq_true_eq,
    decide_eq_false_iff_not]
  omega

theorem skipBlanks_of_isDigit {c : Char} (h : c.isDigit = true) (cs : List Char) :
    skipBlanks (c :: cs) = c :: cs := List.dropWhile_cons_of_neg (by simp [isBlank_of_isDigit h])

/-- A number ends where the width is used up, or in front of what is no digit. -/
theorem readNumber_append {width : Nat} {ds rest : List Char} (hne : ds ≠ [])
    (hdigits : ∀ c ∈ ds, c.isDigit = true) (hwidth : ds.length ≤ width)
    (hstop : ds.length = width ∨ ∀ c ∈ rest.head?, c.isDigit = false)
    (hmax : natOfDigits ds ≤ maxNumber) :
    readNumber width (ds ++ rest) = .ok (natOfDigits ds, rest) := by
  have hnone : (rest.take (width - ds.length)).takeWhile Char.isDigit = [] := by
    rcases hstop with hfull | hstop
    · rw [hfull, Nat.sub_self, List.take_zero, List.takeWhile_nil]
    · rw [List.takeWhile_eq_nil_iff]
      intro hlt hdigit
      cases rest with
      | nil => simp at hlt
      | cons c rest => simp [hstop c rfl] at hdigit
  have hread : ((ds ++ rest).take width).takeWhile Char.isDigit = ds := by
    rw [List.take_append, List.take_of_length_le hwidth, List.takeWhile_append_of_pos hdigits,
      hnone, List.append_nil]
  obtain ⟨c, ds', rfl⟩ := List.exists_cons_of_ne_nil hne
  unfold readNumber
  rw [List.cons_append] at hread ⊢
  simp only [hread, hdigits c List.mem_cons_self, if_true, hmax]
  rw [← List.cons_append, List.drop_left]

section Padded

variable {width n : Nat}

theorem isDigit_of_mem_padded {c : Char} (h : c ∈ padded width n) : c.isDigit = true := by
  rcases List.mem_append.mp h with h | h
  · rw [List.eq_of_mem_replicate h]
    decide
  · exact Nat.isDigit_of_mem_toDigits (by decide) (by decide) h

theorem natOfDigits_padded : natOfDigits (padded width n) = n := by
  unfold padded
  rw [natOfDigits_zeros, natOfDigits_toDigits]

theorem padded_ne_nil : padded width n ≠ [] := by
  intro h
  have hdigits := (List.append_eq_nil_iff.mp h).2
  have hpos := Nat.length_toDigits_pos (b := 10) (n := n)
  rw [hdigits] at hpos
  exact Nat.lt_irrefl 0 hpos

theorem length_padded (hwidth : 0 < width) (h : n < 10 ^ width) :
    (padded width n).length = width := by
  have hle := (Nat.length_toDigits_le_iff (b := 10) (by decide) hwidth).mpr h
  simp only [padded, List.length_append, List.length_replicate]
  omega

/-- A number that fills its width is read back, whatever follows it. -/
theorem readNumber_padded (hwidth : 0 < width) (h : n < 10 ^ width) (hmax : n ≤ maxNumber)
    (rest : List Char) : readNumber width (padded width n ++ rest) = .ok (n, rest) := by
  have hlength := length_padded hwidth h
  rw [readNumber_append padded_ne_nil (fun _ => isDigit_of_mem_padded) hlength.le (Or.inl hlength)
    (natOfDigits_padded.trans_le hmax), natOfDigits_padded]

theorem skipBlanks_padded (rest : List Char) :
    skipBlanks (padded width n ++ rest) = padded width n ++ rest := by
  obtain ⟨c, ds, hcons⟩ := List.exists_cons_of_ne_nil (@padded_ne_nil width n)
  have hdigit : c.isDigit = true :=
    @isDigit_of_mem_padded width n c (hcons ▸ List.mem_cons_self)
  rw [hcons, List.cons_append]
  exact skipBlanks_of_isDigit hdigit _

end Padded

/-! ## The parts of a time -/

theorem readPart_padded {low high n : Nat} (hlow : low ≤ n) (hhigh : n ≤ high) (h : n < 100)
    (rest : List Char) : readPart low high (padded 2 n ++ rest) = .ok (n, rest) := by
  have hmax : n ≤ maxNumber := h.le.trans (by decide)
  unfold readPart
  rw [skipBlanks_padded, readNumber_padded (by decide) h hmax]
  simp [bind, Except.bind, hlow, hhigh]

theorem readMark_cons {mark : Char} (h : isBlank mark = false) (rest : List Char) :
    readMark mark (mark :: rest) = .ok ((), rest) := by
  unfold readMark
  rw [skipBlanks, List.dropWhile_cons_of_neg (by simp [h])]
  simp

section Year

variable {cs rest : List Char} {n : Nat}

theorem readYear_plus (h : readNumber cs.length cs = .ok (n, rest))
    (hrange : -0x80000000 ≤ (n : Int) ∧ (n : Int) < 0x80000000) :
    readYear ('+' :: cs) = .ok ((n : Int), rest) := by
  have hskip : skipBlanks ('+' :: cs) = '+' :: cs := List.dropWhile_cons_of_neg (by decide)
  have hread : readNumber cs.length cs = pure (n, rest) := h
  unfold readYear
  rw [hskip]
  -- unfolding `bind` instead would make the kernel count up to the bounds
  simp only [hread, pure_bind]
  rw [if_pos hrange]

theorem readYear_minus (h : readNumber cs.length cs = .ok (n, rest))
    (hrange : -0x80000000 ≤ -(n : Int) ∧ -(n : Int) < 0x80000000) :
    readYear ('-' :: cs) = .ok (-(n : Int), rest) := by
  have hskip : skipBlanks ('-' :: cs) = '-' :: cs := List.dropWhile_cons_of_neg (by decide)
  have hread : readNumber cs.length cs = pure (n, rest) := h
  unfold readYear
  rw [hskip]
  simp only [hread, pure_bind]
  rw [if_pos hrange]

theorem readYear_of_isDigit {c : Char} (hdigit : c.isDigit = true)
    (h : readNumber 4 (c :: cs) = .ok (n, rest))
    (hrange : -0x80000000 ≤ (n : Int) ∧ (n : Int) < 0x80000000) :
    readYear (c :: cs) = .ok ((n : Int), rest) := by
  have hread : readNumber 4 (c :: cs) = pure (n, rest) := h
  unfold readYear
  rw [skipBlanks_of_isDigit hdigit]
  split
  · rename_i heq
    cases heq
    exact absurd hdigit (by decide)
  · rename_i heq
    cases heq
    exact absurd hdigit (by decide)
  · simp only [hread, pure_bind]
    rw [if_pos hrange]

end Year

/-- A year is read back in front of its mark, with a sign or without. -/
theorem readYear_renderYear {year : Int} (hlow : -262143 ≤ year) (hhigh : year ≤ 262142)
    (rest : List Char) : readYear (renderYear year ++ '-' :: rest) = .ok (year, '-' :: rest) := by
  have hmax : year.natAbs ≤ maxNumber := by
    unfold maxNumber
    omega
  -- after a sign, the year takes all digits there are
  have hsigned : readNumber (padded 4 year.natAbs ++ '-' :: rest).length
      (padded 4 year.natAbs ++ '-' :: rest) = .ok (year.natAbs, '-' :: rest) := by
    rw [readNumber_append padded_ne_nil (fun _ => isDigit_of_mem_padded) (by simp)
      (Or.inr (by simp)) (natOfDigits_padded.trans_le hmax), natOfDigits_padded]
  unfold renderYear
  split
  · have hnumber := @readNumber_padded 4 year.toNat (by decide) (by omega)
      (by omega) ('-' :: rest)
    have hdigits : ∀ c ∈ padded 4 year.toNat, c.isDigit = true := fun _ => isDigit_of_mem_padded
    obtain ⟨c, ds, hcons⟩ := List.exists_cons_of_ne_nil (padded_ne_nil : padded 4 year.toNat ≠ [])
    rw [hcons] at hnumber hdigits ⊢
    rw [List.cons_append] at hnumber ⊢
    rw [readYear_of_isDigit (hdigits c List.mem_cons_self) hnumber (by omega),
      Int.toNat_of_nonneg (by omega)]
  · rw [List.cons_append]
    split
    · rw [readYear_minus hsigned (by omega), Int.ofNat_natAbs_of_nonpos (by omega), Int.neg_neg]
    · rw [readYear_plus hsigned (by omega), Int.natAbs_of_nonneg (by omega)]

/-- A fraction of `width` digits in front of the offset. -/
theorem readFraction_padded {width n : Nat} (hwidth : 0 < width) (hnine : width ≤ 9)
    (h : n < 10 ^ width) :
    readFraction ('.' :: padded width n ++ ['Z']) = .ok (n * Nat.pow 10 (9 - width), ['Z']) := by
  have hmax : n ≤ maxNumber := by
    have := Nat.pow_le_pow_right (n := 10) (by decide) hnine
    unfold maxNumber
    omega
  have hlength := length_padded hwidth h
  have hnumber : readNumber 9 (padded width n ++ ['Z']) = .ok (n, ['Z']) := by
    rw [readNumber_append padded_ne_nil (fun _ => isDigit_of_mem_padded) (by omega)
      (Or.inr (by simp)) (natOfDigits_padded.trans_le hmax), natOfDigits_padded]
  have hplaces : (padded width n ++ ['Z']).length - ['Z'].length = width := by simp [hlength]
  unfold readFraction
  rw [List.cons_append]
  simp only [hnumber, bind, Except.bind, hplaces]
  rfl

/-- The shortest exact fraction is exact. -/
theorem readFraction_renderFraction {nanos : Nat} (h : nanos < 1000000000) :
    readFraction (renderFraction nanos ++ ['Z']) = .ok (nanos, ['Z']) := by
  unfold renderFraction
  split
  · rename_i hzero
    rw [hzero]
    rfl
  · split
    · rw [readFraction_padded (by decide) (by decide) (by omega)]
      have hback : nanos / 1000000 * Nat.pow 10 (9 - 3) = nanos := by
        show nanos / 1000000 * 1000000 = nanos
        omega
      rw [hback]
    · split
      · rw [readFraction_padded (by decide) (by decide) (by omega)]
        have hback : nanos / 1000 * Nat.pow 10 (9 - 6) = nanos := by
          show nanos / 1000 * 1000 = nanos
          omega
        rw [hback]
      · rw [readFraction_padded (by decide) (by decide) (by omega)]
        have hback : nanos * Nat.pow 10 (9 - 9) = nanos := Nat.mul_one nanos
        rw [hback]

/-! ## Times -/

theorem atOffset_zero (t : Instant) : atOffset t.date t.minute t.second t.nanos 0 = .ok t := by
  have hlt : ¬ ((t.minute : Int) < 0) ∧ ¬ (1440 ≤ (t.minute : Int)) := by
    have := t.minute_lt
    omega
  have hminute : ((t.minute : Int) % 1440).toNat = t.minute := by
    have := t.minute_lt
    omega
  unfold atOffset
  simp [hlt, hminute, of?_self]

theorem daysInMonth_le (year : Int) (month : Nat) : daysInMonth year month ≤ 31 := by
  unfold daysInMonth
  split <;> first | decide | (split <;> decide)

theorem readTimeMark_cons (rest : List Char) : readTimeMark ('T' :: rest) = .ok ((), rest) := rfl

theorem readOffset_utc : readOffset ['Z'] = .ok (0, []) := rfl

/-- What is written for an instant is read back as that instant. -/
theorem parse_render (t : Instant) : parse t.render = .ok t := by
  have hmonth := t.date.month_le
  have hday := t.date.day_le.trans (daysInMonth_le _ _)
  have hminute := t.minute_lt
  have hsecond := t.second_lt
  have hnanos := t.nanos_lt
  have htext : t.render.toList = renderYear t.date.year ++ '-' :: (padded 2 t.date.month ++ '-' ::
      (padded 2 t.date.day ++ 'T' :: (padded 2 (t.minute / 60) ++ ':' ::
        (padded 2 (t.minute % 60) ++ ':' :: (padded 2 (t.second + t.nanos / 1000000000) ++
          (renderFraction (t.nanos % 1000000000) ++ ['Z'])))))) := by
    unfold render
    simp only [String.toList_ofList, List.append_assoc, List.cons_append]
  have hclock : t.minute / 60 * 60 + t.minute % 60 = t.minute := Nat.div_add_mod' _ _
  have hend : skipBlanks [] = [] := rfl
  unfold parse
  simp only [htext, bind, Except.bind, readTimeMark_cons, readOffset_utc, hclock, hend,
    readYear_renderYear t.date.year_ge t.date.year_le,
    @readMark_cons '-' (by decide), @readMark_cons ':' (by decide),
    readPart_padded t.date.month_pos hmonth (by omega),
    readPart_padded t.date.day_pos hday (by omega),
    @readPart_padded 0 23 (t.minute / 60) (by omega) (by omega) (by omega),
    @readPart_padded 0 59 (t.minute % 60) (by omega) (by omega) (by omega),
    @readPart_padded 0 60 (t.second + t.nanos / 1000000000) (by omega) (by omega) (by omega),
    readFraction_renderFraction (Nat.mod_lt t.nanos (by decide : 0 < 1000000000)),
    ne_eq, not_true_eq_false, if_false, Date.of?_self]
  split
  · -- a leap second: the full second of nanoseconds is in the number of the second
    have hlast : t.second = 59 := by omega
    have hleap : t.nanos % 1000000000 + 1000000000 = t.nanos := by omega
    rw [hleap, ← hlast]
    exact atOffset_zero t
  · have hwhole : t.nanos / 1000000000 = 0 := by omega
    have hfraction : t.nanos % 1000000000 = t.nanos := by omega
    rw [hwhole, hfraction]
    exact atOffset_zero t

end Instant

end StatusWatch
