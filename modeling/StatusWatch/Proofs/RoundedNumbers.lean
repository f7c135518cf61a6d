import Mathlib
import StatusWatch.Settings.Value

/-!
# Large numbers as floats

A whole number that 63 bits do not hold is read as the float nearest to it and made a whole number
of 64 bits again. Between `2 ^ 63` and `2 ^ 64` two floats are `2 ^ 11` apart, so only multiples of
`2 ^ 11` come back as they were. The float next to the largest numbers is `2 ^ 64` itself, which
does not fit and gives way to the largest number that does.

- `roundedQuotient`: a division by a power of two, a half rounded to the even neighbour.
- `shiftRight_exact`, `roundedMantissa_shiftRight`: shifting bits out of a mantissa and rounding
  it is that division.
- `targetExponent_of_size`: the power of two that 53 bits of a number are scaled by.
- `unpack_pack`: a rounded mantissa and its exponent are stored without loss.
- `unpack_nearest`: the mantissa and the exponent of the float nearest to a large number.
- `toNat_roundUInt64_nearest`, `toNat_roundUInt64_nearest_eq_iff`: what comes back, and when it is
  what was read.

Mathlib is imported whole for what is known about the stored form of floats, which no module of it
imports on its own.
-/

namespace StatusWatch.Decimal

open Float.Model (Format UnpackedFloat totalExponent)
open Float.Model.UnpackedFloat

/-! ## Rounding -/

/-- `n / 2 ^ k` as a whole number, rounded to the even one of two that are equally near. -/
def roundedQuotient (n k : Nat) : Nat :=
  let quotient := n / 2 ^ k
  let twice := 2 * (n % 2 ^ k)
  if twice < 2 ^ k then quotient
  else if twice = 2 ^ k then quotient + quotient % 2
  else quotient + 1

theorem roundedQuotient_zero (n : Nat) : roundedQuotient n 0 = n := by
  simp [roundedQuotient, Nat.mod_one]

/-- Factors of two on both sides cancel. -/
theorem roundedQuotient_mul (n j k : Nat) :
    roundedQuotient (n * 2 ^ j) (k + j) = roundedQuotient n k := by
  have hpos := Nat.two_pow_pos j
  have hdiv : n * 2 ^ j / 2 ^ (k + j) = n / 2 ^ k := by
    rw [Nat.pow_add, Nat.mul_div_mul_right _ _ hpos]
  have hmod : n * 2 ^ j % 2 ^ (k + j) = n % 2 ^ k * 2 ^ j := by
    rw [Nat.pow_add, Nat.mul_mod_mul_right]
  unfold roundedQuotient
  rw [hdiv, hmod, Nat.pow_add]
  simp only [← Nat.mul_assoc, Nat.mul_lt_mul_right hpos,
    Nat.mul_left_inj (Nat.pos_iff_ne_zero.mp hpos)]

/-- The bits that were shifted out are kept as two: the last of them, and whether any other one
was set. -/
theorem shiftRight_exact (m k : Nat) :
    (⟨m, false, false⟩ : ExtendedMantissa) >>> (k + 1) =
      ⟨m / 2 ^ (k + 1), m / 2 ^ k % 2 != 0, m % 2 ^ k != 0⟩ := by
  induction k with
  | zero => simp [HShiftRight.hShiftRight, Nat.repeat, ExtendedMantissa.shiftRightOne, Nat.mod_one]
  | succ k ih =>
    have hstep : (⟨m, false, false⟩ : ExtendedMantissa) >>> (k + 1 + 1) =
        ((⟨m, false, false⟩ : ExtendedMantissa) >>> (k + 1)).shiftRightOne := rfl
    have hmod : m % 2 ^ (k + 1) = m % 2 ^ k + 2 ^ k * (m / 2 ^ k % 2) := Nat.mod_pow_succ
    -- a shift moves the round bit into the sticky bit, which has all bits below it
    have hsticky : ((m / 2 ^ k % 2 != 0) || (m % 2 ^ k != 0)) = (m % 2 ^ (k + 1) != 0) := by
      have hpos := Nat.two_pow_pos k
      rw [hmod, Bool.eq_iff_iff]
      simp only [Bool.or_eq_true, bne_iff_ne, ne_eq, Nat.add_eq_zero_iff, Nat.mul_eq_zero]
      omega
    rw [hstep, ih]
    simp only [ExtendedMantissa.shiftRightOne, hsticky, Nat.div_div_eq_div_mul, ← Nat.pow_succ]

/-- The two bits decide the rounding as the remainder does. -/
theorem roundedMantissa_shiftRight (m k : Nat) :
    ((⟨m, false, false⟩ : ExtendedMantissa) >>> k).roundedMantissa = roundedQuotient m k := by
  cases k with
  | zero => exact (roundedQuotient_zero m).symm
  | succ k =>
    have hmod : m % 2 ^ (k + 1) = m % 2 ^ k + 2 ^ k * (m / 2 ^ k % 2) := Nat.mod_pow_succ
    have hlt : m % 2 ^ k < 2 ^ k := Nat.mod_lt _ (Nat.two_pow_pos k)
    have hpow : 2 ^ (k + 1) = 2 * 2 ^ k := by rw [Nat.pow_succ, Nat.mul_comm]
    rw [shiftRight_exact]
    unfold roundedQuotient
    -- by the bit next to the last one that is kept and by whether any bit below it is set
    rcases Nat.mod_two_eq_zero_or_one (m / 2 ^ k) with hlast | hlast <;>
      by_cases hother : m % 2 ^ k = 0
    · rw [if_pos (by rw [hmod, hlast, hpow]; omega), hlast, hother]
      rfl
    · rw [if_pos (by rw [hmod, hlast, hpow]; omega), hlast, bne_iff_ne.mpr hother]
      rfl
    · rw [if_neg (by rw [hmod, hlast, hpow]; omega), if_pos (by rw [hmod, hlast, hpow]; omega),
        hlast, hother]
      rfl
    · rw [if_neg (by rw [hmod, hlast, hpow]; omega), if_neg (by rw [hmod, hlast, hpow]; omega),
        hlast, bne_iff_ne.mpr hother]
      rfl

/-- The exponent that leaves 53 bits of a mantissa of the given size. -/
theorem targetExponent_of_size {m size : Nat} {e : Int} (hlow : 2 ^ size ≤ m)
    (hhigh : m < 2 ^ (size + 1)) (he : -1074 ≤ size + e - 52) :
    Format.targetExponent .binary64 (totalExponent m e) = size + e - 52 := by
  have hlog : m.log2 = size :=
    (Nat.log2_eq_iff (Nat.ne_of_gt (Nat.lt_of_lt_of_le (Nat.two_pow_pos _) hlow))).mpr
      ⟨hlow, hhigh⟩
  have hmin : Format.minExponent .binary64 = -1074 := rfl
  have hbits : Format.mantissaBits .binary64 = 53 := rfl
  rw [Format.targetExponent, totalExponent, hlog, hmin, hbits]
  omega

/-! ## Storing -/

/-- The highest of 53 bits is not stored and put back when the others are read. -/
theorem toNat_withImplicitBit {m : Nat} (hlow : 2 ^ 52 ≤ m) (hhigh : m < 2 ^ 53) :
    (1#1 ++ BitVec.ofNat 52 m).toNat = m := by
  have hmod : m % 2 ^ 52 = m - 2 ^ 52 := by omega
  rw [BitVec.toNat_append, BitVec.toNat_ofNat m, hmod, ← Nat.shiftLeft_add_eq_or_of_lt (by omega)]
  simp only [BitVec.toNat_ofNat, Nat.shiftLeft_eq]
  omega

/-- A mantissa of 53 bits with an exponent in the range of normal floats is read back. -/
theorem unpack_pack {m : Nat} {e : Int} (hpos : 0 < m) (hlow : 2 ^ 52 ≤ m) (hhigh : m < 2 ^ 53)
    (he : -1074 ≤ e) (he' : e ≤ 971) :
    unpack .binary64 (pack .binary64 (.finite .positive m e hpos)) =
      .finite .positive m e hpos := by
  have hlog : m.log2 = 52 := (Nat.log2_eq_iff (by omega)).mpr ⟨hlow, hhigh⟩
  have hbias : Format.exponentBias .binary64 = 1023 := rfl
  obtain ⟨k, hk⟩ : ∃ k : Nat, e + 1075 = k := ⟨(e + 1075).toNat, by omega⟩
  have hstored : (e + (Format.exponentBias .binary64 : Nat) + (52 : Nat)).toNat = k := by omega
  have hpack : pack .binary64 (.finite .positive m e hpos) =
      packComponents .binary64 .positive (BitVec.ofNat 11 k) (BitVec.ofNat 52 m) := by
    simp only [pack, hstored, hlog]
    rw [if_neg (by omega), if_pos (by rfl)]
  have hnat : (BitVec.ofNat 11 k).toNat = k := by
    rw [BitVec.toNat_ofNat]
    exact Nat.mod_eq_of_lt (by omega)
  -- the stored exponent is neither of the two that stand for special values
  have hfinite : BitVec.ofNat 11 k ≠ -1#11 := by
    intro h
    have hmax : (-1#11 : BitVec 11).toNat = 2047 := rfl
    rw [← h, hnat] at hmax
    omega
  have hnormal : BitVec.ofNat 11 k ≠ 0#11 := by
    intro h
    have hzero : (0#11 : BitVec 11).toNat = 0 := rfl
    rw [← h, hnat] at hzero
    omega
  have hexponent : ((BitVec.ofNat 11 k).toNat : Int) -
      ((Format.exponentBias .binary64 : Nat) + (52 : Nat)) = e := by omega
  have hsign : Sign.ofBitVec Sign.positive.toBitVec = .positive := rfl
  rw [hpack]
  unfold unpack
  simp only [unpackMantissa_packComponents, unpackExponent_packComponents,
    unpackSign_packComponents, hsign]
  rw [if_neg hfinite, if_neg hnormal]
  simp only [toNat_withImplicitBit hlow hhigh, hexponent]

/-! ## Numbers of 64 bits -/

section Large

variable {n : Nat}

theorem roundedQuotient_range (h : 2 ^ 63 ≤ n) (h' : n < 2 ^ 64) :
    2 ^ 52 ≤ roundedQuotient n 11 ∧ roundedQuotient n 11 ≤ 2 ^ 53 := by
  unfold roundedQuotient
  dsimp only
  constructor <;> split_ifs <;> omega

/-- Rounding gives 53 bits or the next power of two, which loses a zero. -/
theorem round_large (h : 2 ^ 63 ≤ n) (h' : n < 2 ^ 64) :
    ∃ (m e : Nat) (hpos : 0 < m), 2 ^ 52 ≤ m ∧ m < 2 ^ 53 ∧ (e = 11 ∨ e = 12) ∧
      m * 2 ^ e = roundedQuotient n 11 * 2 ^ 11 ∧
      roundWithAccuracy .binary64 .positive (n <<< 53) (-53) .exact =
        .finite .positive m e hpos := by
  obtain ⟨hlow, hhigh⟩ := roundedQuotient_range h h'
  have hfirst : shiftToTargetExponent .binary64 (n <<< 53) (-53) .exact =
      ((⟨n <<< 53, false, false⟩ : ExtendedMantissa) >>> 64, 11) := by
    rw [Nat.shiftLeft_eq, shiftToTargetExponent,
      @targetExponent_of_size _ 116 _ (by omega) (by omega) (by omega)]
    rfl
  have hrounded : ((⟨n <<< 53, false, false⟩ : ExtendedMantissa) >>> 64).roundedMantissa =
      roundedQuotient n 11 := by
    rw [roundedMantissa_shiftRight, Nat.shiftLeft_eq, ← roundedQuotient_mul n 53 11]
  unfold roundWithAccuracy
  simp only [hfirst, hrounded]
  -- rounding up may carry into a further bit, and then a second shift takes it back
  rcases Nat.lt_or_eq_of_le hhigh with hlt | heq
  · have hsecond : shiftToTargetExponent .binary64 (roundedQuotient n 11) 11 .exact =
        (⟨roundedQuotient n 11, false, false⟩, 11) := by
      rw [shiftToTargetExponent, @targetExponent_of_size _ 52 _ hlow hlt (by omega)]
      rfl
    refine ⟨roundedQuotient n 11, 11, by omega, hlow, hlt, Or.inl rfl, rfl, ?_⟩
    simp only [hsecond]
    rw [dif_neg (by omega)]
    rfl
  · have hsecond : shiftToTargetExponent .binary64 (roundedQuotient n 11) 11 .exact =
        (⟨2 ^ 52, false, false⟩, 12) := by
      rw [heq]
      rfl
    refine ⟨2 ^ 52, 12, by omega, by omega, by omega, Or.inr rfl, by rw [heq]; rfl, ?_⟩
    simp only [hsecond]
    rw [dif_neg (by omega)]
    rfl

theorem ofScientific_large (h : 2 ^ 63 ≤ n) :
    UnpackedFloat.ofScientific .binary64 n 0 =
      roundWithAccuracy .binary64 .positive (n <<< 53) (-53) .exact := by
  have hmantissa : n <<< Format.mantissaBits .binary64 * 10 ^ (0 : Int).toNat = n <<< 53 := by
    rw [Int.toNat_zero, Nat.pow_zero, Nat.mul_one]
    rfl
  unfold UnpackedFloat.ofScientific
  rw [dif_neg (by omega), if_neg (by decide), if_neg (by simp), if_pos (by decide)]
  simp only [mul, hmantissa]
  rfl

/-- Large numbers have too many digits for the exact way and few enough to be finite. -/
theorem nearest_large (h : 2 ^ 63 ≤ n) (h' : n < 2 ^ 64) :
    nearest n 0 = .ofModel (.ofScientific n 0) := by
  have hsize : (Nat.toDigits 10 n).length ≤ 20 :=
    (Nat.length_toDigits_le_iff (by decide) (by decide)).mpr (by omega)
  unfold nearest
  rw [if_neg (by omega), if_neg (by omega), if_neg (by omega)]
  unfold Float.ofScientific
  rw [dif_neg (by omega)]
  rfl

/-- The float nearest to a large number is the rounded multiple of `2 ^ 11`. -/
theorem unpack_nearest (h : 2 ^ 63 ≤ n) (h' : n < 2 ^ 64) :
    ∃ (m e : Nat) (hpos : 0 < m), (e = 11 ∨ e = 12) ∧
      m * 2 ^ e = roundedQuotient n 11 * 2 ^ 11 ∧
      (nearest n 0).toModel.unpack = .finite .positive m e hpos := by
  obtain ⟨m, e, hpos, hlow, hhigh, he, hvalue, hround⟩ := round_large h h'
  refine ⟨m, e, hpos, he, hvalue, ?_⟩
  rw [nearest_large h h']
  show unpack .binary64 (pack .binary64 (UnpackedFloat.ofScientific .binary64 n 0)) = _
  rw [ofScientific_large h, hround, unpack_pack hpos hlow hhigh (by omega) (by omega)]

theorem roundToInt_natCast (m e : Nat) : roundToInt .positive m e = (m * 2 ^ e : Nat) := by
  have hleft : ((e : Int) - 0).toNat = e := by omega
  have hright : (0 - ((e : Int) - e)).toNat = 0 := by omega
  unfold roundToInt decreaseExponent shiftToExponent
  dsimp only
  rw [hleft, hright, Nat.shiftLeft_eq]
  rfl

theorem toUInt64_nearest (h : 2 ^ 63 ≤ n) (h' : n < 2 ^ 64) :
    (nearest n 0).toUInt64 = .ofNatClamp (roundedQuotient n 11 * 2 ^ 11) := by
  obtain ⟨m, e, hpos, -, hvalue, hunpack⟩ := unpack_nearest h h'
  show UnpackedFloat.toUInt64 (nearest n 0).toModel.unpack = _
  rw [hunpack, UnpackedFloat.toUInt64, UnpackedFloat.toInt, roundToInt_natCast, hvalue]
  rfl

theorem unpack_limit :
    (9007199254740992.0 : Float).toModel.unpack = .finite .positive (2 ^ 52) 1 (by decide) := rfl

/-- Large numbers are beyond the floats that may have a fraction. -/
theorem not_nearest_lt (h : 2 ^ 63 ≤ n) (h' : n < 2 ^ 64) :
    ¬ nearest n 0 < 9007199254740992.0 := by
  obtain ⟨m, e, hpos, he, -, hunpack⟩ := unpack_nearest h h'
  have hless : UnpackedFloat.lt (nearest n 0).toModel.unpack
      (9007199254740992.0 : Float).toModel.unpack = false := by
    rw [hunpack, unpack_limit]
    rcases he with rfl | rfl <;> rfl
  intro hlt
  exact Bool.false_ne_true (hless.symm.trans (of_decide_eq_true hlt))

/-- What a large number becomes: the nearest multiple of `2 ^ 11`, or the largest number of
64 bits if that multiple is beyond it. -/
theorem toNat_roundUInt64_nearest (h : 2 ^ 63 ≤ n) (h' : n < 2 ^ 64) :
    (Setting.roundUInt64 (nearest n 0)).toNat =
      min (roundedQuotient n 11 * 2 ^ 11) (2 ^ 64 - 1) := by
  have hround : Setting.roundUInt64 (nearest n 0) =
      .ofNatClamp (roundedQuotient n 11 * 2 ^ 11) := by
    unfold Setting.roundUInt64
    simp only [not_nearest_lt h h', decide_false, Bool.false_and, Bool.false_eq_true, if_false,
      toUInt64_nearest h h']
  rw [hround]
  unfold UInt64.ofNatClamp
  have hsize : UInt64.size = 2 ^ 64 := rfl
  split <;> simp only [UInt64.toNat_ofNatLT] <;> omega

/-- A large number comes back exactly if it is a multiple of `2 ^ 11` or the largest one. -/
theorem toNat_roundUInt64_nearest_eq_iff (h : 2 ^ 63 ≤ n) (h' : n < 2 ^ 64) :
    (Setting.roundUInt64 (nearest n 0)).toNat = n ↔ 2 ^ 11 ∣ n ∨ n = 2 ^ 64 - 1 := by
  rw [toNat_roundUInt64_nearest h h', Nat.dvd_iff_mod_eq_zero]
  unfold roundedQuotient
  dsimp only
  split_ifs <;> omega

end Large

end StatusWatch.Decimal
