import Evolution.Decimal.Reading
import Evolution.Proofs.Binary.Operations

/-! The float that a decimal is read as: the decimal rounded, also where it is so large or so small
that it is settled without a power of ten. -/

namespace Evolution

namespace Binary

open Float.Model (Format UnpackedFloat)
open Float.Model.UnpackedFloat

theorem number?_toFloat {n : ℕ} (few : n < 2 ^ 53) : number? n.toUInt64.toFloat = some (n : ℚ) := by
  have word : n.toUInt64.toNat = n := Nat.mod_eq_of_lt (by omega)
  have fits : Fits (((n : ℤ) : ℚ) * 2 ^ (0 : ℤ)) := fits_mul_zpow (by omega) (by decide) (by decide)
  obtain ⟨converted, -⟩ := numberOf_normalize fits
  rw [zpow_zero, mul_one, Int.cast_natCast] at converted
  rw [← converted]
  conv_rhs => rw [← word]
  rfl

theorem number?_powersOfTen : ∀ e : Fin Float.exactlyRepresentablePowersOfTen.size,
    number? Float.exactlyRepresentablePowersOfTen[e] = some (10 ^ e.val) := by
  decide +kernel

theorem rounds_infinity {r : ℚ} (large : 2 ^ (1024 : ℤ) ≤ |r|) (s : Sign) :
    Rounds r (.infinity s) := by
  have power : (0 : ℚ) < 2 ^ (970 : ℤ) := by positivity
  exact .inr ⟨(sub_le_self _ power.le).trans large, s, rfl⟩

theorem exists_unpack_of_isInf {x : Float} (h : x.isInf = true) :
    ∃ s, x.toModel.unpack = .infinity s := by
  change x.toModel.unpack.isInf = true at h
  cases unpacked : x.toModel.unpack with
  | infinity s => exact ⟨s, rfl⟩
  | _ =>
    rw [unpacked] at h
    cases h

theorem two_zpow_le_ten_zpow {e : ℤ} (h : 0 ≤ e) : (2 : ℚ) ^ (3 * e) ≤ 10 ^ e := by
  rw [zpow_mul]
  exact zpow_le_zpow_left₀ h (by norm_num) (by norm_num)

theorem ten_zpow_le_two_zpow {e : ℤ} (h : e ≤ 0) : (10 : ℚ) ^ e ≤ 2 ^ (3 * e) := by
  have flipped := two_zpow_le_ten_zpow (Int.neg_nonneg_of_nonpos h)
  rw [mul_neg, zpow_neg, zpow_neg] at flipped
  exact (inv_le_inv₀ (by positivity) (by positivity)).mp flipped

section General

variable {m : ℕ} {e : ℤ}

theorem rounds_of_high (pos : 0 < m) (high : 2048 < e) : Rounds (m * 10 ^ e)
    (unpack Format.binary64 (pack Format.binary64 (.infinity .positive))) := by
  have infinite : unpack Format.binary64 (pack Format.binary64 (.infinity .positive)) =
      .infinity .positive := unpack_infinity .positive
  have size : (1 : ℚ) ≤ m := by exact_mod_cast pos
  rw [infinite]
  refine rounds_infinity ?_ .positive
  rw [abs_of_nonneg (by positivity)]
  calc (2 : ℚ) ^ (1024 : ℤ) ≤ 2 ^ (3 * e) := zpow_le_zpow_right₀ one_le_two (by omega)
    _ ≤ 10 ^ e := two_zpow_le_ten_zpow (by omega)
    _ ≤ m * 10 ^ e := le_mul_of_one_le_left (by positivity) size

theorem rounds_of_low (low : e < -(2048 + m.log2)) : Rounds (m * 10 ^ e)
    (unpack Format.binary64 (pack Format.binary64 (.zero .positive))) := by
  have size : (m : ℚ) ≤ 2 ^ ((m.log2 : ℤ) + 1) := by
    exact_mod_cast (Nat.lt_log2_self (n := m)).le
  refine rounds_zero .positive ?_
  rw [abs_of_nonneg (by positivity)]
  calc (m : ℚ) * 10 ^ e ≤ 2 ^ ((m.log2 : ℤ) + 1) * 2 ^ (3 * e) :=
      mul_le_mul size (ten_zpow_le_two_zpow (by omega)) (by positivity) (by positivity)
    _ = 2 ^ ((m.log2 : ℤ) + 1 + 3 * e) := (zpow_add₀ two_ne_zero _ _).symm
    _ ≤ 2 ^ (-1075 : ℤ) := zpow_le_zpow_right₀ one_le_two (by omega)

/-- The digits times a whole power of ten. The digits are given 53 bits more, so that the product has
enough. -/
theorem rounds_mul_power (pos : 0 < m) (k : ℕ) (many : 0 < m <<< 53) (powers : 0 < 10 ^ k) :
    Rounds (m * 10 ^ (k : ℤ)) (unpack Format.binary64 (pack Format.binary64
      (UnpackedFloat.mul Format.binary64 (.finite .positive (m <<< 53) (-53) many)
        (.finite .positive (10 ^ k) 0 powers)))) := by
  have shifted : m <<< 53 = m * 2 ^ 53 := Nat.shiftLeft_eq m 53
  have bits : (m <<< 53).log2 = m.log2 + 53 := shifted ▸ log2_mul_two_pow pos 53
  have logs := add_log2_le_log2_mul many powers
  have rounded := rounds_mul_finite .positive .positive (e := -53) (f := 0) many powers (by omega)
  have value : ((Sign.positive.apply (m <<< 53 : ℕ) : ℤ) : ℚ) * 2 ^ (-53 : ℤ) *
      (((Sign.positive.apply (10 ^ k : ℕ) : ℤ) : ℚ) * 2 ^ (0 : ℤ)) = m * 10 ^ (k : ℤ) := by
    have cancel : (2 : ℚ) ^ 53 * 2 ^ (-53 : ℤ) = 1 := by norm_num
    rw [shifted, Sign.apply, Sign.apply, zpow_zero, mul_one, Int.cast_natCast, Int.cast_natCast,
      Nat.cast_mul, Nat.cast_pow, Nat.cast_pow, Nat.cast_ofNat, Nat.cast_ofNat, mul_assoc (m : ℚ),
      cancel, mul_one, zpow_natCast]
  rw [value] at rounded
  exact rounded

/-- The digits by a whole power of ten. -/
theorem rounds_div_power (pos : 0 < m) (k : ℕ) (powers : 0 < 10 ^ k) :
    Rounds (m * 10 ^ (-k : ℤ)) (unpack Format.binary64 (pack Format.binary64
      (UnpackedFloat.div Format.binary64 (.finite .positive m 0 pos)
        (.finite .positive (10 ^ k) 0 powers)))) := by
  have rounded := rounds_div_finite .positive .positive 0 0 pos powers
  have value : ((Sign.positive.apply m : ℤ) : ℚ) * 2 ^ (0 : ℤ) /
      (((Sign.positive.apply (10 ^ k : ℕ) : ℤ) : ℚ) * 2 ^ (0 : ℤ)) = m * 10 ^ (-k : ℤ) := by
    rw [Sign.apply, Sign.apply, zpow_zero, mul_one, mul_one, zpow_neg, zpow_natCast, div_eq_mul_inv]
    push_cast
    rfl
  rw [value] at rounded
  exact rounded

/-- A decimal is nearest to the float that the general reading gives. -/
theorem rounds_ofScientific (m : ℕ) (e : ℤ) : Rounds (m * 10 ^ e)
    (unpack Format.binary64 (pack Format.binary64 (ofScientific Format.binary64 m e))) := by
  rw [UnpackedFloat.ofScientific]
  split
  · next none =>
    rw [none, Nat.cast_zero, zero_mul]
    exact rounds_zero_zero .positive
  next some =>
  have pos : 0 < m := Nat.pos_of_ne_zero some
  split
  · next high => exact rounds_of_high pos high
  split
  · next low => exact rounds_of_low low
  split
  · next whole =>
    obtain ⟨k, rfl⟩ := Int.eq_ofNat_of_zero_le whole
    exact rounds_mul_power pos k _ _
  · next broken =>
    obtain ⟨k, same⟩ := Int.eq_ofNat_of_zero_le (show 0 ≤ -e by omega)
    obtain rfl : e = -k := by omega
    simp only [same, Int.toNat_natCast]
    exact rounds_div_power pos k _

end General

/-- A decimal is nearest to the float that it is read as, the fast way or the general one. -/
theorem rounds_scientific (m : ℕ) (e : ℤ) :
    Rounds (m * 10 ^ e) (Float.ofScientific m (e < 0) e.natAbs).toModel.unpack := by
  rw [Float.ofScientific]
  split
  · next fast =>
    have digits := number?_toFloat fast.1
    have power := number?_powersOfTen ⟨e.natAbs, Nat.lt_succ_of_le fast.2⟩
    by_cases negative : e < 0
    · have value : (m : ℚ) * 10 ^ e = m / 10 ^ e.natAbs := by
        rw [div_eq_mul_inv, ← zpow_natCast, ← zpow_neg, Int.ofNat_natAbs_of_nonpos negative.le, neg_neg]
      rw [value, if_pos (decide_eq_true negative)]
      exact rounds_div digits power (by positivity)
    · have value : (m : ℚ) * 10 ^ e = m * 10 ^ e.natAbs := by
        rw [← zpow_natCast, Int.natAbs_of_nonneg (not_lt.mp negative)]
      rw [value, if_neg (by simpa using negative)]
      exact rounds_mul digits power
  · have exponent : (if decide (e < 0) then Int.negOfNat e.natAbs else Int.ofNat e.natAbs) = e := by
      split
      · next negative =>
        have := of_decide_eq_true negative
        rw [Int.negOfNat_eq, Int.ofNat_eq_natCast]
        omega
      · next positive =>
        have := of_decide_eq_false (Bool.eq_false_of_not_eq_true positive)
        rw [Int.ofNat_eq_natCast]
        omega
    rw [exponent]
    exact rounds_ofScientific m e

end Binary

namespace Decimal

open Binary

/-- The number of digits as a bound to either side. -/
theorem toDigits_bounds {m : ℕ} (pos : 0 < m) :
    10 ^ ((Nat.toDigits 10 m).length - 1) ≤ m ∧ m < 10 ^ (Nat.toDigits 10 m).length := by
  have some : 0 < (Nat.toDigits 10 m).length := Nat.length_toDigits_pos
  refine ⟨?_, (Nat.length_toDigits_le_iff (by decide) some).mp le_rfl⟩
  rcases Nat.eq_zero_or_pos ((Nat.toDigits 10 m).length - 1) with one | more
  · rw [one]
    exact pos
  · refine not_lt.mp fun less => ?_
    have := (Nat.length_toDigits_le_iff (by decide) more).mpr less
    omega

/-- What is not computed because the power of ten is too low or too high would be zero or infinite. -/
theorem rounds_nearest (m : ℕ) (e : ℤ) : Rounds (m * 10 ^ e) (nearest m e).toModel.unpack := by
  rcases Nat.eq_zero_or_pos m with rfl | pos
  · rw [Nat.cast_zero, zero_mul, nearest, if_pos (by simp)]
    exact rounds_of_number? rfl
  obtain ⟨lower, upper⟩ := toDigits_bounds pos
  have some : 0 < (Nat.toDigits 10 m).length := Nat.length_toDigits_pos
  rw [nearest]
  generalize (Nat.toDigits 10 m).length = digits at *
  have least : (10 : ℚ) ^ ((digits : ℤ) - 1) ≤ m := by
    have cast : (digits : ℤ) - 1 = (digits - 1 : ℕ) := by omega
    rw [cast, zpow_natCast]
    exact_mod_cast lower
  have most : (m : ℚ) ≤ 10 ^ (digits : ℤ) := by exact_mod_cast upper.le
  have power : (0 : ℚ) < 10 ^ e := by positivity
  simp only [pos.ne', decide_false, Bool.false_or, decide_eq_true_eq]
  split
  · next low =>
    refine rounds_zero .positive ?_
    rw [abs_of_nonneg (by positivity)]
    calc (m : ℚ) * 10 ^ e ≤ 10 ^ (digits : ℤ) * 10 ^ e := mul_le_mul_of_nonneg_right most power.le
      _ = 10 ^ (digits + e) := (zpow_add₀ (by norm_num) _ _).symm
      _ ≤ 2 ^ (3 * (digits + e)) := ten_zpow_le_two_zpow (by omega)
      _ ≤ 2 ^ (-1075 : ℤ) := zpow_le_zpow_right₀ one_le_two (by omega)
  split
  · next high =>
    have overflow : (Float.ofScientific 1 false 400).isInf = true := by decide +kernel
    obtain ⟨s, infinite⟩ := exists_unpack_of_isInf overflow
    rw [infinite]
    refine rounds_infinity ?_ s
    rw [abs_of_nonneg (by positivity)]
    calc (2 : ℚ) ^ (1024 : ℤ) ≤ 2 ^ (3 * (digits - 1 + e)) :=
        zpow_le_zpow_right₀ one_le_two (by omega)
      _ ≤ 10 ^ (digits - 1 + e) := two_zpow_le_ten_zpow (by omega)
      _ = 10 ^ ((digits : ℤ) - 1) * 10 ^ e := zpow_add₀ (by norm_num) _ _
      _ ≤ m * 10 ^ e := mul_le_mul_of_nonneg_right least power.le
  · exact rounds_scientific m e

end Decimal

end Evolution
