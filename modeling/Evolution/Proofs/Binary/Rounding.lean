import Mathlib

/-! Rounding to binary floats of 53 bits. Of what rounding does to a positive number two things are
shown: it keeps a number that has room, and it does not take a number below the power of two under
it. What it gives is packed and unpacked again without change, or is infinite. -/

namespace Evolution.Binary

open Float.Model (Format UnpackedFloat totalExponent)
open Float.Model.UnpackedFloat

/-- Mantissas have 53 bits, or fewer at the lowest exponent. -/
structure Canonical (m : ℕ) (e : ℤ) : Prop where
  bits : m.log2 ≤ 52
  low : -1074 ≤ e
  full : m.log2 = 52 ∨ e = -1074

theorem targetExponent_eq (m : ℕ) (e : ℤ) :
    Format.binary64.targetExponent (totalExponent m e) = max (m.log2 + e - 52) (-1074) := by
  simp only [Format.targetExponent, totalExponent]
  change max ((m.log2 : ℤ) + 1 + e - (53 : ℕ)) (-1074) = _
  congr 1
  push_cast
  ring

theorem Canonical.targetExponent {m : ℕ} {e : ℤ} (h : Canonical m e) :
    Format.binary64.targetExponent (totalExponent m e) = e := by
  rw [targetExponent_eq]
  have := h.bits
  have := h.low
  have := h.full
  omega

theorem log2_mul_two_pow {m : ℕ} (pos : 0 < m) (k : ℕ) : (m * 2 ^ k).log2 = m.log2 + k := by
  rw [Nat.log2_eq_log_two, Nat.log2_eq_log_two]
  induction k with
  | zero => rw [Nat.pow_zero, Nat.mul_one, Nat.add_zero]
  | succ k ih =>
    have more : m * 2 ^ k ≠ 0 := (Nat.mul_pos pos (Nat.two_pow_pos k)).ne'
    rw [Nat.pow_succ, ← Nat.mul_assoc, Nat.log_mul_base Nat.one_lt_two more, ih, Nat.add_assoc]

theorem log2_div_two_pow (m k : ℕ) : (m / 2 ^ k).log2 = m.log2 - k := by
  rw [Nat.log2_eq_log_two, Nat.log2_eq_log_two, Nat.log_div_base_pow]

theorem log2_le_log2 {m n : ℕ} (h : m ≤ n) : m.log2 ≤ n.log2 := by
  rw [Nat.log2_eq_log_two, Nat.log2_eq_log_two]
  exact Nat.log_mono_right h

theorem div_two_pow_pos {m : ℕ} (pos : 0 < m) (k : ℕ) : 0 < m / 2 ^ (m.log2 - k) := by
  refine Nat.div_pos ?_ (Nat.two_pow_pos _)
  calc 2 ^ (m.log2 - k) ≤ 2 ^ m.log2 := Nat.pow_le_pow_right Nat.two_pos (Nat.sub_le _ _)
    _ ≤ m := Nat.log2_self_le pos.ne'

theorem mantissa_shiftRight (x : ExtendedMantissa) (k : ℕ) :
    (x >>> k).mantissa = x.mantissa / 2 ^ k := by
  change (k.repeat ExtendedMantissa.shiftRightOne x).mantissa = _
  induction k with
  | zero => exact (Nat.div_one _).symm
  | succ k ih =>
    rw [Nat.repeat, ExtendedMantissa.shiftRightOne, ih, Nat.div_div_eq_div_mul, Nat.pow_succ]

/-- Bits that are all zero leave no trace. -/
theorem shiftRight_mul_two_pow (m k : ℕ) :
    ExtendedMantissa.ofMantissaAndAccuracy (m * 2 ^ k) .exact >>> k =
      .ofMantissaAndAccuracy m .exact := by
  change k.repeat ExtendedMantissa.shiftRightOne _ = _
  induction k generalizing m with
  | zero => simp [Nat.repeat]
  | succ k ih =>
    have split : m * 2 ^ (k + 1) = m * 2 * 2 ^ k := by rw [Nat.pow_succ']; ring
    rw [Nat.repeat, split, ih]
    simp [ExtendedMantissa.shiftRightOne, ExtendedMantissa.ofMantissaAndAccuracy]

theorem mantissa_ofMantissaAndAccuracy (m : ℕ) (acc : Accuracy) :
    (ExtendedMantissa.ofMantissaAndAccuracy m acc).mantissa = m := by
  cases acc with
  | exact => rfl
  | inexact side => cases side <;> rfl

theorem roundedMantissa_bounds (x : ExtendedMantissa) :
    x.mantissa ≤ x.roundedMantissa ∧ x.roundedMantissa ≤ x.mantissa + 1 := by
  unfold ExtendedMantissa.roundedMantissa
  cases x.accuracy with
  | exact => exact ⟨le_rfl, Nat.le_succ _⟩
  | inexact side => cases side <;> simp only [Accuracy.roundToNearestEven] <;> omega

/-- From a number that has as many bits as the result, or more, or is at the lowest exponent. -/
theorem shiftToTargetExponent_eq (m : ℕ) {e : ℤ} (acc : Accuracy) (low : -1074 ≤ e) :
    shiftToTargetExponent Format.binary64 m e acc =
      (ExtendedMantissa.ofMantissaAndAccuracy m acc >>> (m.log2 - 52), e + (m.log2 - 52 : ℕ)) := by
  have shift : (max ((m.log2 : ℤ) + e - 52) (-1074) - e).toNat = m.log2 - 52 := by omega
  rw [shiftToTargetExponent, targetExponent_eq, shiftToExponent, shift]

theorem mantissa_shifted (m : ℕ) (acc : Accuracy) (k : ℕ) :
    (ExtendedMantissa.ofMantissaAndAccuracy m acc >>> k).mantissa = m / 2 ^ k := by
  rw [mantissa_shiftRight, mantissa_ofMantissaAndAccuracy]

/-- Rounding gives a float that is not below the power of two under the number, and not twice that
much above. -/
theorem exists_roundWithAccuracy_eq (s : Sign) {m : ℕ} {e : ℤ} (acc : Accuracy) (pos : 0 < m)
    (low : -1074 ≤ e) (full : 52 ≤ m.log2 ∨ e = -1074) :
    ∃ (m' : ℕ) (e' : ℤ) (h : 0 < m'),
      roundWithAccuracy Format.binary64 s m e acc = .finite s m' e' h ∧ Canonical m' e' ∧
        m.log2 + e ≤ m'.log2 + e' ∧ m'.log2 + e' ≤ m.log2 + e + 1 := by
  let q := (ExtendedMantissa.ofMantissaAndAccuracy m acc >>> (m.log2 - 52)).roundedMantissa
  obtain ⟨lower, upper⟩ : m / 2 ^ (m.log2 - 52) ≤ q ∧ q ≤ m / 2 ^ (m.log2 - 52) + 1 :=
    mantissa_shifted m acc _ ▸ roundedMantissa_bounds _
  have first : 0 < m / 2 ^ (m.log2 - 52) := div_two_pow_pos pos 52
  have kept : (m / 2 ^ (m.log2 - 52)).log2 = m.log2 - (m.log2 - 52) := log2_div_two_pow _ _
  have more : m.log2 - (m.log2 - 52) ≤ q.log2 := kept ▸ log2_le_log2 lower
  have atMost : q.log2 ≤ m.log2 - (m.log2 - 52) + 1 := by
    rw [← kept, ← Nat.log2_two_mul first.ne']
    exact log2_le_log2 (by omega)
  have positive : 0 < q := Nat.lt_of_lt_of_le first lower
  have last : (q / 2 ^ (q.log2 - 52)).log2 = q.log2 - (q.log2 - 52) := log2_div_two_pow _ _
  -- Rounding up may give the first number with one more bit, so the result is shifted once more.
  have rounded : roundWithAccuracy Format.binary64 s m e acc =
      .finite s (q / 2 ^ (q.log2 - 52)) (e + (m.log2 - 52 : ℕ) + (q.log2 - 52 : ℕ))
        (div_two_pow_pos positive 52) := by
    have low' : -1074 ≤ e + (m.log2 - 52 : ℕ) := by omega
    rw [roundWithAccuracy, shiftToTargetExponent_eq m acc low]
    dsimp only
    rw [shiftToTargetExponent_eq q .exact low']
    simp only [mantissa_shifted, (div_two_pow_pos positive 52).ne', dif_neg, not_false_eq_true]
  refine ⟨_, _, _, rounded, ⟨?_, ?_, ?_⟩, ?_, ?_⟩
  all_goals omega

/-- The same of a number with any mantissa. -/
theorem exists_round_eq (s : Sign) {m : ℕ} {e : ℤ} (pos : 0 < m) (low : -1074 ≤ e) :
    ∃ (m' : ℕ) (e' : ℤ) (h : 0 < m'), round Format.binary64 s m e = .finite s m' e' h ∧
      Canonical m' e' ∧ m.log2 + e ≤ m'.log2 + e' ∧ m'.log2 + e' ≤ m.log2 + e + 1 := by
  let shift := (e - max (m.log2 + e - 52) (-1074)).toNat
  have lowered : round Format.binary64 s m e =
      roundWithAccuracy Format.binary64 s (m * 2 ^ shift) (e - shift) .exact := by
    rw [UnpackedFloat.round, targetExponent_eq, decreaseExponent, Nat.shiftLeft_eq]
  have logs : (m * 2 ^ shift).log2 = m.log2 + shift := log2_mul_two_pow pos shift
  obtain ⟨m', e', pos', rounded, canonical, lower, upper⟩ :=
    exists_roundWithAccuracy_eq s .exact (Nat.mul_pos pos (Nat.two_pow_pos shift))
      (e := e - shift) (by omega) (by omega)
  exact ⟨m', e', pos', lowered.trans rounded, canonical, by omega, by omega⟩

theorem shiftToTargetExponent_exact {m : ℕ} {e : ℤ} (h : Canonical m e) (pos : 0 < m) (k : ℕ) :
    shiftToTargetExponent Format.binary64 (m * 2 ^ k) (e - k) .exact =
      (ExtendedMantissa.ofMantissaAndAccuracy m .exact, e) := by
  have same : totalExponent (m * 2 ^ k) (e - k) = totalExponent m e := by
    rw [totalExponent, totalExponent, log2_mul_two_pow pos]
    push_cast
    ring
  have shift : (e - (e - k)).toNat = k := by omega
  rw [shiftToTargetExponent, same, h.targetExponent, shiftToExponent, shift, shiftRight_mul_two_pow,
    sub_add_cancel]

/-- Rounding keeps what has room. -/
theorem roundWithAccuracy_exact (s : Sign) {m : ℕ} {e : ℤ} (h : Canonical m e) (pos : 0 < m) (k : ℕ) :
    roundWithAccuracy Format.binary64 s (m * 2 ^ k) (e - k) .exact = .finite s m e pos := by
  have again := shiftToTargetExponent_exact h pos 0
  rw [Nat.pow_zero, Nat.mul_one, Nat.cast_zero, sub_zero] at again
  have whole : (ExtendedMantissa.ofMantissaAndAccuracy m .exact).roundedMantissa = m := rfl
  rw [roundWithAccuracy, shiftToTargetExponent_exact h pos k]
  dsimp only
  rw [whole, again]
  simp only [mantissa_ofMantissaAndAccuracy, pos.ne', dif_neg, not_false_eq_true]

/-- A number with the value of a float is rounded to that float. -/
theorem round_exact (s : Sign) {m n : ℕ} {e f : ℤ} (h : Canonical m e) (pos : 0 < m)
    (same : n * 2 ^ (f - e).toNat = m * 2 ^ (e - f).toNat) :
    round Format.binary64 s n f = .finite s m e pos := by
  have positive : 0 < n := by
    refine Nat.pos_of_ne_zero fun zero => ?_
    rw [zero, Nat.zero_mul] at same
    exact (Nat.mul_pos pos (Nat.two_pow_pos _)).ne same
  have top : (n.log2 : ℤ) + f = m.log2 + e := by
    have logs := congrArg Nat.log2 same
    rw [log2_mul_two_pow positive, log2_mul_two_pow pos] at logs
    omega
  have target : Format.binary64.targetExponent (totalExponent n f) = e := by
    have total : totalExponent n f = totalExponent m e := by
      rw [totalExponent, totalExponent]
      omega
    rw [total, h.targetExponent]
  rw [UnpackedFloat.round, target, decreaseExponent, Nat.shiftLeft_eq, same]
  dsimp only
  have lowered : f - (f - e).toNat = e - (e - f).toNat := by omega
  rw [lowered, roundWithAccuracy_exact s h pos]

theorem toNat_implicit (v : BitVec 52) : (1#1 ++ v).toNat = 2 ^ 52 + v.toNat := by
  rw [BitVec.toNat_append, Nat.shiftLeft_eq]
  exact (Nat.two_pow_add_eq_or_of_lt v.isLt 1).symm

/-- What a float is unpacked to has the form in which rounding leaves numbers. -/
theorem canonical_of_unpack {b : BitVec Format.binary64.numBits} {s : Sign} {m : ℕ} {e : ℤ}
    {h : 0 < m} (unpacked : unpack Format.binary64 b = .finite s m e h) :
    Canonical m e ∧ e ≤ 971 := by
  have exponents : (unpackExponent b).toNat < 2048 := (unpackExponent b).isLt
  have mantissas : (unpackMantissa b).toNat < 2 ^ 52 := (unpackMantissa b).isLt
  unfold unpack at unpacked
  dsimp only at unpacked
  split at unpacked
  · split at unpacked <;> cases unpacked
  · next notLast =>
    have notLast : (unpackExponent b).toNat ≠ 2047 := fun last =>
      notLast (BitVec.eq_of_toNat_eq last)
    split at unpacked
    · next first =>
      -- Below the first full mantissa all floats have the lowest exponent.
      split at unpacked
      · cases unpacked
      · obtain ⟨rfl, rfl, rfl⟩ := UnpackedFloat.finite.inj unpacked
        have zero : (unpackExponent b).toNat = 0 := congrArg BitVec.toNat first
        have bits := (Nat.log2_lt h.ne').mpr mantissas
        refine ⟨⟨by omega, ?_, .inr ?_⟩, ?_⟩ <;> rw [zero] <;> decide
    · next notFirst =>
      obtain ⟨rfl, rfl, rfl⟩ := UnpackedFloat.finite.inj unpacked
      have notFirst : (unpackExponent b).toNat ≠ 0 := fun zero =>
        notFirst (BitVec.eq_of_toNat_eq zero)
      have full : (1#1 ++ unpackMantissa b).toNat.log2 = 52 := by
        rw [Nat.log2_eq_iff h.ne', toNat_implicit]
        omega
      have bias : ((Format.binary64.exponentBias : ℤ) + Format.binary64.mantissaBitsWithoutImplicit) =
        1075 := rfl
      rw [bias]
      exact ⟨⟨full.le, by omega, .inl full⟩, by omega⟩

theorem unpack_infinity (s : Sign) :
    unpack Format.binary64 (packedInfinity Format.binary64 s) = .infinity s := by
  cases s <;> rfl

theorem unpack_normal (s : Sign) {m n : ℕ} (full : m.log2 = 52) (pos : 0 < m) (first : 0 < n)
    (last : n < 2047) :
    unpack Format.binary64 (packComponents Format.binary64 s (BitVec.ofNat 11 n) (BitVec.ofNat 52 m)) =
      .finite s m (n - 1075) pos := by
  obtain ⟨lower, upper⟩ := (Nat.log2_eq_iff pos.ne').mp full
  have exponent : (BitVec.ofNat 11 n).toNat = n := Nat.mod_eq_of_lt (by omega)
  have mantissa : (1#1 ++ BitVec.ofNat 52 m).toNat = m := by
    rw [toNat_implicit, BitVec.toNat_ofNat]
    omega
  have notLast : BitVec.ofNat 11 n ≠ -1#11 := fun same => by
    have := congrArg BitVec.toNat same
    rw [exponent] at this
    exact last.ne this
  have notFirst : BitVec.ofNat 11 n ≠ 0#11 := fun same => by
    have := congrArg BitVec.toNat same
    rw [exponent] at this
    exact first.ne' this
  unfold unpack
  simp only [unpackExponent_packComponents, unpackMantissa_packComponents,
    unpackSign_packComponents, Sign.ofBitVec_toBitVec]
  rw [if_neg notLast, if_neg notFirst]
  simp only [exponent, mantissa]
  rfl

theorem unpack_subnormal (s : Sign) {m : ℕ} (few : m.log2 < 52) (pos : 0 < m) :
    unpack Format.binary64 (packComponents Format.binary64 s 0#11 (BitVec.ofNat 52 m)) =
      .finite s m (-1074) pos := by
  have mantissa : (BitVec.ofNat 52 m).toNat = m := Nat.mod_eq_of_lt ((Nat.log2_lt pos.ne').mp few)
  have notZero : BitVec.ofNat 52 m ≠ 0#52 := fun same => by
    have := congrArg BitVec.toNat same
    rw [mantissa] at this
    exact pos.ne' this
  have notLast : (0#11 : BitVec 11) ≠ -1#11 := by decide
  unfold unpack
  simp only [unpackExponent_packComponents, unpackMantissa_packComponents,
    unpackSign_packComponents, Sign.ofBitVec_toBitVec]
  rw [if_neg notLast, if_pos trivial, dif_neg notZero]
  simp only [mantissa]
  rfl

/-- A float is the same after packing, unless its exponent is too high. -/
theorem unpack_pack {s : Sign} {m : ℕ} {e : ℤ} (h : Canonical m e) (pos : 0 < m) :
    unpack Format.binary64 (pack Format.binary64 (.finite s m e pos)) =
      if 971 < e then .infinity s else .finite s m e pos := by
  have low := h.low
  have bits := h.bits
  have bias : (e + Format.binary64.exponentBias + Format.binary64.mantissaBitsWithoutImplicit).toNat =
      (e + 1075).toNat := by
    change (e + 1023 + 52).toNat = _
    congr 1
    ring
  have last : (2 ^ Format.binary64.exponentBits ≤ (e + 1075).toNat + 1) ↔ 971 < e := by
    change 2048 ≤ _ ↔ _
    omega
  have width : m.log2 + 1 = Format.binary64.mantissaBits ↔ m.log2 = 52 := by
    change _ + 1 = 53 ↔ _
    omega
  rw [pack, bias]
  simp only [last, width]
  split
  · exact unpack_infinity s
  · next finite =>
    split
    · next full =>
      refine (unpack_normal s full pos (n := (e + 1075).toNat) (by omega) (by omega)).trans ?_
      congr 1
      omega
    · next few =>
      obtain rfl : e = -1074 := h.full.resolve_left few
      exact unpack_subnormal s (by omega) pos

end Evolution.Binary
