import Evolution.Proofs.Binary.Nearest
import Evolution.Proofs.Binary.Whole

/-! The operations on floats as operations on numbers. A sum, a difference, a product or a quotient of
two floats is that of the numbers they stand for, rounded. -/

namespace Evolution.Binary

open Float.Model (Format UnpackedFloat totalExponent)
open Float.Model.UnpackedFloat

section Operations

variable {x y : Float} {a b r : ℚ}

theorem Canonical.mul_zpow_le {m : ℕ} {e k : ℤ} (h : Canonical m e) (pos : 0 < m) (low : e ≤ k) :
    (m : ℚ) * 2 ^ e ≤ (2 ^ 53 - 1) * 2 ^ k := by
  have few : m < 2 ^ 53 := (Nat.log2_lt pos.ne').mp (Nat.lt_succ_of_le h.bits)
  have few' : (m : ℚ) ≤ 2 ^ 53 - 1 := by
    rw [le_sub_iff_add_le]
    exact_mod_cast few
  have power : (2 : ℚ) ^ e ≤ 2 ^ k := zpow_le_zpow_right₀ one_le_two low
  exact mul_le_mul few' power (by positivity) (by norm_num)

theorem abs_le_greatest (h : number? x = some a) : |a| ≤ greatest := by
  rw [greatest_eq]
  rcases number?_eq_some h with ⟨-, -, rfl⟩ | ⟨s, m, e, pos, -, canonical, high, rfl⟩
  · rw [abs_zero]
    positivity
  · rw [abs_apply_mul_zpow]
    exact canonical.mul_zpow_le pos high

theorem abs_lt_room (h : number? x = some a) : |a| < room :=
  (abs_le_greatest h).trans_lt greatest_lt_room

theorem isFinite_iff : x.isFinite = true ↔ ∃ a, number? x = some a := by
  change x.toModel.unpack.isFinite = true ↔ ∃ a, numberOf x.toModel.unpack = some a
  cases x.toModel.unpack <;> simp [UnpackedFloat.isFinite, numberOf]

theorem Rounds.isFinite_iff (h : Rounds r x.toModel.unpack) : x.isFinite = true ↔ |r| < room := by
  rw [Binary.isFinite_iff, ← h.isSome_numberOf_iff, Option.isSome_iff_exists]
  rfl

theorem Rounds.exists_number? (h : Rounds r x.toModel.unpack) (few : |r| < room) :
    ∃ v, number? x = some v ∧ Near r v := by
  rcases h with ⟨-, v, near, number⟩ | ⟨large, -⟩
  · exact ⟨v, number, near⟩
  · exact absurd few (not_lt_of_ge large)

theorem rounds_of_number? (h : number? x = some r) : Rounds r x.toModel.unpack :=
  .inl ⟨abs_lt_room h, r, near_self r, h⟩

theorem fits_of_number? (h : number? x = some a) : Fits a := by
  rcases number?_eq_some h with ⟨-, -, zero⟩ | ⟨s, m, e, pos, -, canonical, high, value⟩
  · exact .inl zero
  · exact .inr ⟨s, m, e, pos, canonical, high, value⟩

theorem rounds_add (hx : number? x = some a) (hy : number? y = some b) :
    Rounds (a + b) (x + y).toModel.unpack := by
  rcases number?_eq_some hx with ⟨s, ux, rfl⟩ | ⟨s, m, e, pos, ux, -, -, rfl⟩
  · have fits := fits_of_number? hy
    rw [← zero_add b] at fits
    exact rounds_of_number? (number?_add hx hy fits).1
  · rcases number?_eq_some hy with ⟨t, uy, rfl⟩ | ⟨t, n, f, pos', uy, -, -, rfl⟩
    · have fits := fits_of_number? hx
      rw [← add_zero (_ * _)] at fits
      exact rounds_of_number? (number?_add hx hy fits).1
    · obtain ⟨k, rounded, value⟩ := exists_add_eq s t e f pos pos'
      rw [unpack_add, ux, uy, rounded, ← value]
      exact rounds_normalize k _ .positive

theorem rounds_sub (hx : number? x = some a) (hy : number? y = some b) :
    Rounds (a - b) (x - y).toModel.unpack := by
  rcases number?_eq_some hx with ⟨s, ux, rfl⟩ | ⟨s, m, e, pos, ux, -, -, rfl⟩
  · rcases number?_eq_some hy with ⟨t, uy, rfl⟩ | ⟨t, n, f, pos', uy, canonical, high, rfl⟩
    · refine rounds_of_number? ?_
      rw [number?, unpack_sub, ux, uy, sub_zero]
      cases s <;> cases t <;> rfl
    · refine rounds_of_number? ?_
      have negated : UnpackedFloat.sub Format.binary64 (.zero s) (.finite t n f pos') =
          .finite (-t) n f pos' := rfl
      rw [number?, unpack_sub, ux, uy, negated, unpack_pack canonical pos', if_neg (by omega),
        numberOf, apply_neg]
      simp
  · rcases number?_eq_some hy with ⟨t, uy, rfl⟩ | ⟨t, n, f, pos', uy, -, -, rfl⟩
    · have same := unpack_pack_unpack x
      rw [ux] at same
      refine rounds_of_number? ?_
      rw [number?, unpack_sub, ux, uy, sub_zero]
      exact congrArg numberOf same
    · obtain ⟨k, rounded, value⟩ := exists_sub_eq s t e f pos pos'
      rw [unpack_sub, ux, uy, rounded, ← value]
      exact rounds_normalize k _ .positive

theorem apply_mul (s t : Sign) : (s * t).apply 1 = s.apply 1 * t.apply 1 := by
  cases s <;> cases t <;> rfl

theorem apply_div (s t : Sign) : (s / t).apply 1 = s.apply 1 * t.apply 1 := by
  cases s <;> cases t <;> rfl

/-- The product of two floats with any mantissas, as long as they have enough bits together. -/
theorem rounds_mul_finite (s t : Sign) {m n : ℕ} {e f : ℤ} (pos : 0 < m) (pos' : 0 < n)
    (full : 52 ≤ (m * n).log2 ∨ e + f ≤ -1074) :
    Rounds (s.apply m * 2 ^ e * (t.apply n * 2 ^ f)) (unpack Format.binary64
      (pack Format.binary64
        (UnpackedFloat.mul Format.binary64 (.finite s m e pos) (.finite t n f pos')))) := by
  have value : (s.apply m * 2 ^ e * (t.apply n * 2 ^ f) : ℚ) =
      (s * t).apply 1 * ((m * n : ℕ) * 2 ^ (e + f)) := by
    rw [apply_eq s, apply_eq t, apply_mul, zpow_add₀ two_ne_zero, Nat.cast_mul, Int.cast_mul]
    ring
  rw [value]
  exact rounds_roundWithAccuracy (s * t) (represents_exact (m * n)) full

theorem rounds_mul (hx : number? x = some a) (hy : number? y = some b) :
    Rounds (a * b) (x * y).toModel.unpack := by
  rw [unpack_mul]
  rcases number?_eq_some hx with ⟨s, ux, rfl⟩ | ⟨s, m, e, pos, ux, canonical, -, rfl⟩
  · rcases number?_eq_some hy with ⟨t, uy, rfl⟩ | ⟨t, n, f, pos', uy, -, -, rfl⟩ <;>
      rw [ux, uy, zero_mul] <;> exact rounds_zero_zero (s * t)
  · rcases number?_eq_some hy with ⟨t, uy, rfl⟩ | ⟨t, n, f, pos', uy, canonical', -, rfl⟩
    · rw [ux, uy, mul_zero]
      exact rounds_zero_zero (s * t)
    · have logs := add_log2_le_log2_mul pos pos'
      have := canonical.full
      have := canonical'.full
      rw [ux, uy]
      exact rounds_mul_finite s t pos pos' (by omega)

theorem le_log2_div {m n k : ℕ} (pos : 0 < m) (pos' : 0 < n) (many : n.log2 + 1 + k ≤ m.log2) :
    k ≤ (m / n).log2 := by
  have above : 2 ^ k ≤ m / n := by
    rw [Nat.le_div_iff_mul_le pos']
    calc 2 ^ k * n ≤ 2 ^ k * 2 ^ (n.log2 + 1) := Nat.mul_le_mul_left _ Nat.lt_log2_self.le
      _ = 2 ^ (n.log2 + 1 + k) := by rw [← Nat.pow_add, Nat.add_comm]
      _ ≤ 2 ^ m.log2 := Nat.pow_le_pow_right Nat.two_pos many
      _ ≤ m := Nat.log2_self_le pos.ne'
  exact (Nat.le_log2 ((Nat.two_pow_pos k).trans_le above).ne').mpr above

/-- What is left of a division tells how far the quotient is off. -/
theorem represents_accuracyOfFraction (q : ℕ) {left n : ℕ} (less : left < n) :
    Represents (.ofMantissaAndAccuracy q (accuracyOfFraction left n)) (q + left / n) := by
  have positive : (0 : ℚ) < n := by exact_mod_cast Nat.zero_lt_of_lt less
  have least : (0 : ℚ) ≤ left / n := by positivity
  have most : (left / n : ℚ) < 1 := by
    rw [div_lt_one positive]
    exact_mod_cast less
  have twice : 2 * (left / n : ℚ) = (2 * left : ℕ) / n := by
    rw [Nat.cast_mul, Nat.cast_ofNat, mul_div_assoc]
  rw [accuracyOfFraction]
  split
  · next none =>
    simpa [none] using represents_exact q
  next more =>
  have some : (left / n : ℚ) ≠ 0 := by simp [more, positive.ne']
  rcases lt_trichotomy (2 * left) n with below | half | above
  · have below' : 2 * (left / n : ℚ) < 1 := by
      rw [twice, div_lt_one positive]
      exact_mod_cast below
    rw [compare_lt_iff_lt.mpr below]
    refine ⟨left / n, ?_, least, by linarith, ?_⟩
    · simp [ExtendedMantissa.ofMantissaAndAccuracy]
    · simp [ExtendedMantissa.ofMantissaAndAccuracy, some]
  · have half' : 2 * (left / n : ℚ) = 1 := by rw [twice, half, div_self positive.ne']
    rw [compare_eq_iff_eq.mpr half]
    refine ⟨0, ?_, le_rfl, by norm_num, ?_⟩
    · simp [ExtendedMantissa.ofMantissaAndAccuracy]
      linarith
    · simp [ExtendedMantissa.ofMantissaAndAccuracy]
  · have above' : 1 < 2 * (left / n : ℚ) := by
      rw [twice, one_lt_div positive]
      exact_mod_cast above
    rw [compare_gt_iff_gt.mpr above]
    refine ⟨left / n - 1 / 2, ?_, by linarith, by linarith, ?_⟩
    · simp [ExtendedMantissa.ofMantissaAndAccuracy]
    · simp [ExtendedMantissa.ofMantissaAndAccuracy]
      linarith

/-- A quotient, with what the remainder tells of the rest. -/
theorem represents_div (m : ℕ) {n : ℕ} (pos : 0 < n) :
    Represents (.ofMantissaAndAccuracy (m / n) (accuracyOfFraction (m % n) n)) (m / n : ℚ) := by
  have split : (m / n : ℚ) = (m / n : ℕ) + (m % n : ℕ) / n := by
    have some : (n : ℚ) ≠ 0 := by exact_mod_cast pos.ne'
    rw [div_eq_iff some, add_mul, div_mul_cancel₀ _ some]
    exact_mod_cast (Nat.div_add_mod' m n).symm
  rw [split]
  exact represents_accuracyOfFraction (m / n) (Nat.mod_lt m pos)

/-- The quotient of two floats with any mantissas. -/
theorem rounds_div_finite (s t : Sign) {m n : ℕ} (e f : ℤ) (pos : 0 < m) (pos' : 0 < n) :
    Rounds (s.apply m * 2 ^ e / (t.apply n * 2 ^ f)) (unpack Format.binary64
      (pack Format.binary64
        (UnpackedFloat.div Format.binary64 (.finite s m e pos) (.finite t n f pos')))) := by
  -- The dividend is shifted until the quotient has more bits than floats have.
  obtain ⟨shift, target, enough⟩ : ∃ shift : ℕ, e - f - min (e - f) (Format.binary64.targetExponent
      (totalExponent m e - totalExponent n f)) = shift ∧
      (n.log2 + 1 + 52 ≤ m.log2 + shift ∨ e - f - shift ≤ -1074) := by
    have exponent : Format.binary64.targetExponent (totalExponent m e - totalExponent n f) =
        max ((m.log2 : ℤ) + 1 + e - (n.log2 + 1 + f) - (53 : ℕ)) (-1074) := rfl
    rw [exponent]
    refine ⟨_, (Int.toNat_of_nonneg ?_).symm, ?_⟩ <;> omega
  have quotient : UnpackedFloat.div Format.binary64 (.finite s m e pos) (.finite t n f pos') =
      roundWithAccuracy Format.binary64 (s / t) (m * 2 ^ shift / n) (e - f - shift)
        (accuracyOfFraction (m * 2 ^ shift % n) n) := by
    have low := sub_eq_iff_eq_add'.mp target
    rw [UnpackedFloat.div, divCore, target, Int.toNat_natCast, Nat.shiftLeft_eq,
      eq_sub_of_add_eq low.symm]
  have value : (s.apply m * 2 ^ e / (t.apply n * 2 ^ f) : ℚ) =
      (s / t).apply 1 * ((m * 2 ^ shift : ℕ) / n * 2 ^ (e - f - shift)) := by
    have unit : (t.apply 1 : ℚ) * t.apply 1 = 1 := by cases t <;> simp [Sign.apply]
    have some : (t.apply 1 : ℚ) ≠ 0 := left_ne_zero_of_mul_eq_one unit
    have positive : (n : ℚ) ≠ 0 := by exact_mod_cast pos'.ne'
    rw [apply_eq s, apply_eq t, apply_div, zpow_sub₀ two_ne_zero, zpow_sub₀ two_ne_zero, zpow_natCast,
      Nat.cast_mul, Nat.cast_pow, Nat.cast_ofNat, Int.cast_mul]
    field_simp
    linear_combination (-(s.apply 1 : ℚ)) * unit
  have logs : (m * 2 ^ shift).log2 = m.log2 + shift := log2_mul_two_pow pos shift
  rw [quotient, value]
  refine rounds_roundWithAccuracy (s / t) (represents_div _ pos') (enough.imp_left fun many => ?_)
  exact le_log2_div (Nat.mul_pos pos (Nat.two_pow_pos shift)) pos' (by omega)

theorem rounds_div (hx : number? x = some a) (hy : number? y = some b) (nonzero : b ≠ 0) :
    Rounds (a / b) (x / y).toModel.unpack := by
  rw [unpack_div]
  rcases number?_eq_some hy with ⟨t, -, zero⟩ | ⟨t, n, f, pos', uy, -, -, rfl⟩
  · exact absurd zero nonzero
  · rcases number?_eq_some hx with ⟨s, ux, rfl⟩ | ⟨s, m, e, pos, ux, -, -, rfl⟩
    · have none : (0 : ℚ) / (t.apply n * 2 ^ f) = 0 := by simp
      rw [ux, uy, none]
      exact rounds_zero_zero (s / t)
    · rw [ux, uy]
      exact rounds_div_finite s t e f pos pos'

end Operations

end Evolution.Binary
