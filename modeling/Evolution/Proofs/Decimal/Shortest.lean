import Evolution.Decimal.Shortest
import Evolution.Proofs.Binary.Nearest

/-! The decimal that is written for a float is not more than half a unit above it, so it has room
also where it is larger than the greatest float. -/

namespace Evolution

namespace Decimal

open Binary

def Scaled.value (d : Scaled) : ℚ := d.digits * 10 ^ d.exponent

/-- Not above the end of the interval that is read as the float, which belongs to it if the mantissa is
even. -/
def NotAbove (m : ℕ) (q : ℤ) (v : ℚ) : Prop :=
  v ≤ (m + 1 / 2) * 2 ^ q ∧ (m % 2 = 1 → v < (m + 1 / 2) * 2 ^ q)

theorem pow_toNat_mul_zpow {b : ℚ} (nonzero : b ≠ 0) (j : ℤ) :
    b ^ (-j).toNat * b ^ j = b ^ j.toNat := by
  rw [← zpow_natCast, ← zpow_natCast, ← zpow_add₀ nonzero]
  congr 1
  omega

/-- The two sides of a comparison on a grid have one denominator. -/
theorem grid_scale (q k : ℤ) :
    ((2 ^ (2 - q).toNat * 10 ^ k.toNat : ℕ) : ℚ) * 2 ^ (q - 2) =
      ((2 ^ (q - 2).toNat * 10 ^ (-k).toNat : ℕ) : ℚ) * 10 ^ k := by
  have two := pow_toNat_mul_zpow (b := 2) (by norm_num) (q - 2)
  have ten := pow_toNat_mul_zpow (b := 10) (by norm_num) k
  rw [neg_sub] at two
  push_cast
  linear_combination (10 : ℚ) ^ k.toNat * two - (2 : ℚ) ^ (q - 2).toNat * ten

/-- Counted in quarters of a unit, with one denominator for the float and the grid. -/
theorem notAbove_of_scaled {m left right : ℕ} {q : ℤ} {d : Scaled} (positive : (0 : ℚ) < left)
    (scale : (right : ℚ) * 2 ^ (q - 2) = left * 10 ^ d.exponent)
    (within : d.digits * right ≤ (4 * m + 2) * left ∧
      (m % 2 = 1 → d.digits * right < (4 * m + 2) * left)) : NotAbove m q d.value := by
  have power : (0 : ℚ) < 2 ^ (q - 2) := by positivity
  have here : d.value * left = (d.digits * right : ℕ) * 2 ^ (q - 2) := by
    rw [Scaled.value, Nat.cast_mul]
    linear_combination (-(d.digits : ℚ)) * scale
  have bound : (m + 1 / 2) * 2 ^ q * left = (((4 * m + 2) * left : ℕ) : ℚ) * 2 ^ (q - 2) := by
    have quarter : (2 : ℚ) ^ q = 4 * 2 ^ (q - 2) := by
      rw [zpow_sub₀ two_ne_zero]
      norm_num
      ring
    rw [quarter]
    push_cast
    ring
  refine ⟨le_of_mul_le_mul_right ?_ positive, fun odd => lt_of_mul_lt_mul_right ?_ positive.le⟩
  · rw [here, bound]
    exact mul_le_mul_of_nonneg_right (by exact_mod_cast within.1) power.le
  · rw [here, bound]
    exact mul_lt_mul_of_pos_right (by exact_mod_cast within.2 odd) power

theorem notAbove_of_onGrid? {tie : Tie} {m : ℕ} {q k : ℤ} {d : Scaled}
    (found : onGrid? tie m q k = some d) : NotAbove m q d.value := by
  unfold onGrid? at found
  extract_lets left right low high value fits n rest nearer at found
  have scale : (right : ℚ) * 2 ^ (q - 2) = left * 10 ^ k := grid_scale q k
  have positive : (0 : ℚ) < left := by
    simp only [left, Nat.pow_eq]
    positivity
  have close : nearer = n ∨ nearer = n + 1 := by
    simp only [nearer]
    split
    · exact .inl rfl
    split
    · exact .inr rfl
    cases tie with
    | up => exact .inr rfl
    | even =>
      change n + n % 2 = n ∨ n + n % 2 = n + 1
      omega
  -- Whichever neighbour is chosen, it lies in the interval.
  obtain ⟨fitting, rfl⟩ : fits d.digits = true ∧ d.exponent = k := by
    split at found
    · next first second =>
      obtain rfl := Option.some.inj found
      rcases close with same | same
      · exact ⟨same ▸ first, rfl⟩
      · exact ⟨same ▸ second, rfl⟩
    · next first _ =>
      obtain rfl := Option.some.inj found
      exact ⟨first, rfl⟩
    · next _ second =>
      obtain rfl := Option.some.inj found
      exact ⟨second, rfl⟩
    · cases found
  have within : d.digits * right ≤ high ∧ (m % 2 = 1 → d.digits * right < high) := by
    simp only [fits] at fitting
    split at fitting
    · next even =>
      have := of_decide_eq_true (Bool.and_eq_true_iff.mp fitting).2
      exact ⟨this, by omega⟩
    · have := of_decide_eq_true (Bool.and_eq_true_iff.mp fitting).2
      exact ⟨this.le, fun _ => this⟩
  exact notAbove_of_scaled positive scale within

theorem notAbove_of_onGrids? {tie : Tie} {m : ℕ} {q : ℤ} {d : Scaled} {tries : ℕ} {k : ℤ}
    (found : onGrids? tie m q tries k = some d) : NotAbove m q d.value := by
  induction tries generalizing k with
  | zero => cases found
  | succ tries ih =>
    rw [onGrids?, Option.or_eq_some_iff] at found
    rcases found with first | ⟨-, later⟩
    · exact notAbove_of_onGrid? first
    · exact ih later

/-- The decimal of a float is below the numbers that have no room. -/
theorem value_shortest_lt (tie : Tie) {m : ℕ} {q : ℤ} (h : Canonical m q) (pos : 0 < m)
    (high : q ≤ 971) : (shortest tie m q).value < room := by
  have few : m < 2 ^ 53 := (Nat.log2_lt pos.ne').mp (Nat.lt_succ_of_le h.bits)
  have top : (0 : ℚ) < 2 ^ (971 : ℤ) := by positivity
  rw [shortest, room_eq]
  cases found : onGrids? tie m q 22 (coarsest m q) with
  | none =>
    have less : (m : ℚ) < 2 ^ 53 - 1 / 2 := by
      have : (m : ℚ) + 1 ≤ 2 ^ 53 := by exact_mod_cast few
      linarith
    calc (Scaled.mk m 0).value = m := by rw [Scaled.value, zpow_zero, mul_one]
      _ < 2 ^ 53 - 1 / 2 := less
      _ ≤ (2 ^ 53 - 1 / 2) * 2 ^ (971 : ℤ) :=
        le_mul_of_one_le_right (by norm_num) (one_le_zpow₀ one_le_two (by decide))
  | some d =>
    obtain ⟨most, odd⟩ := notAbove_of_onGrids? found
    have power : (2 : ℚ) ^ q ≤ 2 ^ (971 : ℤ) := zpow_le_zpow_right₀ one_le_two high
    rcases Nat.mod_two_eq_zero_or_one m with even | one
    · have less : (m : ℚ) + 1 / 2 < 2 ^ 53 - 1 / 2 := by
        have : m + 2 ≤ 2 ^ 53 := by omega
        have : (m : ℚ) + 2 ≤ 2 ^ 53 := by exact_mod_cast this
        linarith
      calc d.value ≤ (m + 1 / 2) * 2 ^ q := most
        _ ≤ (m + 1 / 2) * 2 ^ (971 : ℤ) := mul_le_mul_of_nonneg_left power (by positivity)
        _ < (2 ^ 53 - 1 / 2) * 2 ^ (971 : ℤ) := mul_lt_mul_of_pos_right less top
    · have less : (m : ℚ) + 1 / 2 ≤ 2 ^ 53 - 1 / 2 := by
        have : (m : ℚ) + 1 ≤ 2 ^ 53 := by exact_mod_cast few
        linarith
      calc d.value < (m + 1 / 2) * 2 ^ q := odd one
        _ ≤ (m + 1 / 2) * 2 ^ (971 : ℤ) := mul_le_mul_of_nonneg_left power (by positivity)
        _ ≤ (2 ^ 53 - 1 / 2) * 2 ^ (971 : ℤ) := mul_le_mul_of_nonneg_right less top.le

end Decimal

end Evolution
