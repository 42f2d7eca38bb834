import Evolution.Proofs.Binary.Whole
import Evolution.Proofs.Draw.Outcomes

/-! Random fractions. A word stands for a fraction from zero up to one, one excluded, so it is below a
probability of one and not below a probability of zero. -/

namespace Evolution

namespace Binary

open Float.Model (Format UnpackedFloat)
open Float.Model.UnpackedFloat

/-- Zero, or positive and of size below one. -/
def Fractional (u : UnpackedFloat) : Prop :=
  u = .zero .positive ∨ ∃ m e pos, u = .finite .positive m e pos ∧ Canonical m e ∧
    (m.log2 : ℤ) + e < 0

variable {x y : Float}

theorem lt_iff : x < y ↔
    UnpackedFloat.compare x.toModel.unpack y.toModel.unpack = some .lt :=
  decide_eq_true_iff.trans beq_iff_eq

theorem log2_add_lt {n m : ℕ} {e : ℤ} (pos : 0 < m) (value : (n : ℚ) = m * 2 ^ e) (few : n < 2 ^ 53) :
    (m.log2 : ℤ) + e < 53 := by
  by_contra large
  have power : (0 : ℚ) < 2 ^ e := by positivity
  have first : (2 : ℚ) ^ (m.log2 : ℤ) ≤ m := by
    rw [zpow_natCast]
    exact_mod_cast Nat.log2_self_le pos.ne'
  have least : (2 : ℚ) ^ (53 : ℤ) ≤ n := calc
    (2 : ℚ) ^ (53 : ℤ) ≤ 2 ^ ((m.log2 : ℤ) + e) := zpow_le_zpow_right₀ one_le_two (not_lt.mp large)
    _ = 2 ^ (m.log2 : ℤ) * 2 ^ e := zpow_add₀ two_ne_zero _ _
    _ ≤ m * 2 ^ e := mul_le_mul_of_nonneg_right first power.le
    _ = n := value.symm
  exact absurd few (not_lt.mpr (by exact_mod_cast least))

/-- A number of 53 bits moved behind the point. -/
theorem fractional_ofNat_mul {n : ℕ} (few : n < 2 ^ 53) :
    Fractional (Float.ofNat n * Float.ofBits 0x3CA0000000000000).toModel.unpack := by
  rcases Nat.eq_zero_or_pos n with rfl | some
  · exact .inl rfl
  · obtain ⟨m, e, pos, unpacked, value⟩ := unpack_ofNat_of_lt some few
    have unit : (Float.ofBits 0x3CA0000000000000).toModel.unpack =
        .finite .positive (2 ^ 52) (-105) (by decide) := rfl
    have upper := log2_add_lt pos value few
    have lower : 0 ≤ (m.log2 : ℤ) + e := by
      rw [← one_le_mul_zpow_iff pos, ← value]
      exact_mod_cast some
    obtain ⟨⟨bits, low, full⟩, -⟩ := canonical_of_unpack unpacked
    have canonical : Canonical m (e - 53) := ⟨bits, by omega, by omega⟩
    have exponent : e + -105 = e - 53 - (52 : ℕ) := by omega
    have product : UnpackedFloat.mul Format.binary64 (.finite .positive m e pos)
        (.finite .positive (2 ^ 52) (-105) (by decide)) = .finite .positive m (e - 53) pos := by
      have rounded := roundWithAccuracy_exact .positive canonical pos 52
      rw [← exponent] at rounded
      exact rounded
    rw [unpack_mul, unpacked, unit, product, unpack_pack canonical pos, if_neg (by omega)]
    exact .inr ⟨m, e - 53, pos, rfl, canonical, by omega⟩

theorem lt_of_fractional (h : Fractional x.toModel.unpack) (above : 1 ≤ y) : x < y := by
  rw [lt_iff]
  rcases one_le_iff.mp above with hy | ⟨n, f, pos', hy, size'⟩
  · rcases h with hx | ⟨m, e, pos, hx, -, -⟩ <;> rw [hx, hy] <;> rfl
  · rcases h with hx | ⟨m, e, pos, hx, canonical, size⟩
    · rw [hx, hy]
      rfl
    · obtain ⟨canonical', -⟩ := canonical_of_unpack hy
      have below : e < f := by
        have := canonical.full
        have := canonical'.bits
        omega
      rw [hx, hy]
      simp [UnpackedFloat.compare, compare_lt_iff_lt.mpr below]

theorem not_lt_of_fractional (h : Fractional x.toModel.unpack) (below : y ≤ 0) : ¬x < y := by
  have compared : (UnpackedFloat.compare y.toModel.unpack (.zero .positive)).any (·.isLE) = true :=
    of_decide_eq_true below
  rw [lt_iff]
  cases hy : y.toModel.unpack with
  | notANumber =>
    rw [hy] at compared
    cases compared
  | zero s => rcases h with hx | ⟨m, e, pos, hx, -, -⟩ <;> rw [hx] <;> nofun
  | infinity s | finite s =>
    cases s with
    | positive =>
      rw [hy] at compared
      cases compared
    | negative => rcases h with hx | ⟨m, e, pos, hx, -, -⟩ <;> rw [hx] <;> nofun

end Binary

namespace Draw

/-- The fraction that a word stands for. -/
def fractionOf (w : UInt64) : Float :=
  Float.ofNat (w >>> 11).toNat * Float.ofBits 0x3CA0000000000000

theorem runFrom_unit (words : Words) (position : Nat) :
    unit.runFrom words position = .ok (fractionOf (words position), position + 1) :=
  rfl

theorem fractional_fractionOf (w : UInt64) : Binary.Fractional (fractionOf w).toModel.unpack := by
  apply Binary.fractional_ofNat_mul
  have word := w.toNat_lt
  have shifted : (w >>> 11).toNat = w.toNat / 2 ^ 11 := by
    simp [Nat.shiftRight_eq_div_pow]
  omega

theorem fractionOf_lt {p : Float} (w : UInt64) (certain : 1 ≤ p) : fractionOf w < p :=
  Binary.lt_of_fractional (fractional_fractionOf w) certain

theorem not_fractionOf_lt {p : Float} (w : UInt64) (impossible : p ≤ 0) : ¬fractionOf w < p :=
  Binary.not_lt_of_fractional (fractional_fractionOf w) impossible

end Draw

end Evolution
