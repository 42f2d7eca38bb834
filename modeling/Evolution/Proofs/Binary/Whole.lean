import Evolution.Proofs.Binary.Magnitude

/-! Integers as floats. An integer below the fifty-third power of two is exact. Another is rounded, to a
whole number that is not below that power. -/

namespace Evolution.Binary

open Float.Model (Format UnpackedFloat)
open Float.Model.UnpackedFloat

section Naturals

variable {n : ℕ}

theorem unpack_ofNat_of_lt (pos : 0 < n) (few : n < 2 ^ 53) :
    ∃ (m : ℕ) (e : ℤ) (h : 0 < m),
      (Float.ofNat n).toModel.unpack = .finite .positive m e h ∧ (n : ℚ) = m * 2 ^ e := by
  have short : Float.ofNat n = n.toUInt64.toFloat * Float.ofBits 0x3FF0000000000000 := by
    have fast : n < 2 ^ 53 ∧ 0 ≤ 22 := ⟨few, by decide⟩
    change Float.ofScientific n false 0 = _
    rw [Float.ofScientific, dif_pos fast]
    rfl
  have one : (Float.ofBits 0x3FF0000000000000).toModel.unpack =
      .finite .positive (2 ^ 52) (-52) (by decide) := rfl
  have word : n.toUInt64.toNat = n := Nat.mod_eq_of_lt (by omega)
  have converted : n.toUInt64.toFloat.toModel.unpack = unpack Format.binary64
      (pack Format.binary64 (UnpackedFloat.normalize Format.binary64 n 0 .positive)) := by
    conv_rhs => rw [← word]
    rfl
  have integer : ((n : ℤ) : ℚ) * 2 ^ (0 : ℤ) = n := by simp
  have fits : Fits (((n : ℤ) : ℚ) * 2 ^ (0 : ℤ)) := fits_mul_zpow (by omega) (by decide) (by decide)
  rcases fits with zero | ⟨s, m, e, pos', canonical, high, value⟩
  · rw [integer] at zero
    exact absurd zero (by exact_mod_cast pos.ne')
  · obtain rfl : .positive = s := sign_eq (t := .positive) pos' pos value
    have product : UnpackedFloat.mul Format.binary64 (.finite .positive m e pos')
        (.finite .positive (2 ^ 52) (-52) (by decide)) = .finite .positive m e pos' :=
      roundWithAccuracy_exact _ canonical pos' 52
    rw [normalize_eq pos' canonical value, unpack_pack canonical pos', if_neg (by omega)] at converted
    rw [integer] at value
    refine ⟨m, e, pos', ?_, value⟩
    rw [short, unpack_mul, converted, one, product]
    exact (unpack_pack canonical pos').trans (if_neg (by omega))

theorem unpack_ofNat_of_le (many : 2 ^ 53 ≤ n) (few : n < 2 ^ 64) :
    ∃ (m : ℕ) (e : ℤ) (h : 0 < m), (Float.ofNat n).toModel.unpack = .finite .positive m e h ∧
      53 ≤ (m.log2 : ℤ) + e ∧ (m.log2 : ℤ) + e ≤ 64 := by
  have pos : 0 < n := by omega
  have lower : 53 ≤ n.log2 := (Nat.le_log2 pos.ne').mpr many
  have upper : n.log2 < 64 := (Nat.log2_lt pos.ne').mpr few
  have long : (Float.ofNat n).toModel.unpack = unpack Format.binary64
      (pack Format.binary64 (ofScientific Format.binary64 n 0)) := by
    have slow : ¬(n < 2 ^ 53 ∧ 0 ≤ 22) := by omega
    change (Float.ofScientific n false 0).toModel.unpack = _
    rw [Float.ofScientific, dif_neg slow]
    rfl
  have scaled : ofScientific Format.binary64 n 0 =
      roundWithAccuracy Format.binary64 .positive (n * 2 ^ 53) (-53) .exact := by
    have small : ¬(0 : ℤ) < -((2 ^ Format.binary64.exponentBits : ℤ) + n.log2) := by
      push_cast
      omega
    rw [ofScientific, dif_neg pos.ne', if_neg (by decide), if_neg small, if_pos le_rfl]
    simp only [UnpackedFloat.mul, Nat.shiftLeft_eq]
    change roundWithAccuracy Format.binary64 .positive (n * 2 ^ 53 * 10 ^ 0) (-53) .exact = _
    rw [pow_zero, mul_one]
  have logs : (n * 2 ^ 53).log2 = n.log2 + 53 := log2_mul_two_pow pos 53
  obtain ⟨m, e, pos', rounded, canonical, least, most⟩ :=
    exists_roundWithAccuracy_eq .positive .exact (Nat.mul_pos pos (Nat.two_pow_pos 53)) (e := -53)
      (by decide) (by omega)
  refine ⟨m, e, pos', ?_, by omega, by omega⟩
  rw [long, scaled, rounded, unpack_pack canonical pos', if_neg]
  have := canonical.full
  have := canonical.bits
  omega

/-- A count is a float of one or more, and not a very large one. -/
theorem exists_unpack_ofNat (pos : 0 < n) (few : n < 2 ^ 64) :
    ∃ (m : ℕ) (e : ℤ) (h : 0 < m), (Float.ofNat n).toModel.unpack = .finite .positive m e h ∧
      0 ≤ (m.log2 : ℤ) + e ∧ e ≤ 900 := by
  by_cases small : n < 2 ^ 53
  · obtain ⟨m, e, pos', unpacked, value⟩ := unpack_ofNat_of_lt pos small
    have above : (1 : ℚ) ≤ m * 2 ^ e := by
      rw [← value]
      exact_mod_cast pos
    have below : (m : ℚ) * 2 ^ e < 2 ^ 53 := by
      rw [← value]
      exact_mod_cast small
    refine ⟨m, e, pos', unpacked, (one_le_mul_zpow_iff pos').mp above, ?_⟩
    by_contra high
    have power : (2 : ℚ) ^ (53 : ℤ) ≤ 2 ^ e := zpow_le_zpow_right₀ one_le_two (by omega)
    have whole : (1 : ℚ) ≤ m := by exact_mod_cast pos'
    have := mul_le_mul whole power (by positivity) (by positivity)
    norm_num at this below
    linarith
  · obtain ⟨m, e, pos', unpacked, lower, upper⟩ := unpack_ofNat_of_le (not_lt.mp small) few
    exact ⟨m, e, pos', unpacked, by omega, by omega⟩

/-- What is rounded stays a whole number. -/
theorem exists_number?_ofNat (many : 2 ^ 53 ≤ n) (few : n < 2 ^ 64) :
    ∃ k : ℕ, 2 ^ 53 ≤ k ∧ number? (Float.ofNat n) = some (k : ℚ) := by
  obtain ⟨m, e, pos, unpacked, lower, -⟩ := unpack_ofNat_of_le many few
  obtain ⟨⟨bits, -, -⟩, -⟩ := canonical_of_unpack unpacked
  obtain ⟨shift, rfl⟩ : ∃ shift : ℕ, e = shift := ⟨e.toNat, by omega⟩
  refine ⟨m * 2 ^ shift, ?_, ?_⟩
  · have logs : (m * 2 ^ shift).log2 = m.log2 + shift := log2_mul_two_pow pos shift
    exact (Nat.le_log2 (Nat.mul_pos pos (Nat.two_pow_pos shift)).ne').mp (by omega)
  · rw [number?, unpacked]
    simp [numberOf, Sign.apply]

theorem number?_ofNat_of_lt (few : n < 2 ^ 53) : number? (Float.ofNat n) = some (n : ℚ) := by
  rcases Nat.eq_zero_or_pos n with rfl | pos
  · rfl
  · obtain ⟨m, e, pos', unpacked, value⟩ := unpack_ofNat_of_lt pos few
    rw [number?, unpacked, value]
    rfl

end Naturals

section Integers

variable {x : Float} {n : ℤ}

theorem apply_neg (s : Sign) (m : ℤ) : (-s).apply m = -s.apply m := by
  cases s with
  | positive => rfl
  | negative => exact (neg_neg m).symm

theorem number?_neg {a : ℚ} (h : number? x = some a) : number? (-x) = some (-a) := by
  have unpacked : (-x).toModel.unpack =
      unpack Format.binary64 (pack Format.binary64 x.toModel.unpack.neg) := rfl
  rw [number?, unpacked]
  rcases number?_eq_some h with ⟨s, hx, rfl⟩ | ⟨s, m, e, pos, hx, canonical, high, rfl⟩
  · rw [hx, neg_zero]
    cases s <;> rfl
  · rw [hx, UnpackedFloat.neg, unpack_pack canonical pos, if_neg (by omega), numberOf, apply_neg,
      Int.cast_neg, neg_mul]

/-- An integer as a float is a whole number: itself below the fifty-third power of two, and not below
that power otherwise. -/
theorem exists_number?_ofInt (few : n.natAbs < 2 ^ 64) :
    ∃ k : ℤ, number? (Float.ofInt n) = some (k : ℚ) ∧ (n.natAbs < 2 ^ 53 → k = n) ∧
      (2 ^ 53 ≤ n.natAbs → 2 ^ 53 ≤ k.natAbs) := by
  obtain ⟨size, negative⟩ : ∃ size : ℕ, n = size ∧ Float.ofInt n = Float.ofNat size ∨
      n = -size ∧ Float.ofInt n = -Float.ofNat size := by
    cases n with
    | ofNat size => exact ⟨size, .inl ⟨rfl, rfl⟩⟩
    | negSucc size => exact ⟨size + 1, .inr ⟨Int.negSucc_eq size, rfl⟩⟩
  obtain ⟨k, exact, least, number⟩ : ∃ k : ℕ, (size < 2 ^ 53 → k = size) ∧
      (2 ^ 53 ≤ size → 2 ^ 53 ≤ k) ∧ number? (Float.ofNat size) = some (k : ℚ) := by
    by_cases small : size < 2 ^ 53
    · exact ⟨size, fun _ => rfl, fun large => absurd small (by omega), number?_ofNat_of_lt small⟩
    · obtain ⟨k, large, number⟩ := exists_number?_ofNat (n := size) (by omega) (by omega)
      exact ⟨k, fun small' => absurd small' small, fun _ => large, number⟩
  rcases negative with ⟨value, converted⟩ | ⟨value, converted⟩
  · exact ⟨k, by rw [converted, number]; rfl, by omega, by omega⟩
  · exact ⟨-k, by rw [converted, number?_neg number]; simp, by omega, by omega⟩

theorem number?_ofInt_of_lt (small : n.natAbs < 2 ^ 53) : number? (Float.ofInt n) = some (n : ℚ) := by
  obtain ⟨k, number, exact, -⟩ := exists_number?_ofInt (n := n) (by omega)
  rw [number, exact small]

theorem not_isNegativeZero_ofInt (few : n.natAbs < 2 ^ 64) : ¬IsNegativeZero (Float.ofInt n) := by
  intro negative
  obtain ⟨k, number, exact, least⟩ := exists_number?_ofInt few
  rw [number?, negative] at number
  have zero : k = 0 := by exact_mod_cast (Option.some.inj number).symm
  obtain rfl : n = 0 := by omega
  exact not_isNegativeZero_zero negative

/-- Two integers that become one float are the same, if one is below the fifty-third power of two. -/
theorem ofInt_inj {m : ℤ} (few : m.natAbs < 2 ^ 64) (small : n.natAbs < 2 ^ 53)
    (same : Float.ofInt m = Float.ofInt n) : m = n := by
  obtain ⟨k, number, exact, least⟩ := exists_number?_ofInt few
  rw [same, number?_ofInt_of_lt small] at number
  have equal : n = k := by exact_mod_cast Option.some.inj number
  omega

/-- The sharp bound: this power itself and its successor become one float. -/
example : Float.ofInt (2 ^ 53 + 1) = Float.ofInt (2 ^ 53) := by decide +kernel

theorem abs_sub_ofInt {m : ℤ} (few : m.natAbs < 2 ^ 64) (few' : n.natAbs < 2 ^ 64) :
    (Float.ofInt m = Float.ofInt n ∧ (Float.ofInt m - Float.ofInt n).abs = 0) ∨
      (Float.ofInt m ≠ Float.ofInt n ∧ 1 ≤ (Float.ofInt m - Float.ofInt n).abs) := by
  obtain ⟨k, number, -, -⟩ := exists_number?_ofInt few
  obtain ⟨l, number', -, -⟩ := exists_number?_ofInt few'
  by_cases equal : k = l
  · subst equal
    exact .inl ⟨eq_of_number?_eq number number' (not_isNegativeZero_ofInt few)
      (not_isNegativeZero_ofInt few'), abs_sub_eq_zero number number'⟩
  · refine .inr ⟨fun same => equal ?_, one_le_abs_sub number number' equal⟩
    rw [same, number'] at number
    exact_mod_cast (Option.some.inj number).symm

end Integers

end Evolution.Binary
