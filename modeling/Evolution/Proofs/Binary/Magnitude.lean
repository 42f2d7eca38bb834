import Evolution.Proofs.Binary.Number

/-! Floats of one and more. Sums and products of two of them are of one and more again, however they are
rounded, and so is the distance of two different whole numbers. No such float becomes zero when it is
divided by a count. -/

namespace Evolution.Binary

open Float.Model (Format UnpackedFloat totalExponent)
open Float.Model.UnpackedFloat

/-- A float of the sign and of size one or more, or infinite. -/
def Large (s : Sign) (u : UnpackedFloat) : Prop :=
  u = .infinity s ∨ ∃ m e pos, u = .finite s m e pos ∧ 0 ≤ (m.log2 : ℤ) + e

theorem compare_then_isLE {a b : ℤ} {m n : ℕ} :
    ((compare a b).then (compare m n)).isLE = true ↔ a < b ∨ a = b ∧ m ≤ n := by
  rcases lt_trichotomy a b with less | rfl | more
  · simp [compare_lt_iff_lt.mpr less, less]
  · simp [Nat.isLE_compare]
  · simp [compare_gt_iff_gt.mpr more, more.not_gt, more.ne']

theorem one_le_iff {x : Float} : 1 ≤ x ↔ Large .positive x.toModel.unpack := by
  have one : (1 : Float).toModel.unpack = .finite .positive (2 ^ 52) (-52) (by decide) := rfl
  have compared : 1 ≤ x ↔
      ((UnpackedFloat.finite .positive (2 ^ 52) (-52) (by decide)).compare x.toModel.unpack).any
        (·.isLE) = true := by
    rw [← one]
    exact decide_eq_true_iff
  rw [compared, Large]
  cases unpacked : x.toModel.unpack with
  | notANumber => simp [UnpackedFloat.compare]
  | zero s => simp [UnpackedFloat.compare]
  | infinity s => cases s <;> simp [UnpackedFloat.compare]
  | finite s m e pos =>
    cases s with
    | negative => simp [UnpackedFloat.compare]
    | positive =>
      obtain ⟨⟨bits, low, full⟩, -⟩ := canonical_of_unpack unpacked
      have first : 2 ^ 52 ≤ m ↔ 52 ≤ m.log2 := (Nat.le_log2 pos.ne').symm
      simp only [UnpackedFloat.compare, Option.any_some, compare_then_isLE, first]
      constructor
      · intro above
        exact .inr ⟨m, e, pos, rfl, by omega⟩
      · rintro (infinite | ⟨_, _, _, same, above⟩)
        · cases infinite
        · obtain ⟨-, rfl, rfl⟩ := UnpackedFloat.finite.inj same
          omega

/-- Rounding and packing keep a size of one and more. -/
theorem large_unpack_pack {s : Sign} {m : ℕ} {e : ℤ} (h : Canonical m e) (pos : 0 < m)
    (above : 0 ≤ m.log2 + e) :
    Large s (unpack Format.binary64 (pack Format.binary64 (.finite s m e pos))) := by
  rw [unpack_pack h pos]
  split
  · exact .inl rfl
  · exact .inr ⟨m, e, pos, rfl, above⟩

theorem large_round (s : Sign) {m : ℕ} {e : ℤ} (pos : 0 < m) (low : -1074 ≤ e)
    (above : 0 ≤ (m.log2 : ℤ) + e) :
    Large s (unpack Format.binary64 (pack Format.binary64 (round Format.binary64 s m e))) := by
  obtain ⟨m', e', pos', rounded, canonical, lower, -⟩ := exists_round_eq s pos low
  rw [rounded]
  exact large_unpack_pack canonical pos' (by omega)

theorem one_le_mul_zpow_iff {m : ℕ} {e : ℤ} (pos : 0 < m) :
    1 ≤ (m : ℚ) * 2 ^ e ↔ 0 ≤ (m.log2 : ℤ) + e := by
  obtain ⟨lower, upper⟩ := (Nat.log2_eq_iff pos.ne').mp rfl
  have lower : (2 : ℚ) ^ (m.log2 : ℤ) ≤ m := by
    rw [zpow_natCast]
    exact_mod_cast lower
  have upper : (m : ℚ) < 2 ^ ((m.log2 : ℤ) + 1) := by
    have cast : (2 : ℚ) ^ ((m.log2 : ℤ) + 1) = (2 : ℚ) ^ (m.log2 + 1) := by
      rw [← zpow_natCast]
      rfl
    rw [cast]
    exact_mod_cast upper
  have power : (0 : ℚ) < 2 ^ e := by positivity
  constructor
  · intro above
    by_contra below
    have small : (2 : ℚ) ^ ((m.log2 : ℤ) + 1) * 2 ^ e ≤ 1 := by
      rw [← zpow_add₀ two_ne_zero]
      exact zpow_le_one_of_nonpos₀ one_le_two (by omega)
    exact absurd above (not_le_of_gt ((mul_lt_mul_of_pos_right upper power).trans_le small))
  · intro above
    calc (1 : ℚ) ≤ 2 ^ ((m.log2 : ℤ) + e) := one_le_zpow₀ one_le_two above
      _ = 2 ^ (m.log2 : ℤ) * 2 ^ e := zpow_add₀ two_ne_zero _ _
      _ ≤ m * 2 ^ e := mul_le_mul_of_nonneg_right lower power.le

/-- A number of size one and more is of that size also when it is rounded. -/
theorem large_normalize {s z : Sign} {m : ℕ} {E : ℤ} (pos : 0 < m) (low : -1074 ≤ E)
    (above : 1 ≤ (m : ℚ) * 2 ^ E) :
    Large s (unpack Format.binary64
      (pack Format.binary64 (UnpackedFloat.normalize Format.binary64 (s.apply m) E z))) := by
  rw [normalize_apply s z pos]
  exact large_round s pos low ((one_le_mul_zpow_iff pos).mp above)

variable {x y : Float}

theorem one_le_add (hx : 1 ≤ x) (hy : 1 ≤ y) : 1 ≤ x + y := by
  rw [one_le_iff] at hx hy ⊢
  rw [unpack_add]
  rcases hx with hx | ⟨m, e, pos, hx, above⟩ <;> rcases hy with hy | ⟨n, f, pos', hy, above'⟩
  · rw [hx, hy]
    exact .inl (unpack_infinity .positive)
  · rw [hx, hy]
    exact .inl (unpack_infinity .positive)
  · rw [hx, hy]
    exact .inl (unpack_infinity .positive)
  · obtain ⟨⟨-, low, -⟩, -⟩ := canonical_of_unpack hx
    obtain ⟨⟨-, low', -⟩, -⟩ := canonical_of_unpack hy
    obtain ⟨k, rounded, value⟩ := exists_add_eq .positive .positive e f pos pos'
    have first := (one_le_mul_zpow_iff pos).mpr above
    have second := (one_le_mul_zpow_iff pos').mpr above'
    simp only [Sign.apply, Int.cast_natCast] at value
    have one : (1 : ℚ) ≤ k * 2 ^ min e f := by
      rw [value]
      linarith
    have positive : 0 < k := by
      exact_mod_cast pos_of_mul_pos_left (one_pos.trans_le one) (by positivity)
    obtain ⟨l, rfl⟩ := Int.eq_ofNat_of_zero_le positive.le
    rw [hx, hy, rounded]
    exact large_normalize (s := .positive) (by omega) (le_min low low') (by exact_mod_cast one)

theorem one_le_one : (1 : Float) ≤ 1 := by decide +kernel

theorem unsigned_eq {u : UnpackedFloat} (h : Large .positive u) : unsigned u = u := by
  rcases h with rfl | ⟨m, e, pos, rfl, -⟩ <;> rfl

theorem zero_add_of_one_le (h : 1 ≤ x) : 0 + x = x := by
  refine eq_of_unpack_eq ?_
  rw [unpack_zero_add, unsigned_eq (one_le_iff.mp h)]

theorem add_zero_of_one_le (h : 1 ≤ x) : x + 0 = x := by
  have again := unpack_pack_unpack x
  refine eq_of_unpack_eq ?_
  rw [unpack_add]
  rcases one_le_iff.mp h with hx | ⟨m, e, pos, hx, -⟩
  · rw [hx] at again ⊢
    exact again
  · rw [hx] at again ⊢
    exact again

theorem beq_zero_of_one_le (h : 1 ≤ x) : (x == 0) = false := by
  have beq : (x == 0) = (x.toModel.unpack.compare (.zero .positive) == some .eq) := rfl
  rw [beq]
  rcases one_le_iff.mp h with hx | ⟨m, e, pos, hx, -⟩ <;> rw [hx] <;> rfl

theorem unpack_mul (x y : Float) : (x * y).toModel.unpack = unpack Format.binary64
    (pack Format.binary64 (UnpackedFloat.mul Format.binary64 x.toModel.unpack y.toModel.unpack)) :=
  rfl

theorem add_log2_le_log2_mul {m n : ℕ} (pos : 0 < m) (pos' : 0 < n) :
    m.log2 + n.log2 ≤ (m * n).log2 := by
  rw [Nat.le_log2 (Nat.mul_pos pos pos').ne', Nat.pow_add]
  exact Nat.mul_le_mul (Nat.log2_self_le pos.ne') (Nat.log2_self_le pos'.ne')

theorem one_le_mul (hx : 1 ≤ x) (hy : 1 ≤ y) : 1 ≤ x * y := by
  rw [one_le_iff] at hx hy ⊢
  rw [unpack_mul]
  rcases hx with hx | ⟨m, e, pos, hx, above⟩ <;> rcases hy with hy | ⟨n, f, pos', hy, above'⟩
  · rw [hx, hy]
    exact .inl (unpack_infinity .positive)
  · rw [hx, hy]
    exact .inl (unpack_infinity .positive)
  · rw [hx, hy]
    exact .inl (unpack_infinity .positive)
  · obtain ⟨⟨bits, low, full⟩, -⟩ := canonical_of_unpack hx
    obtain ⟨⟨bits', low', full'⟩, -⟩ := canonical_of_unpack hy
    have logs := add_log2_le_log2_mul pos pos'
    obtain ⟨m', e', more, rounded, canonical, lower, -⟩ :=
      exists_roundWithAccuracy_eq .positive .exact (Nat.mul_pos pos pos') (e := e + f) (by omega)
        (by omega)
    have product : UnpackedFloat.mul Format.binary64 (.finite .positive m e pos)
        (.finite .positive n f pos') = .finite .positive m' e' more := rounded
    rw [hx, hy, product]
    exact large_unpack_pack canonical more (by omega)

theorem unpack_div (x y : Float) : (x / y).toModel.unpack = unpack Format.binary64
    (pack Format.binary64 (UnpackedFloat.div Format.binary64 x.toModel.unpack y.toModel.unpack)) :=
  rfl

/-- The quotient of two floats with full mantissas has a full mantissa before it is rounded. -/
theorem exists_divCore_eq {m n : ℕ} {e f : ℤ} (full : m.log2 = 52) (full' : n.log2 = 52)
    (pos : 0 < m) (pos' : 0 < n) (low : -1021 ≤ e - f) :
    ∃ (q : ℕ) (acc : Accuracy), divCore Format.binary64 m e n f = (q, e - f - 53, acc) ∧ 0 < q ∧
      52 ≤ q.log2 := by
  have total : totalExponent m e - totalExponent n f = e - f := by
    rw [totalExponent, totalExponent, full, full']
    ring
  have target : min (e - f) (Format.binary64.targetExponent (e - f)) = e - f - 53 := by
    change min (e - f) (max (e - f - (53 : ℕ)) (-1074)) = _
    omega
  have shift : (e - f - (e - f - 53)).toNat = 53 := by omega
  refine ⟨m <<< 53 / n, accuracyOfFraction (m <<< 53 % n) n, ?_, ?_⟩
  · rw [divCore, total, target, shift]
  · have above : 2 ^ 52 ≤ m := (Nat.log2_eq_iff pos.ne').mp full |>.1
    have below : n < 2 ^ 53 := (Nat.log2_eq_iff pos'.ne').mp full' |>.2
    have more : 2 ^ 52 ≤ m <<< 53 / n := by
      rw [Nat.shiftLeft_eq, Nat.le_div_iff_mul_le pos']
      calc 2 ^ 52 * n ≤ 2 ^ 52 * 2 ^ 53 := Nat.mul_le_mul_left _ below.le
        _ ≤ m * 2 ^ 53 := Nat.mul_le_mul_right _ above
    have some : 0 < m <<< 53 / n := (Nat.two_pow_pos 52).trans_le more
    exact ⟨some, (Nat.le_log2 some.ne').mpr more⟩

/-- A float of one and more does not become zero when it is divided by a number of that size that is
not too large. -/
theorem div_beq_zero (hx : 1 ≤ x) {n : ℕ} {f : ℤ} {pos' : 0 < n}
    (hy : y.toModel.unpack = .finite .positive n f pos') (above' : 0 ≤ (n.log2 : ℤ) + f)
    (few : f ≤ 900) : (x / y == 0) = false := by
  have beq : (x / y == 0) =
      ((x / y).toModel.unpack.compare (.zero .positive) == some .eq) := rfl
  rw [one_le_iff] at hx
  rw [beq, unpack_div, hy]
  rcases hx with hx | ⟨m, e, pos, hx, above⟩
  · have quotient : UnpackedFloat.div Format.binary64 (.infinity .positive)
        (.finite .positive n f pos') = .infinity .positive := rfl
    have packed : unpack Format.binary64 (pack Format.binary64 (.infinity .positive)) =
        .infinity .positive := unpack_infinity .positive
    rw [hx, quotient, packed]
    rfl
  · obtain ⟨⟨bits, low, full⟩, -⟩ := canonical_of_unpack hx
    obtain ⟨⟨bits', low', full'⟩, -⟩ := canonical_of_unpack hy
    obtain ⟨q, acc, cored, some, logs⟩ :=
      exists_divCore_eq (m := m) (n := n) (e := e) (f := f) (by omega) (by omega) pos pos' (by omega)
    obtain ⟨m', e', more, rounded, canonical, -, -⟩ :=
      exists_roundWithAccuracy_eq .positive acc some (e := e - f - 53) (by omega) (.inl logs)
    have quotient : UnpackedFloat.div Format.binary64 (.finite .positive m e pos)
        (.finite .positive n f pos') = .finite .positive m' e' more := by
      rw [UnpackedFloat.div, cored]
      exact rounded
    rw [hx, quotient, unpack_pack canonical more]
    split <;> rfl

theorem zero_div {n : ℕ} {f : ℤ} {pos' : 0 < n}
    (hy : y.toModel.unpack = .finite .positive n f pos') : 0 / y = 0 := by
  refine eq_of_unpack_eq ?_
  rw [unpack_div, hy]
  rfl

/-- Also where the divisor is infinite. -/
theorem zero_div_of_pos (h : 0 < y) : 0 / y = 0 := by
  have compared : UnpackedFloat.compare (0 : Float).toModel.unpack y.toModel.unpack = some .lt :=
    beq_iff_eq.mp (of_decide_eq_true h)
  refine eq_of_unpack_eq ?_
  rw [unpack_div]
  cases hy : y.toModel.unpack with
  | zero s =>
    rw [hy] at compared
    cases s <;> cases compared
  | finite s m e pos =>
    cases s with
    | positive => rfl
    | negative =>
      rw [hy] at compared
      cases compared
  | infinity s =>
    cases s with
    | positive => rfl
    | negative =>
      rw [hy] at compared
      cases compared
  | notANumber =>
    rw [hy] at compared
    cases compared

theorem unpack_abs (x : Float) : x.abs.toModel.unpack =
    unpack Format.binary64 (pack Format.binary64 x.toModel.unpack.abs) :=
  rfl

theorem unpack_sub (x y : Float) : (x - y).toModel.unpack = unpack Format.binary64
    (pack Format.binary64 (UnpackedFloat.sub Format.binary64 x.toModel.unpack y.toModel.unpack)) :=
  rfl

theorem one_le_abs {s : Sign} (h : Large s x.toModel.unpack) : 1 ≤ x.abs := by
  rw [one_le_iff, unpack_abs]
  rcases h with hx | ⟨m, e, pos, hx, above⟩
  · rw [hx]
    exact .inl (unpack_infinity .positive)
  · rw [hx]
    exact large_unpack_pack (canonical_of_unpack hx).1 pos above

theorem abs_eq_zero {s : Sign} (h : x.toModel.unpack = .zero s) : x.abs = 0 := by
  refine eq_of_unpack_eq ?_
  rw [unpack_abs, h]
  rfl

/-- Two floats for one number have no distance. -/
theorem abs_sub_eq_zero {a : ℚ} (hx : number? x = some a) (hy : number? y = some a) :
    (x - y).abs = 0 := by
  rcases number?_eq_some hx with ⟨s, ux, rfl⟩ | ⟨s, m, e, pos, ux, -, -, rfl⟩
  · rcases number?_eq_some hy with ⟨t, uy, -⟩ | ⟨t, n, f, pos', -, -, -, value⟩
    · have sub : ∃ z, (x - y).toModel.unpack = .zero z := by
        rw [unpack_sub, ux, uy]
        cases s <;> cases t <;> exact ⟨_, rfl⟩
      exact abs_eq_zero sub.choose_spec
    · exact absurd value.symm (apply_mul_zpow_ne_zero t pos')
  · rcases number?_eq_some hy with ⟨t, -, value⟩ | ⟨t, n, f, pos', uy, -, -, value⟩
    · exact absurd value (apply_mul_zpow_ne_zero s pos)
    · obtain ⟨k, rounded, difference⟩ := exists_sub_eq s t e f pos pos'
      rw [value, sub_self] at difference
      obtain rfl : k = 0 := by simpa [zpow_ne_zero] using difference
      refine abs_eq_zero (s := .positive) ?_
      rw [unpack_sub, ux, uy, rounded, normalize_zero]
      rfl

theorem one_le_of_whole {s : Sign} {m : ℕ} {e a : ℤ} (nonzero : a ≠ 0)
    (value : (s.apply m : ℚ) * 2 ^ e = a) : 1 ≤ (m : ℚ) * 2 ^ e := by
  rw [← abs_apply_mul_zpow s, value]
  exact_mod_cast Int.one_le_abs nonzero

/-- The distance of two different whole numbers is one or more. -/
theorem one_le_abs_sub {a b : ℤ} (hx : number? x = some a) (hy : number? y = some b)
    (different : a ≠ b) : 1 ≤ (x - y).abs := by
  rcases number?_eq_some hx with ⟨s, ux, zero⟩ | ⟨s, m, e, pos, ux, canonical, high, value⟩
  · rcases number?_eq_some hy with ⟨t, uy, zero'⟩ | ⟨t, n, f, pos', uy, canonical', high', value'⟩
    · exact absurd (Int.cast_injective (zero.trans zero'.symm)) different
    · have none : a = 0 := by exact_mod_cast zero
      have whole := one_le_of_whole (by omega) value'.symm
      refine one_le_abs (s := -t) ?_
      rw [unpack_sub, ux, uy]
      exact large_unpack_pack canonical' pos' ((one_le_mul_zpow_iff pos').mp whole)
  · rcases number?_eq_some hy with ⟨t, uy, zero'⟩ | ⟨t, n, f, pos', uy, canonical', high', value'⟩
    · have none : b = 0 := by exact_mod_cast zero'
      have whole := one_le_of_whole (by omega) value.symm
      refine one_le_abs (s := s) ?_
      rw [unpack_sub, ux, uy]
      exact large_unpack_pack canonical pos ((one_le_mul_zpow_iff pos).mp whole)
    · obtain ⟨k, rounded, difference⟩ := exists_sub_eq s t e f pos pos'
      rw [← value, ← value', ← Int.cast_sub] at difference
      have apart : a - b ≠ 0 := sub_ne_zero.mpr different
      have nonzero : k ≠ 0 := by
        rintro rfl
        rw [Int.cast_zero, zero_mul] at difference
        exact apart (by exact_mod_cast difference.symm)
      obtain ⟨r, l, more, rfl⟩ := exists_apply_eq nonzero
      refine one_le_abs (s := r) ?_
      rw [unpack_sub, ux, uy, rounded]
      exact large_normalize more (le_min canonical.low canonical'.low)
        (one_le_of_whole apart difference)

end Evolution.Binary
