import Evolution.Proofs.Binary.Rounding

/-! Floats as numbers. A sum that has room in a float is that float, so a sum of whole multiples of
one power of two is exact, in whatever order it is taken, as long as the multiples are few enough. -/

namespace Evolution.Binary

open Float.Model (Format UnpackedFloat)
open Float.Model.UnpackedFloat

def numberOf : UnpackedFloat → Option ℚ
  | .zero _ => some 0
  | .finite s m e _ => some (s.apply m * 2 ^ e)
  | .infinity _ => none
  | .notANumber => none

/-- The number that a float stands for; an infinite one stands for none. -/
def number? (x : Float) : Option ℚ := numberOf x.toModel.unpack

/-- There is a float for the number. -/
def Fits (q : ℚ) : Prop :=
  q = 0 ∨ ∃ (s : Sign) (m : ℕ) (e : ℤ),
    0 < m ∧ Canonical m e ∧ e ≤ 971 ∧ q = s.apply m * 2 ^ e

/-- The float stands for a whole multiple of a power of two. -/
def IsMultiple (x : Float) (n k : ℤ) : Prop := number? x = some ((n : ℚ) * 2 ^ k)

def IsNegativeZero (x : Float) : Prop := x.toModel.unpack = .zero .negative

theorem not_isNegativeZero_zero : ¬IsNegativeZero 0 := nofun

variable {x y : Float} {a b : ℚ}

theorem number?_eq_some (h : number? x = some a) :
    (∃ s, x.toModel.unpack = .zero s ∧ a = 0) ∨
      ∃ s m e pos, x.toModel.unpack = .finite s m e pos ∧ Canonical m e ∧ e ≤ 971 ∧
        a = s.apply m * 2 ^ e := by
  rw [number?] at h
  cases unpacked : x.toModel.unpack with
  | zero s =>
    rw [unpacked] at h
    exact .inl ⟨s, rfl, (Option.some.inj h).symm⟩
  | finite s m e pos =>
    rw [unpacked] at h
    obtain ⟨canonical, high⟩ := canonical_of_unpack unpacked
    exact .inr ⟨s, m, e, pos, rfl, canonical, high, (Option.some.inj h).symm⟩
  | infinity s =>
    rw [unpacked] at h
    cases h
  | notANumber =>
    rw [unpacked] at h
    cases h

theorem abs_apply_mul_zpow (s : Sign) (m : ℕ) (e : ℤ) : |(s.apply m : ℚ) * 2 ^ e| = m * 2 ^ e := by
  have power : (0 : ℚ) < 2 ^ e := by positivity
  rw [abs_mul, abs_of_pos power]
  cases s <;> simp [Sign.apply]

theorem apply_mul_zpow_ne_zero (s : Sign) {m : ℕ} {e : ℤ} (pos : 0 < m) :
    (s.apply m : ℚ) * 2 ^ e ≠ 0 := by
  cases s <;> simp [Sign.apply, pos.ne', zpow_ne_zero]

/-- Equal numbers have one sign. -/
theorem sign_eq {s t : Sign} {m n : ℕ} {e f : ℤ} (pos : 0 < m) (pos' : 0 < n)
    (h : (t.apply n : ℚ) * 2 ^ f = s.apply m * 2 ^ e) : t = s := by
  have size : 0 < (m : ℚ) * 2 ^ e := by positivity
  have size' : 0 < (n : ℚ) * 2 ^ f := by positivity
  cases s <;> cases t
  case negative.negative | positive.positive => rfl
  all_goals
    simp only [Sign.apply, Int.cast_neg, Int.cast_natCast, neg_mul] at h
    linarith

theorem exists_apply_eq {M : ℤ} (nonzero : M ≠ 0) : ∃ (s : Sign) (m : ℕ), 0 < m ∧ M = s.apply m := by
  rcases lt_or_gt_of_ne nonzero with below | above
  · exact ⟨.negative, (-M).toNat, by omega, by rw [Sign.apply]; omega⟩
  · exact ⟨.positive, M.toNat, by omega, by rw [Sign.apply]; omega⟩

theorem unpack_pack_unpack (x : Float) :
    unpack Format.binary64 (pack Format.binary64 x.toModel.unpack) = x.toModel.unpack :=
  congrArg (unpack Format.binary64) (pack_unpack_of_valid x.toModel.valid)

theorem eq_of_unpack_eq (h : x.toModel.unpack = y.toModel.unpack) : x = y := by
  have bits := congrArg (pack Format.binary64) h
  have hx : pack Format.binary64 x.toModel.unpack = _ := pack_unpack_of_valid x.toModel.valid
  have hy : pack Format.binary64 y.toModel.unpack = _ := pack_unpack_of_valid y.toModel.valid
  rw [hx, hy] at bits
  obtain ⟨⟨⟨xs⟩, _⟩⟩ := x
  obtain ⟨⟨⟨ys⟩, _⟩⟩ := y
  cases bits
  rfl

theorem unpack_add (x y : Float) : (x + y).toModel.unpack = unpack Format.binary64
    (pack Format.binary64 (UnpackedFloat.add Format.binary64 x.toModel.unpack y.toModel.unpack)) :=
  rfl

/-- A mantissa moved to the lower of two exponents. -/
theorem mul_two_pow_mul_zpow (m : ℕ) (e t : ℤ) :
    ((m * 2 ^ (e - t).toNat : ℕ) : ℚ) * 2 ^ min e t = m * 2 ^ e := by
  have exponent : ((e - t).toNat : ℤ) + min e t = e := by omega
  rw [Nat.cast_mul, Nat.cast_pow, Nat.cast_ofNat, mul_assoc, ← zpow_natCast,
    ← zpow_add₀ two_ne_zero, exponent]

theorem apply_shiftLeft_mul_zpow (s : Sign) (m : ℕ) {e t : ℤ} (h : t ≤ e) :
    ((s.apply (m <<< (e - t).toNat : ℕ) : ℤ) : ℚ) * 2 ^ t = s.apply m * 2 ^ e := by
  have moved := mul_two_pow_mul_zpow m e t
  rw [min_eq_right h, ← Nat.shiftLeft_eq] at moved
  cases s with
  | positive => exact_mod_cast moved
  | negative =>
    simp only [Sign.apply, Int.cast_neg, neg_mul, neg_inj]
    exact_mod_cast moved

/-- The sum of two floats is that of their numbers, rounded. -/
theorem exists_add_eq (s t : Sign) {m n : ℕ} (e f : ℤ) (pos : 0 < m) (pos' : 0 < n) :
    ∃ k : ℤ, UnpackedFloat.add Format.binary64 (.finite s m e pos) (.finite t n f pos') =
        UnpackedFloat.normalize Format.binary64 k (min e f) .positive ∧
      (k : ℚ) * 2 ^ min e f = s.apply m * 2 ^ e + t.apply n * 2 ^ f := by
  refine ⟨_, rfl, ?_⟩
  rw [Int.cast_add, add_mul]
  exact congrArg₂ _ (apply_shiftLeft_mul_zpow s m (min_le_left e f))
    (apply_shiftLeft_mul_zpow t n (min_le_right e f))

theorem exists_sub_eq (s t : Sign) {m n : ℕ} (e f : ℤ) (pos : 0 < m) (pos' : 0 < n) :
    ∃ k : ℤ, UnpackedFloat.sub Format.binary64 (.finite s m e pos) (.finite t n f pos') =
        UnpackedFloat.normalize Format.binary64 k (min e f) .positive ∧
      (k : ℚ) * 2 ^ min e f = s.apply m * 2 ^ e - t.apply n * 2 ^ f := by
  refine ⟨_, rfl, ?_⟩
  rw [Int.cast_sub, sub_mul]
  exact congrArg₂ _ (apply_shiftLeft_mul_zpow s m (min_le_left e f))
    (apply_shiftLeft_mul_zpow t n (min_le_right e f))

/-- Equal numbers with their mantissas at the lower of the two exponents. -/
theorem mul_two_pow_eq {m n : ℕ} {e f : ℤ} (h : (n : ℚ) * 2 ^ f = m * 2 ^ e) :
    n * 2 ^ (f - e).toNat = m * 2 ^ (e - f).toNat := by
  have same := (mul_two_pow_mul_zpow n f e).trans (h.trans (mul_two_pow_mul_zpow m e f).symm)
  rw [min_comm] at same
  exact_mod_cast mul_right_cancel₀ (zpow_ne_zero _ two_ne_zero) same

theorem normalize_zero (E : ℤ) (z : Sign) :
    UnpackedFloat.normalize Format.binary64 0 E z = .zero z :=
  rfl

theorem normalize_apply (s z : Sign) {m : ℕ} (pos : 0 < m) (E : ℤ) :
    UnpackedFloat.normalize Format.binary64 (s.apply m) E z = round Format.binary64 s m E := by
  cases s with
  | positive =>
    have above : compare (m : ℤ) 0 = .gt := compare_gt_iff_gt.mpr (by omega)
    rw [Sign.apply, UnpackedFloat.normalize, above]
    rfl
  | negative =>
    have below : compare (-m : ℤ) 0 = .lt := compare_lt_iff_lt.mpr (by omega)
    rw [Sign.apply, UnpackedFloat.normalize, below]
    simp only [neg_neg, Int.toNat_natCast]

/-- A number with the value of a float becomes that float. -/
theorem normalize_eq {s z : Sign} {m : ℕ} {e E : ℤ} {M : ℤ} (pos : 0 < m) (h : Canonical m e)
    (value : (M : ℚ) * 2 ^ E = s.apply m * 2 ^ e) :
    UnpackedFloat.normalize Format.binary64 M E z = .finite s m e pos := by
  have nonzero : M ≠ 0 := by
    rintro rfl
    rw [Int.cast_zero, zero_mul] at value
    exact apply_mul_zpow_ne_zero s pos value.symm
  obtain ⟨t, n, pos', rfl⟩ := exists_apply_eq nonzero
  have size : (n : ℚ) * 2 ^ E = m * 2 ^ e := by
    rw [← abs_apply_mul_zpow t, value, abs_apply_mul_zpow]
  obtain rfl : t = s := sign_eq pos pos' value
  rw [normalize_apply t z pos']
  exact round_exact t h pos (mul_two_pow_eq size)

/-- A number for which there is a float is not changed by rounding, and does not become the negative
zero. -/
theorem numberOf_normalize {M E : ℤ} (fits : Fits ((M : ℚ) * 2 ^ E)) :
    let u := unpack Format.binary64
      (pack Format.binary64 (UnpackedFloat.normalize Format.binary64 M E .positive))
    numberOf u = some ((M : ℚ) * 2 ^ E) ∧ u ≠ .zero .negative := by
  rcases fits with zero | ⟨s, m, e, pos, canonical, high, value⟩
  · obtain rfl : M = 0 := by simpa [zpow_ne_zero] using zero
    rw [zero, normalize_zero]
    exact ⟨rfl, nofun⟩
  · rw [normalize_eq pos canonical value, unpack_pack canonical pos, if_neg (by omega), value]
    exact ⟨rfl, nofun⟩

/-- A sum for which there is a float is exact. It is the negative zero only if both floats are. -/
theorem number?_add (hx : number? x = some a) (hy : number? y = some b) (fits : Fits (a + b)) :
    number? (x + y) = some (a + b) ∧ (¬IsNegativeZero x → ¬IsNegativeZero (x + y)) := by
  rw [number?, IsNegativeZero, IsNegativeZero]
  rcases number?_eq_some hx with ⟨s, hx', rfl⟩ | ⟨s, m, e, pos, hx', -, -, rfl⟩
  · rcases number?_eq_some hy with ⟨t, hy', rfl⟩ | ⟨t, n, f, pos', hy', -, -, rfl⟩
    · rw [unpack_add, hx', hy', add_zero]
      cases s <;> cases t
      case negative.negative => exact ⟨rfl, fun nonzero => absurd rfl nonzero⟩
      all_goals exact ⟨rfl, fun _ => nofun⟩
    · rw [zero_add]
      have same : (x + y).toModel.unpack = y.toModel.unpack := by
        have again := unpack_pack_unpack y
        rw [hy'] at again ⊢
        rw [unpack_add, hx', hy']
        exact again
      rw [same, hy']
      exact ⟨rfl, fun _ => nofun⟩
  · rcases number?_eq_some hy with ⟨t, hy', rfl⟩ | ⟨t, n, f, pos', hy', -, -, rfl⟩
    · rw [add_zero]
      have same : (x + y).toModel.unpack = x.toModel.unpack := by
        have again := unpack_pack_unpack x
        rw [hx'] at again ⊢
        rw [unpack_add, hx', hy']
        exact again
      rw [same, hx']
      exact ⟨rfl, fun _ => nofun⟩
    · obtain ⟨k, rounded, value⟩ := exists_add_eq s t e f pos pos'
      rw [← value] at fits ⊢
      rw [unpack_add, hx', hy', rounded]
      exact (numberOf_normalize fits).imp_right fun nonzero _ => nonzero

/-- Adding a float to nothing makes a negative zero positive. -/
def unsigned : UnpackedFloat → UnpackedFloat
  | .zero _ => .zero .positive
  | u => u

theorem unpack_zero_add (x : Float) : (0 + x).toModel.unpack = unsigned x.toModel.unpack := by
  have again := unpack_pack_unpack x
  rw [unpack_add]
  cases unpacked : x.toModel.unpack with
  | zero s => cases s <;> rfl
  | _ =>
    rw [unpacked] at again
    exact again

theorem add_unsigned_comm : ∀ u v : UnpackedFloat,
    UnpackedFloat.add Format.binary64 (unsigned u) v = UnpackedFloat.add Format.binary64 (unsigned v) u
  | .notANumber, v => by cases v <;> rfl
  | u, .notANumber => by cases u <;> rfl
  | .infinity s, .infinity t => by cases s <;> cases t <;> rfl
  | .infinity _, .zero _ => rfl
  | .infinity _, .finite .. => rfl
  | .zero _, .infinity _ => rfl
  | .zero s, .zero t => by cases s <;> cases t <;> rfl
  | .zero _, .finite .. => rfl
  | .finite .., .infinity _ => rfl
  | .finite .., .zero _ => rfl
  | .finite s m e _, .finite t n f _ => by
    simp only [unsigned, UnpackedFloat.add, min_comm f e]
    rw [add_comm]

/-- The first two floats of a sum may change places. -/
theorem zero_add_add_comm (x y : Float) : 0 + x + y = 0 + y + x := by
  refine eq_of_unpack_eq ?_
  rw [unpack_add (0 + x) y, unpack_add (0 + y) x, unpack_zero_add, unpack_zero_add, add_unsigned_comm]

/-- A number has one float, or both zeros. -/
theorem eq_of_number?_eq (hx : number? x = some a) (hy : number? y = some a)
    (hx' : ¬IsNegativeZero x) (hy' : ¬IsNegativeZero y) : x = y := by
  have positive {s : Sign} (h : (UnpackedFloat.zero s) ≠ .zero .negative) : s = .positive := by
    cases s with
    | positive => rfl
    | negative => contradiction
  refine eq_of_unpack_eq ?_
  rcases number?_eq_some hx with ⟨s, ux, rfl⟩ | ⟨s, m, e, pos, ux, canonical, -, rfl⟩
  · rcases number?_eq_some hy with ⟨t, uy, -⟩ | ⟨t, n, f, pos', uy, -, -, value⟩
    · rw [IsNegativeZero, ux] at hx'
      rw [IsNegativeZero, uy] at hy'
      rw [ux, uy, positive hx', positive hy']
    · exact absurd value.symm (apply_mul_zpow_ne_zero t pos')
  · rcases number?_eq_some hy with ⟨t, uy, value⟩ | ⟨t, n, f, pos', uy, canonical', -, value⟩
    · exact absurd value (apply_mul_zpow_ne_zero s pos)
    · rw [ux, uy, ← normalize_eq (z := .positive) pos canonical rfl,
        normalize_eq (z := .positive) pos' canonical' value]

/-- Multiples of a power of two have room up to 53 bits. -/
theorem fits_mul_zpow {n k : ℤ} (few : n.natAbs ≤ 2 ^ 53) (low : -1074 ≤ k) (high : k ≤ 970) :
    Fits (n * 2 ^ k) := by
  by_cases zero : n = 0
  · exact .inl (by rw [zero, Int.cast_zero, zero_mul])
  obtain ⟨s, m, pos, rfl⟩ := exists_apply_eq zero
  have few : m ≤ 2 ^ 53 := by
    cases s <;> simpa [Sign.apply] using few
  have moved {m' : ℕ} {e : ℤ} (same : (m : ℚ) * 2 ^ k = m' * 2 ^ e) :
      (s.apply m : ℚ) * 2 ^ k = s.apply m' * 2 ^ e := by
    cases s with
    | positive => simpa [Sign.apply] using same
    | negative => simpa [Sign.apply] using same
  by_cases full : m = 2 ^ 53
  · refine .inr ⟨s, 2 ^ 52, k + 1, by positivity, ⟨?_, by omega, .inl ?_⟩, by omega, moved ?_⟩
    · rw [Nat.log2_two_pow]
    · rw [Nat.log2_two_pow]
    · rw [full, zpow_add₀ two_ne_zero]
      norm_num
      ring
  · -- As many bits are added below as the mantissa and the lowest exponent have room for.
    have bits : m.log2 < 53 := (Nat.log2_lt pos.ne').mpr (by omega)
    let shift := min (52 - m.log2) (k + 1074).toNat
    have logs : (m * 2 ^ shift).log2 = m.log2 + shift := log2_mul_two_pow pos shift
    refine .inr ⟨s, m * 2 ^ shift, k - shift, by positivity, ⟨?_, ?_, ?_⟩, by omega, moved ?_⟩
    · rw [logs]
      omega
    · omega
    · rw [logs]
      omega
    · rw [Nat.cast_mul, Nat.cast_pow, Nat.cast_ofNat, mul_assoc, ← zpow_natCast,
        ← zpow_add₀ two_ne_zero, add_sub_cancel]

section Sums

variable {α : Type} {error : α → Float} {count : α → ℤ} {k : ℤ} {items : List α}

/-- A running sum of multiples of a power of two is exact while they have room together. -/
theorem isMultiple_foldl_add (low : -1074 ≤ k) (high : k ≤ 970) {sum : Float} {total : ℤ}
    (start : IsMultiple sum total k) (nonzero : ¬IsNegativeZero sum)
    (each : ∀ i ∈ items, IsMultiple (error i) (count i) k)
    (room : total.natAbs + (items.map fun i => (count i).natAbs).sum ≤ 2 ^ 53) :
    let result := items.foldl (fun sum i => sum + error i) sum
    IsMultiple result (total + (items.map count).sum) k ∧ ¬IsNegativeZero result := by
  induction items generalizing sum total with
  | nil => simpa using ⟨start, nonzero⟩
  | cons i rest ih =>
    rw [List.forall_mem_cons] at each
    rw [List.map_cons, List.sum_cons] at room
    have bound : (total + count i).natAbs ≤ total.natAbs + (count i).natAbs := Int.natAbs_add_le _ _
    have value : (total : ℚ) * 2 ^ k + count i * 2 ^ k = (total + count i : ℤ) * 2 ^ k := by
      rw [Int.cast_add, add_mul]
    have fits : Fits ((total : ℚ) * 2 ^ k + count i * 2 ^ k) :=
      value ▸ fits_mul_zpow (by omega) low high
    obtain ⟨exact, still⟩ := number?_add start each.1 fits
    have next : IsMultiple (sum + error i) (total + count i) k := exact.trans (congrArg some value)
    have done := ih next (still nonzero) each.2 (by omega)
    rw [add_assoc] at done
    simpa only [List.foldl_cons, List.map_cons, List.sum_cons] using done

/-- A running sum does not depend on the order, if its items are multiples of one power of two that
have room together. -/
theorem foldl_add_eq_of_perm (low : -1074 ≤ k) (high : k ≤ 970) {others : List α}
    (permuted : items.Perm others) (each : ∀ i ∈ items, IsMultiple (error i) (count i) k)
    (room : (items.map fun i => (count i).natAbs).sum ≤ 2 ^ 53) :
    items.foldl (fun sum i => sum + error i) 0 = others.foldl (fun sum i => sum + error i) 0 := by
  have start : IsMultiple 0 0 k := by
    rw [IsMultiple, Int.cast_zero, zero_mul]
    rfl
  have each' : ∀ i ∈ others, IsMultiple (error i) (count i) k := fun i mem =>
    each i (permuted.mem_iff.mpr mem)
  have room' : (others.map fun i => (count i).natAbs).sum ≤ 2 ^ 53 :=
    (permuted.map fun i => (count i).natAbs).sum_eq ▸ room
  obtain ⟨value, notNegative⟩ :=
    isMultiple_foldl_add low high start not_isNegativeZero_zero each (by simpa using room)
  obtain ⟨value', notNegative'⟩ :=
    isMultiple_foldl_add low high start not_isNegativeZero_zero each' (by simpa using room')
  rw [(permuted.map count).sum_eq] at value
  exact eq_of_number?_eq value value' notNegative notNegative'

end Sums

end Evolution.Binary
