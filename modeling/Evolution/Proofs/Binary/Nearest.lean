import Evolution.Proofs.Binary.Number

/-! Rounding as nearness. A number is rounded to a float that is off by half a unit in the last of 53
places at most, and to an infinite one exactly if the number is half a unit or more above the greatest
float. -/

namespace Evolution.Binary

open Float.Model (Format UnpackedFloat totalExponent)
open Float.Model.UnpackedFloat

/-- The number is the mantissa, a half if the bit behind it is set, and less than a half more; the
last bit tells whether there is more. -/
def Represents (x : ExtendedMantissa) (r : ℚ) : Prop :=
  ∃ rest : ℚ, r = x.mantissa + (if x.roundBit then 1 / 2 else 0) + rest ∧ 0 ≤ rest ∧ rest < 1 / 2 ∧
    (rest = 0 ↔ x.stickyBit = false)

section Represents

variable {x : ExtendedMantissa} {r : ℚ}

theorem represents_exact (m : ℕ) : Represents (.ofMantissaAndAccuracy m .exact) m :=
  ⟨0, by simp [ExtendedMantissa.ofMantissaAndAccuracy], le_rfl, by norm_num, by
    simp [ExtendedMantissa.ofMantissaAndAccuracy]⟩

theorem Represents.shiftRightOne (h : Represents x r) : Represents x.shiftRightOne (r / 2) := by
  obtain ⟨m, round, sticky⟩ := x
  obtain ⟨rest, rfl, least, less, more⟩ := h
  have parity : (m : ℚ) = 2 * (m / 2 : ℕ) + (m % 2 : ℕ) := by
    exact_mod_cast (Nat.div_add_mod m 2).symm
  refine ⟨((if round then 1 / 2 else 0) + rest) / 2, ?_, ?_, ?_, ?_⟩
  · rcases Nat.mod_two_eq_zero_or_one m with even | odd
    · simp only [ExtendedMantissa.shiftRightOne, even, parity]
      simp
      ring
    · simp only [ExtendedMantissa.shiftRightOne, odd, parity]
      simp
      ring
  · split <;> linarith
  · split <;> linarith
  · cases round with
    | true =>
      simp [ExtendedMantissa.shiftRightOne]
      linarith
    | false => simpa [ExtendedMantissa.shiftRightOne] using more

theorem Represents.shiftRight (h : Represents x r) (k : ℕ) : Represents (x >>> k) (r / 2 ^ k) := by
  change Represents (k.repeat ExtendedMantissa.shiftRightOne x) _
  induction k with
  | zero => simpa [Nat.repeat] using h
  | succ k ih =>
    rw [Nat.repeat, pow_succ, ← div_div]
    exact ih.shiftRightOne

/-- The rounded mantissa is nearest to the number, and even if another is as near. -/
theorem Represents.abs_roundedMantissa_sub (h : Represents x r) :
    |x.roundedMantissa - r| ≤ 1 / 2 ∧
      (|x.roundedMantissa - r| = 1 / 2 → x.roundedMantissa % 2 = 0) := by
  obtain ⟨m, round, sticky⟩ := x
  obtain ⟨rest, rfl, least, less, more⟩ := h
  simp only [ExtendedMantissa.roundedMantissa]
  cases round <;> cases sticky <;>
    simp only [ExtendedMantissa.accuracy, Accuracy.roundToNearestEven, Bool.false_eq_true, if_true,
      if_false]
  case false.false =>
    obtain rfl := more.mpr rfl
    norm_num
  case false.true =>
    have off : (m : ℚ) - (m + 0 + rest) = -rest := by ring
    rw [off, abs_neg, abs_of_nonneg least]
    exact ⟨less.le, fun same => absurd same less.ne⟩
  case true.false =>
    obtain rfl := more.mpr rfl
    refine ⟨?_, fun _ => by omega⟩
    rcases Nat.mod_two_eq_zero_or_one m with even | odd
    · rw [even]
      norm_num
    · rw [odd]
      norm_num
  case true.true =>
    have some : 0 < rest := by
      refine lt_of_le_of_ne least fun none => ?_
      cases more.mp none.symm
    have off : ((m + 1 : ℕ) : ℚ) - (m + 1 / 2 + rest) = 1 / 2 - rest := by
      push_cast
      ring
    rw [off, abs_of_pos (by linarith)]
    exact ⟨by linarith, fun same => absurd same (by linarith)⟩

theorem Represents.mantissa_le (h : Represents x r) : x.mantissa ≤ r := by
  obtain ⟨rest, rfl, least, -⟩ := h
  split <;> linarith

end Represents

/-- The greatest float. -/
def greatest : ℚ := 2 ^ (1024 : ℤ) - 2 ^ (971 : ℤ)

/-- Half a unit above the greatest float. -/
def room : ℚ := 2 ^ (1024 : ℤ) - 2 ^ (970 : ℤ)

theorem half_unit : (2 : ℚ) ^ (970 : ℤ) = 1 / 2 * 2 ^ (971 : ℤ) := by
  rw [show (970 : ℤ) = 971 - 1 from rfl, zpow_sub_one₀ two_ne_zero]
  ring

theorem top_units : (2 : ℚ) ^ (1024 : ℤ) = 2 ^ 53 * 2 ^ (971 : ℤ) := by
  rw [← zpow_natCast (2 : ℚ) 53, ← zpow_add₀ two_ne_zero]
  rfl

theorem greatest_eq : greatest = (2 ^ 53 - 1) * 2 ^ (971 : ℤ) := by
  rw [greatest, top_units, sub_mul, one_mul]

theorem greatest_add_half : greatest + 2 ^ (970 : ℤ) = room := by
  rw [greatest, room, half_unit]
  ring

theorem greatest_lt_room : greatest < room :=
  greatest_add_half ▸ lt_add_of_pos_right _ (by positivity)

theorem room_lt : room < 2 ^ (1024 : ℤ) := sub_lt_self _ (by positivity)

theorem room_eq : room = (2 ^ 53 - 1 / 2) * 2 ^ (971 : ℤ) := by
  rw [room, top_units, half_unit, sub_mul]

/-- The second number is off by half a unit in the last of 53 places of the first at most. -/
def Near (r v : ℚ) : Prop := ∀ k : ℤ, -1021 ≤ k → |r| < 2 ^ k → |v - r| ≤ 2 ^ (k - 54)

theorem near_self (r : ℚ) : Near r r := by
  intro k _ _
  rw [sub_self, abs_zero]
  positivity

/-- The float is the number rounded, and infinite if the number has no room. -/
def Rounds (r : ℚ) (u : UnpackedFloat) : Prop :=
  (|r| < room ∧ ∃ v, Near r v ∧ numberOf u = some v) ∨ (room ≤ |r| ∧ ∃ s, u = .infinity s)

theorem Rounds.isSome_numberOf_iff {r : ℚ} {u : UnpackedFloat} (h : Rounds r u) :
    (numberOf u).isSome = true ↔ |r| < room := by
  rcases h with ⟨less, v, -, finite⟩ | ⟨large, s, rfl⟩
  · simp [finite, less]
  · simp [numberOf, large]

/-- The factor of a sign. -/
theorem apply_eq (s : Sign) (m : ℕ) : (s.apply m : ℚ) = s.apply 1 * m := by
  cases s <;> simp [Sign.apply]

theorem abs_apply_one_mul (s : Sign) (r : ℚ) : |(s.apply 1 : ℚ) * r| = |r| := by
  cases s <;> simp [Sign.apply]

/-- A float of any size, before it is packed. -/
theorem rounds_pack {s : Sign} {m : ℕ} {e : ℤ} {r : ℚ} (h : Canonical m e) (pos : 0 < m)
    (near : Near r (s.apply m * 2 ^ e)) (few : e ≤ 971 → |r| < room) :
    Rounds r (unpack Format.binary64 (pack Format.binary64 (.finite s m e pos))) := by
  rw [unpack_pack h pos]
  split
  · next high =>
    refine .inr ⟨not_lt.mp fun less => ?_, s, rfl⟩
    have full : 52 = m.log2 := by
      have := h.full
      omega
    have size : (2 : ℚ) ^ (52 : ℤ) ≤ m := by
      exact_mod_cast full ▸ Nat.log2_self_le pos.ne'
    have large : (2 : ℚ) ^ (1024 : ℤ) ≤ |(s.apply m : ℚ) * 2 ^ e| := calc
      (2 : ℚ) ^ (1024 : ℤ) = 2 ^ (52 : ℤ) * 2 ^ (972 : ℤ) := by rw [← zpow_add₀ two_ne_zero]; rfl
      _ ≤ m * 2 ^ (972 : ℤ) := mul_le_mul_of_nonneg_right size (by positivity)
      _ ≤ m * 2 ^ e := by
        have more : (2 : ℚ) ^ (972 : ℤ) ≤ 2 ^ e := zpow_le_zpow_right₀ one_le_two (by omega)
        exact mul_le_mul_of_nonneg_left more (Nat.cast_nonneg _)
      _ = |(s.apply m : ℚ) * 2 ^ e| := (abs_apply_mul_zpow s m e).symm
    have close := near 1024 (by decide) (less.trans room_lt)
    refine absurd close (not_le_of_gt ?_)
    calc (2 : ℚ) ^ (970 : ℤ) < 2 ^ (1024 : ℤ) - |r| := lt_sub_comm.mp less
      _ ≤ |(s.apply m : ℚ) * 2 ^ e| - |r| := sub_le_sub_right large _
      _ ≤ |(s.apply m : ℚ) * 2 ^ e - r| := abs_sub_abs_le_abs_sub _ r
  · exact .inl ⟨few (by omega), _, near, rfl⟩

/-- The least positive float is twice the bound. -/
theorem near_zero {r : ℚ} (small : |r| ≤ 2 ^ (-1075 : ℤ)) : Near r 0 := by
  intro k low _
  rw [zero_sub, abs_neg]
  exact small.trans (zpow_le_zpow_right₀ one_le_two (by omega))

theorem lt_room {r : ℚ} (small : |r| ≤ 1) : |r| < room := by
  have power : (1 : ℚ) ≤ 2 ^ (971 : ℤ) := one_le_zpow₀ one_le_two (by decide)
  rw [room_eq]
  generalize (2 : ℚ) ^ (971 : ℤ) = unit at power
  linarith

theorem rounds_zero {r : ℚ} (s : Sign) (small : |r| ≤ 2 ^ (-1075 : ℤ)) :
    Rounds r (unpack Format.binary64 (pack Format.binary64 (.zero s))) := by
  have one : (2 : ℚ) ^ (-1075 : ℤ) ≤ 1 := zpow_le_one_of_nonpos₀ one_le_two (by decide)
  refine .inl ⟨lt_room (small.trans one), 0, near_zero small, ?_⟩
  cases s <;> rfl

theorem rounds_zero_zero (s : Sign) :
    Rounds 0 (unpack Format.binary64 (pack Format.binary64 (.zero s))) :=
  rounds_zero s (by rw [abs_zero]; positivity)

/-- Rounding up may give the first number with one more bit, which loses nothing when it is halved. -/
theorem carry_mul_zpow {q : ℕ} (few : q ≤ 2 ^ 53) (e : ℤ) :
    ((q / 2 ^ (q.log2 - 52) : ℕ) : ℚ) * 2 ^ (e + (q.log2 - 52 : ℕ)) = q * 2 ^ e := by
  rcases few.eq_or_lt with rfl | less
  · rw [Nat.log2_two_pow, zpow_add₀ two_ne_zero]
    norm_num
    ring
  · have bits : q.log2 - 52 = 0 := by
      rcases Nat.eq_zero_or_pos q with rfl | pos
      · rfl
      · have := (Nat.log2_lt pos.ne').mpr less
        omega
    rw [bits]
    simp

theorem log2_add_lt_of_lt {m : ℕ} {e k : ℤ} {r : ℚ} (pos : 0 < m) (least : (m : ℚ) ≤ r)
    (less : r * 2 ^ e < 2 ^ k) : (m.log2 : ℤ) + e < k := by
  have first : (2 : ℚ) ^ (m.log2 : ℤ) ≤ m := by
    rw [zpow_natCast]
    exact_mod_cast Nat.log2_self_le pos.ne'
  have power : (0 : ℚ) < 2 ^ e := by positivity
  have base : (1 : ℚ) < 2 := one_lt_two
  refine (zpow_lt_zpow_iff_right₀ base).mp ?_
  calc (2 : ℚ) ^ ((m.log2 : ℤ) + e) = 2 ^ (m.log2 : ℤ) * 2 ^ e := zpow_add₀ two_ne_zero _ _
    _ ≤ r * 2 ^ e := mul_le_mul_of_nonneg_right (first.trans least) power.le
    _ < 2 ^ k := less

section Units

variable {q : ℕ} {e : ℤ} {r : ℚ}

/-- The nearest whole number of units is near, if a unit is not larger than it is for floats. -/
theorem near_of_half (s : Sign) (half : |(q : ℚ) - r| ≤ 1 / 2)
    (unit : ∀ k : ℤ, -1021 ≤ k → |r| * 2 ^ e < 2 ^ k → e ≤ k - 53) :
    Near (s.apply 1 * (r * 2 ^ e)) (s.apply 1 * (q * 2 ^ e)) := by
  intro k low less
  have power : (0 : ℚ) < 2 ^ e := by positivity
  rw [abs_apply_one_mul, abs_mul, abs_of_pos power] at less
  have small := unit k low less
  rw [← mul_sub, abs_apply_one_mul, ← sub_mul, abs_mul, abs_of_pos power]
  calc |(q : ℚ) - r| * 2 ^ e ≤ 1 / 2 * 2 ^ e := mul_le_mul_of_nonneg_right half power.le
    _ = 2 ^ (e - 1) := by rw [zpow_sub_one₀ two_ne_zero]; ring
    _ ≤ 2 ^ (k - 54) := zpow_le_zpow_right₀ one_le_two (by omega)

/-- What is rounded to a float had room: the first number without is as near to the greatest float as
to the power of two above it, and the mantissa of that float is odd. -/
theorem lt_room_of_half (half : |(q : ℚ) - r| ≤ 1 / 2) (even : |(q : ℚ) - r| = 1 / 2 → q % 2 = 0)
    (few : q ≤ 2 ^ 53) (high : e + (q.log2 - 52 : ℕ) ≤ 971) : |r| * 2 ^ e < room := by
  have top : (0 : ℚ) < 2 ^ (971 : ℤ) := by positivity
  have apart : |r| - q ≤ |q - r| := by
    have := abs_sub_abs_le_abs_sub r q
    rwa [abs_sub_comm r, Nat.abs_cast] at this
  rw [room_eq]
  rcases few.eq_or_lt with rfl | less
  · have low : e ≤ 970 := by
      rw [Nat.log2_two_pow] at high
      omega
    have power : (2 : ℚ) ^ e ≤ 1 / 2 * 2 ^ (971 : ℤ) :=
      (zpow_le_zpow_right₀ one_le_two low).trans_eq half_unit
    have below : |r| * (1 / 2) < 2 ^ 53 - 1 / 2 := by
      push_cast at apart
      linarith
    calc |r| * 2 ^ e ≤ |r| * (1 / 2 * 2 ^ (971 : ℤ)) := mul_le_mul_of_nonneg_left power (abs_nonneg r)
      _ = |r| * (1 / 2) * 2 ^ (971 : ℤ) := (mul_assoc _ _ _).symm
      _ < (2 ^ 53 - 1 / 2) * 2 ^ (971 : ℤ) := mul_lt_mul_of_pos_right below top
  · have power : (2 : ℚ) ^ e ≤ 2 ^ (971 : ℤ) := zpow_le_zpow_right₀ one_le_two (by omega)
    have below : |r| < 2 ^ 53 - 1 / 2 := by
      refine not_le.mp fun large => ?_
      have least : ((2 ^ 53 - 1 : ℕ) : ℚ) ≤ q := by
        push_cast
        linarith
      obtain rfl : q = 2 ^ 53 - 1 := by
        have := Nat.cast_le.mp least
        omega
      have tie : |((2 ^ 53 - 1 : ℕ) : ℚ) - r| = 1 / 2 := by
        refine le_antisymm half (le_trans ?_ apart)
        push_cast
        linarith
      exact absurd (even tie) (by decide)
    calc |r| * 2 ^ e ≤ |r| * 2 ^ (971 : ℤ) := mul_le_mul_of_nonneg_left power (abs_nonneg r)
      _ < (2 ^ 53 - 1 / 2) * 2 ^ (971 : ℤ) := mul_lt_mul_of_pos_right below top

/-- The nearest whole number of units, with the carry of its rounding made good, is the rounded float. -/
theorem rounds_of_half (s : Sign) (half : |(q : ℚ) - r| ≤ 1 / 2)
    (even : |(q : ℚ) - r| = 1 / 2 → q % 2 = 0) (few : q ≤ 2 ^ 53) (low : -1074 ≤ e)
    (full : 52 ≤ q.log2 ∨ e = -1074)
    (unit : ∀ k : ℤ, -1021 ≤ k → |r| * 2 ^ e < 2 ^ k → e ≤ k - 53) :
    Rounds (s.apply 1 * (r * 2 ^ e)) (unpack Format.binary64 (pack Format.binary64
      (if none : q / 2 ^ (q.log2 - 52) = 0 then .zero s
        else .finite s (q / 2 ^ (q.log2 - 52)) (e + (q.log2 - 52 : ℕ)) (Nat.pos_of_ne_zero none)))) := by
  have size : |(s.apply 1 : ℚ) * (r * 2 ^ e)| = |r| * 2 ^ e := by
    rw [abs_apply_one_mul, abs_mul, abs_of_pos (by positivity : (0 : ℚ) < 2 ^ e)]
  split
  · next none =>
    -- Only at the lowest exponent a number is rounded to zero.
    obtain rfl : q = 0 := Nat.eq_zero_of_not_pos fun pos => (div_two_pow_pos pos 52).ne' none
    obtain rfl : e = -1074 := by
      have : Nat.log2 0 = 0 := rfl
      omega
    rw [Nat.cast_zero, zero_sub, abs_neg] at half
    refine rounds_zero s ?_
    rw [size]
    calc |r| * 2 ^ (-1074 : ℤ) ≤ 1 / 2 * 2 ^ (-1074 : ℤ) :=
        mul_le_mul_of_nonneg_right half (by positivity)
      _ = 2 ^ (-1075 : ℤ) := by
        rw [show (-1075 : ℤ) = -1074 - 1 from rfl, zpow_sub_one₀ two_ne_zero]
        ring
  · next some =>
    have canonical : Canonical (q / 2 ^ (q.log2 - 52)) (e + (q.log2 - 52 : ℕ)) := by
      have bits := log2_le_log2 few
      rw [Nat.log2_two_pow] at bits
      refine ⟨?_, by omega, ?_⟩ <;> rw [log2_div_two_pow] <;> omega
    have near := near_of_half s half unit
    rw [← carry_mul_zpow few] at near
    refine rounds_pack canonical _ ?_ fun high => ?_
    · rw [apply_eq, mul_assoc]
      exact near
    · rw [size]
      exact lt_room_of_half half even few high

end Units

/-- Rounding gives the nearest float, from a number that has as many bits as floats have, or more,
or is at the lowest exponent. -/
theorem rounds_roundWithAccuracy (s : Sign) {m : ℕ} {e : ℤ} {acc : Accuracy} {r : ℚ}
    (shown : Represents (.ofMantissaAndAccuracy m acc) r) (full : 52 ≤ m.log2 ∨ e ≤ -1074) :
    Rounds (s.apply 1 * (r * 2 ^ e)) (unpack Format.binary64
      (pack Format.binary64 (roundWithAccuracy Format.binary64 s m e acc))) := by
  obtain ⟨shift, target⟩ : ∃ shift : ℕ, max ((m.log2 : ℤ) + e - 52) (-1074) = e + shift :=
    ⟨(max ((m.log2 : ℤ) + e - 52) (-1074) - e).toNat, by omega⟩
  obtain ⟨half, even⟩ := (shown.shiftRight shift).abs_roundedMantissa_sub
  obtain ⟨lower, upper⟩ := roundedMantissa_bounds
    (ExtendedMantissa.ofMantissaAndAccuracy m acc >>> shift)
  rw [mantissa_shifted] at lower upper
  obtain ⟨q, isRounded⟩ :
    ∃ q, (ExtendedMantissa.ofMantissaAndAccuracy m acc >>> shift).roundedMantissa = q := ⟨_, rfl⟩
  rw [isRounded] at half even lower upper
  have more := log2_le_log2 lower
  rw [log2_div_two_pow] at more
  have few : q ≤ 2 ^ 53 := by
    have bits : m < 2 ^ (53 + shift) :=
      Nat.lt_log2_self.trans_le (Nat.pow_le_pow_right Nat.two_pos (by omega))
    have less : m / 2 ^ shift < 2 ^ 53 := by
      rwa [Nat.div_lt_iff_lt_mul (Nat.two_pow_pos _), ← Nat.pow_add]
    omega
  have moved : r * 2 ^ e = r / 2 ^ shift * 2 ^ (e + shift) := by
    rw [zpow_add₀ two_ne_zero, zpow_natCast, mul_comm (2 ^ e : ℚ), ← mul_assoc,
      div_mul_cancel₀ _ (by positivity)]
  have unit (k : ℤ) (low : -1021 ≤ k) (less : |r / 2 ^ shift| * 2 ^ (e + shift) < 2 ^ k) :
      e + shift ≤ k - 53 := by
    have least : (m : ℚ) ≤ r := mantissa_ofMantissaAndAccuracy m acc ▸ shown.mantissa_le
    have positive : 0 ≤ r / 2 ^ shift := by
      have := m.cast_nonneg.trans least
      positivity
    rw [abs_of_nonneg positive, ← moved] at less
    rcases Nat.eq_zero_or_pos m with rfl | pos
    · have : Nat.log2 0 = 0 := rfl
      omega
    · have := log2_add_lt_of_lt pos least less
      omega
  have again := shiftToTargetExponent_eq q .exact (show -1074 ≤ e + shift by omega)
  have rounded := rounds_of_half s half even few (by omega) (by omega) unit
  rw [moved, roundWithAccuracy, shiftToTargetExponent, targetExponent_eq, shiftToExponent, target,
    add_sub_cancel_left, Int.toNat_natCast]
  dsimp only
  rw [isRounded, again]
  simp only [mantissa_shifted]
  exact rounded

theorem rounds_round (s : Sign) {m : ℕ} (pos : 0 < m) (e : ℤ) :
    Rounds (s.apply m * 2 ^ e) (unpack Format.binary64
      (pack Format.binary64 (round Format.binary64 s m e))) := by
  let shift := (e - max (m.log2 + e - 52) (-1074)).toNat
  have lowered : round Format.binary64 s m e =
      roundWithAccuracy Format.binary64 s (m * 2 ^ shift) (e - shift) .exact := by
    rw [UnpackedFloat.round, targetExponent_eq, decreaseExponent, Nat.shiftLeft_eq]
  have logs : (m * 2 ^ shift).log2 = m.log2 + shift := log2_mul_two_pow pos shift
  have value : (s.apply m : ℚ) * 2 ^ e =
      s.apply 1 * (((m * 2 ^ shift : ℕ) : ℚ) * 2 ^ (e - shift)) := by
    rw [apply_eq, zpow_sub₀ two_ne_zero, zpow_natCast, Nat.cast_mul, Nat.cast_pow, Nat.cast_ofNat]
    field_simp
  rw [lowered, value]
  exact rounds_roundWithAccuracy s (represents_exact _) (by omega)

theorem rounds_normalize (M E : ℤ) (z : Sign) :
    Rounds (M * 2 ^ E) (unpack Format.binary64
      (pack Format.binary64 (UnpackedFloat.normalize Format.binary64 M E z))) := by
  by_cases zero : M = 0
  · rw [zero, normalize_zero, Int.cast_zero, zero_mul]
    exact rounds_zero_zero z
  · obtain ⟨s, m, pos, rfl⟩ := exists_apply_eq zero
    rw [normalize_apply s z pos]
    exact rounds_round s pos E

end Evolution.Binary
