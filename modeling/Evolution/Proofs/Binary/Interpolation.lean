import Evolution.Proofs.Binary.Operations
import Evolution.Proofs.Draw.Fraction

/-! Interpolation between floats. The way from one float to another has room exactly if their difference
has; then every point on it is a finite float, the rounding of the three operations included. -/

namespace Evolution.Binary

open Float.Model (Format UnpackedFloat)
open Float.Model.UnpackedFloat

/-- A part of a whole, below it by a unit in the 53rd place behind the point at least. -/
structure IsPart (t : ℚ) : Prop where
  least : 0 ≤ t
  most : t ≤ 1 - 2 ^ (-53 : ℤ)

theorem IsPart.le_one {t : ℚ} (h : IsPart t) : t ≤ 1 :=
  h.most.trans (sub_le_self _ (by positivity))

theorem exists_isPart {x : Float} (h : Fractional x.toModel.unpack) :
    ∃ t, number? x = some t ∧ IsPart t := by
  rcases h with zero | ⟨m, e, pos, finite, canonical, less⟩
  · refine ⟨0, by rw [number?, zero]; rfl, le_rfl, by norm_num⟩
  · refine ⟨m * 2 ^ e, by rw [number?, finite]; rfl, by positivity, ?_⟩
    have low : e ≤ -53 := by
      have := canonical.full
      omega
    calc (m : ℚ) * 2 ^ e ≤ (2 ^ 53 - 1) * 2 ^ (-53 : ℤ) := canonical.mul_zpow_le pos low
      _ = 1 - 2 ^ (-53 : ℤ) := by norm_num

theorem Near.neg {r v : ℚ} (h : Near r v) : Near (-r) (-v) := by
  intro k low less
  rw [abs_neg] at less
  rw [← neg_sub_neg, neg_neg, neg_neg, abs_sub_comm]
  exact h k low less

section Numbers

variable {a b d p t w : ℚ}

theorem Near.sub_le_half (h : Near a d) (less : |a| < 2 ^ (1023 : ℤ)) : |d - a| ≤ 2 ^ (969 : ℤ) :=
  h 1023 (by decide) less

theorem Near.sub_le_unit (h : Near a d) (less : |a| < 2 ^ (1024 : ℤ)) : |d - a| ≤ 2 ^ (970 : ℤ) :=
  h 1024 (by decide) less

/-- The powers of two that bound the numbers, as multiples of the least of them. -/
theorem exists_powers : ∃ u : ℚ, 0 < u ∧ (2 : ℚ) ^ (969 : ℤ) = u ∧ (2 : ℚ) ^ (970 : ℤ) = 2 * u ∧
    (2 : ℚ) ^ (1023 : ℤ) = 2 ^ 54 * u ∧ (2 : ℚ) ^ (1024 : ℤ) = 2 ^ 55 * u := by
  have above (n : ℕ) : (2 : ℚ) ^ (969 + n : ℤ) = 2 ^ n * 2 ^ (969 : ℤ) := by
    rw [zpow_add₀ two_ne_zero, zpow_natCast, mul_comm]
  have two := above 1
  rw [pow_one] at two
  exact ⟨_, by positivity, rfl, two, above 54, above 55⟩

/-- A way `w` is rounded to `d`, and a part `m` of that is rounded to `p`. Each is off by two units at
most, and by one in the lower half of the range; so `p` ends less than two units behind `w`. -/
theorem lt_add_of_near {u m : ℚ} (unit : 0 < u) (apart : |w| < 2 ^ 55 * u) (forth : 0 < d)
    (some : d < 2 ^ 55 * u) (least : 0 ≤ m) (short : d ≤ 2 ^ 53 * (d - m))
    (wayHalf : |w| < 2 ^ 54 * u → |d - w| ≤ u) (wayUnit : |w| < 2 ^ 55 * u → |d - w| ≤ 2 * u)
    (stepHalf : |m| < 2 ^ 54 * u → |p - m| ≤ u) (stepUnit : |m| < 2 ^ 55 * u → |p - m| ≤ 2 * u) :
    p < w + 2 * u := by
  rw [abs_of_nonneg least] at stepHalf stepUnit
  obtain ⟨-, off⟩ := abs_le.mp (wayUnit apart)
  rcases lt_or_ge m (2 ^ 54 * u) with low | high
  · obtain ⟨-, more⟩ := abs_le.mp (stepHalf low)
    rcases lt_or_ge |w| (2 ^ 54 * u) with near | far
    · obtain ⟨-, off'⟩ := abs_le.mp (wayHalf near)
      linarith
    · rcases le_abs.mp far with forward | back
      · linarith
      · linarith
  · -- Here the part of the way falls short by a unit of the last place, before it is rounded.
    obtain ⟨-, more⟩ := abs_le.mp (stepUnit (by linarith))
    linarith

theorem Near.le_of_nonpos (h : Near d p) (back : d ≤ 0) (few : |d| < 2 ^ (1024 : ℤ)) :
    p ≤ 2 ^ (969 : ℤ) := by
  have half := h.sub_le_half
  have unit := h.sub_le_unit few
  obtain ⟨u, positive, e969, e970, e1023, -⟩ := exists_powers
  rw [e969, e1023] at half
  rw [e970] at unit
  rw [e969]
  clear e969 e970 e1023
  rw [abs_of_nonpos back] at half
  rcases lt_or_ge (-d) (2 ^ 54 * u) with near | far
  · obtain ⟨-, more⟩ := abs_le.mp (half near)
    linarith
  · obtain ⟨-, more⟩ := abs_le.mp unit
    linarith

/-- Rounded, too, a part of the way ends less than half a unit of the greatest float behind the goal. -/
theorem lt_add_half (apart : |w| < 2 ^ (1024 : ℤ)) (way : Near w d) (forth : 0 < d)
    (length : |d| < 2 ^ (1024 : ℤ)) (part : IsPart t) (step : Near (t * d) p) :
    p < w + 2 ^ (970 : ℤ) := by
  obtain ⟨m, product⟩ : ∃ m, t * d = m := ⟨_, rfl⟩
  have least : 0 ≤ m := product ▸ mul_nonneg part.least forth.le
  have short : d ≤ 2 ^ 53 * (d - m) := by
    have scaled : m ≤ (1 - 2 ^ (-53 : ℤ)) * d :=
      product ▸ mul_le_mul_of_nonneg_right part.most forth.le
    norm_num at scaled ⊢
    linarith
  rw [product] at step
  have wayHalf := way.sub_le_half
  have wayUnit := way.sub_le_unit
  have stepHalf := step.sub_le_half
  have stepUnit := step.sub_le_unit
  rw [abs_of_pos forth] at length
  obtain ⟨u, unit, e969, e970, e1023, e1024⟩ := exists_powers
  rw [e970] at wayUnit stepUnit ⊢
  rw [e969] at wayHalf stepHalf
  rw [e1023] at wayHalf stepHalf
  rw [e1024] at apart length wayUnit stepUnit
  exact lt_add_of_near unit apart forth length least short wayHalf wayUnit stepHalf stepUnit

/-- A part of the way from a number stays below the bound. -/
theorem add_lt_room (start : a ≤ greatest) (goal : b ≤ greatest) (apart : |b - a| < room)
    (way : Near (b - a) d) (length : |d| ≤ greatest) (part : IsPart t) (step : Near (t * d) p)
    (finite : p ≤ greatest) : a + p < room := by
  have few : |d| < 2 ^ (1024 : ℤ) := length.trans_lt (greatest_lt_room.trans room_lt)
  rcases le_or_gt a 0 with below | above
  · calc a + p ≤ p := add_le_of_nonpos_left below
      _ ≤ greatest := finite
      _ < room := greatest_lt_room
  rcases le_or_gt d 0 with back | forth
  · have less : |t * d| < 2 ^ (1024 : ℤ) := by
      rw [abs_mul, abs_of_nonneg part.least]
      exact (mul_le_of_le_one_left (abs_nonneg d) part.le_one).trans_lt few
    have small := step.le_of_nonpos (mul_nonpos_of_nonneg_of_nonpos part.least back) less
    calc a + p ≤ greatest + 2 ^ (969 : ℤ) := add_le_add start small
      _ < greatest + 2 ^ (970 : ℤ) :=
        add_lt_add_right (zpow_lt_zpow_right₀ one_lt_two (by decide)) _
      _ = room := greatest_add_half
  · calc a + p < a + (b - a + 2 ^ (970 : ℤ)) :=
        add_lt_add_right (lt_add_half (apart.trans room_lt) way forth few part step) a
      _ = b + 2 ^ (970 : ℤ) := by rw [← add_assoc, add_sub_cancel]
      _ ≤ greatest + 2 ^ (970 : ℤ) := by gcongr
      _ = room := greatest_add_half

end Numbers

section Floats

variable {x y z : Float} {a b : ℚ}

theorem isFinite_of_pack {u : UnpackedFloat}
    (h : (unpack Format.binary64 (pack Format.binary64 u)).isFinite = true) : u.isFinite = true := by
  cases u with
  | zero s => rfl
  | finite s m e pos => rfl
  | notANumber => exact h
  | infinity s => cases s <;> exact h

/-- What is not finite stays so in a product. -/
theorem isFinite_of_mul (h : (x * y).isFinite = true) : y.isFinite = true := by
  have product : (UnpackedFloat.mul Format.binary64 _ _).isFinite = true := isFinite_of_pack h
  change y.toModel.unpack.isFinite = true
  generalize x.toModel.unpack = u at product
  generalize y.toModel.unpack = v at product ⊢
  cases v with
  | zero s => rfl
  | finite s m e pos => rfl
  | notANumber => cases u <;> simp [UnpackedFloat.mul, UnpackedFloat.isFinite] at product
  | infinity s => cases u <;> simp [UnpackedFloat.mul, UnpackedFloat.isFinite] at product

/-- Nor is it made finite by a sum. -/
theorem isFinite_of_add (h : (x + y).isFinite = true) : y.isFinite = true := by
  have sum : (UnpackedFloat.add Format.binary64 _ _).isFinite = true := isFinite_of_pack h
  change y.toModel.unpack.isFinite = true
  generalize x.toModel.unpack = u at sum
  generalize y.toModel.unpack = v at sum ⊢
  cases v with
  | zero s => rfl
  | finite s m e pos => rfl
  | notANumber => cases u <;> simp [UnpackedFloat.add, UnpackedFloat.isFinite] at sum
  | infinity s =>
    cases u with
    | infinity t => cases s <;> cases t <;> exact sum
    | notANumber | zero t | finite t m e pos =>
      simp [UnpackedFloat.add, UnpackedFloat.isFinite] at sum

/-- The float on the way from one number to another is finite exactly if their difference has room. -/
theorem isFinite_interpolation_iff (hx : number? x = some a) (hy : number? y = some b)
    (part : Fractional z.toModel.unpack) :
    (x + z * (y - x)).isFinite = true ↔ |b - a| < room := by
  have difference := rounds_sub hy hx
  constructor
  · intro finite
    exact difference.isFinite_iff.mp (isFinite_of_mul (isFinite_of_add finite))
  · intro apart
    obtain ⟨d, hd, way⟩ := difference.exists_number? apart
    obtain ⟨t, ht, part⟩ := exists_isPart part
    have length := abs_le_greatest hd
    have product := rounds_mul ht hd
    have short : |t * d| < room := by
      rw [abs_mul, abs_of_nonneg part.least]
      exact (mul_le_of_le_one_left (abs_nonneg d) part.le_one).trans_lt (abs_lt_room hd)
    obtain ⟨p, hp, step⟩ := product.exists_number? short
    have start := abs_le.mp (abs_le_greatest hx)
    have goal := abs_le.mp (abs_le_greatest hy)
    have finite := abs_le.mp (abs_le_greatest hp)
    refine (rounds_add hx hp).isFinite_iff.mpr (abs_lt.mpr ⟨?_, ?_⟩)
    · -- The way in the other direction, with all signs changed.
      have apart' : |-b - -a| < room := by rwa [neg_sub_neg, abs_sub_comm]
      have way' : Near (-b - -a) (-d) := by
        rw [neg_sub_neg, ← neg_sub]
        exact way.neg
      have step' : Near (t * -d) (-p) := by
        rw [mul_neg]
        exact step.neg
      have below := add_lt_room (neg_le.mp start.1) (neg_le.mp goal.1) apart' way'
        (by rwa [abs_neg]) part step' (neg_le.mp finite.1)
      rw [← neg_add] at below
      exact neg_lt.mp below
    · exact add_lt_room start.2 goal.2 apart way length part step finite.2

end Floats

end Evolution.Binary
