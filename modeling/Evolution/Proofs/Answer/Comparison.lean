import Mathlib

/-! Comparisons of scores. A float that is a number has its place in a linear order, in which both
zeros share one place: by sign and class first, then by exponent and mantissa. Among numbers, less
and equal are those of the places; with a float that is not a number, neither holds. -/

namespace Evolution.Score

open Float.Model (UnpackedFloat)
open Float.Model.UnpackedFloat

/-- Negative floats come in the reverse order of their sizes. -/
def placeOf : UnpackedFloat → ℤ ×ₗ ℤ ×ₗ ℤ
  | .infinity .negative => toLex (-2, toLex (0, 0))
  | .finite .negative mantissa exponent _ => toLex (-1, toLex (-exponent, -mantissa))
  | .zero _ => toLex (0, toLex (0, 0))
  | .finite .positive mantissa exponent _ => toLex (1, toLex (exponent, mantissa))
  | .infinity .positive => toLex (2, toLex (0, 0))
  | .notANumber => toLex (0, toLex (0, 0))

/-- The place of a float among the numbers; without meaning for one that is not a number. -/
def place (x : Float) : ℤ ×ₗ ℤ ×ₗ ℤ := placeOf x.toModel.unpack

theorem cmp_toLex (a b : ℤ) (r s : ℤ ×ₗ ℤ) :
    cmp (toLex (a, r)) (toLex (b, s)) = (compare a b).then (cmp r s) := by
  simp only [cmp, cmpUsing, Prod.Lex.toLex_lt_toLex]
  rcases lt_trichotomy a b with less | rfl | more
  · simp [less, compare_lt_iff_lt.mpr less]
  · simp
  · simp [more, more.le, more.ne', compare_gt_iff_gt.mpr more]

/-- Sizes are compared by exponent, then by mantissa. -/
theorem compare_size (e e' : ℤ) (m m' : ℕ) :
    (compare e e').then (compare m m') = cmp (toLex (e, (m : ℤ))) (toLex (e', (m' : ℤ))) := by
  simp only [cmp, cmpUsing, Prod.Lex.toLex_lt_toLex]
  rcases lt_trichotomy e e' with less | rfl | more
  · simp [less, compare_lt_iff_lt.mpr less]
  · rcases lt_trichotomy m m' with less | rfl | more
    · simp [less, compare_lt_iff_lt.mpr less]
    · simp
    · simp [more, more.le, compare_gt_iff_gt.mpr more]
  · simp [more, more.le, more.ne', compare_gt_iff_gt.mpr more]

/-- With both signs changed the larger size comes first. -/
theorem cmp_size_neg (e e' m m' : ℤ) :
    cmp (toLex (-e, -m)) (toLex (-e', -m')) = (cmp (toLex (e, m)) (toLex (e', m'))).swap := by
  rw [cmp_swap]
  simp [cmp, cmpUsing, Prod.Lex.toLex_lt_toLex, eq_comm]

theorem compare_eq_cmp {x y : UnpackedFloat} (hx : x ≠ .notANumber) (hy : y ≠ .notANumber) :
    x.compare y = some (cmp (placeOf x) (placeOf y)) := by
  cases x with
  | notANumber => contradiction
  | infinity s =>
    cases y with
    | notANumber => contradiction
    | infinity t => cases s <;> cases t <;> rfl
    | zero t => cases s <;> rfl
    | finite t m e pos => cases s <;> cases t <;> simp only [placeOf, cmp_toLex] <;> rfl
  | zero s =>
    cases y with
    | notANumber => contradiction
    | infinity t => cases t <;> rfl
    | zero t => rfl
    | finite t m e pos => cases t <;> simp only [placeOf, cmp_toLex] <;> rfl
  | finite s m e pos =>
    cases y with
    | notANumber => contradiction
    | infinity t => cases s <;> cases t <;> simp only [placeOf, cmp_toLex] <;> rfl
    | zero t => cases s <;> simp only [placeOf, cmp_toLex] <;> rfl
    | finite t m' e' pos' =>
      cases s <;> cases t <;> simp only [placeOf, cmp_toLex _ _ (toLex _)]
      case negative.positive => rfl
      case positive.negative => rfl
      case negative.negative => simp [UnpackedFloat.compare, compare_size, cmp_size_neg]
      case positive.positive => simp [UnpackedFloat.compare, compare_size]

theorem compare_eq_none {x y : UnpackedFloat} (h : x = .notANumber ∨ y = .notANumber) :
    x.compare y = none := by
  rcases h with rfl | rfl
  · rfl
  · cases x <;> rfl

theorem isNaN_iff {x : Float} : x.isNaN = true ↔ x.toModel.unpack = .notANumber := by
  change x.toModel.unpack.isNaN = true ↔ _
  cases x.toModel.unpack <;> simp [UnpackedFloat.isNaN]

theorem compare_unpack (x y : Float) :
    x.toModel.unpack.compare y.toModel.unpack =
      if x.isNaN = true ∨ y.isNaN = true then none else some (cmp (place x) (place y)) := by
  split
  · next h => exact compare_eq_none (h.imp isNaN_iff.mp isNaN_iff.mp)
  · next h =>
    rw [not_or] at h
    exact compare_eq_cmp (mt isNaN_iff.mpr h.1) (mt isNaN_iff.mpr h.2)

theorem lt_iff {x y : Float} :
    x < y ↔ x.isNaN = false ∧ y.isNaN = false ∧ place x < place y := by
  have unfolded : x < y ↔ x.toModel.unpack.compare y.toModel.unpack = some .lt := by
    refine decide_eq_true_iff.trans ?_
    exact beq_iff_eq
  rw [unfolded, compare_unpack]
  grind [cmp_eq_lt_iff]

theorem beq_iff {x y : Float} :
    (x == y) = true ↔ x.isNaN = false ∧ y.isNaN = false ∧ place x = place y := by
  have unfolded : (x == y) = true ↔ x.toModel.unpack.compare y.toModel.unpack = some .eq :=
    @beq_iff_eq _ _ _ (x.toModel.unpack.compare y.toModel.unpack) _
  rw [unfolded, compare_unpack]
  grind [cmp_eq_eq_iff]

end Evolution.Score
