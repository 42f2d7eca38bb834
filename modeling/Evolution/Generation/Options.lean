/-!
Settings for random code and random literals.
-/

namespace Evolution

/-- The weights with which the kinds of points are drawn. A weight that is not positive excludes its
kind. -/
structure Proportions where
  block : Float := 1
  instruction : Float := 4
  reference : Float := 1
  literal : Float := 2
deriving DecidableEq

namespace Proportions

/-- A weight as a share of a sum: nothing unless it is positive. -/
def positive (w : Float) : Float := if 0 < w then w else 0

/-- The part of the draws that open a nested block. -/
def blockShare (w : Proportions) : Float :=
  let total := positive w.block + positive w.instruction + positive w.reference + positive w.literal
  if 0 < total then positive w.block / total else 0

end Proportions

/-- What random code may be made of, and the bounds of random literals. The two bounds of a range
may stand in either order. -/
structure GenerationOptions where
  size : Nat := 20
  instructions : List String := []
  references : List String := []
  types : List String := []
  proportions : Proportions := {}
  intRange : Int64 × Int64 := (-100, 100)
  floatRange : Float × Float := (-100, 100)
  /-- The probability of a random truth value being true. -/
  trueChance : Float := Float.ofScientific 5 true 1
deriving DecidableEq

end Evolution
