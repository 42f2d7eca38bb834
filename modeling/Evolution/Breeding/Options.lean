import Evolution.Generation.Options

/-!
Settings of operators. Every setting may be left open. Settings are layered: those of a call go over
those of the operator, and the result goes over complete settings for random code.
-/

namespace Evolution

structure BreedingOptions where
  size : Option Nat := none
  instructions : Option (List String) := none
  references : Option (List String) := none
  types : Option (List String) := none
  proportions : Option Proportions := none
  intRange : Option (Int64 × Int64) := none
  floatRange : Option (Float × Float) := none
  /-- The probability of taking a slot of the first parent. -/
  probability : Option Float := none
deriving DecidableEq, Inhabited

namespace BreedingOptions

/-- These settings under a further layer: what the layer leaves open stays. -/
def merge (base layer : BreedingOptions) : BreedingOptions where
  size := layer.size.or base.size
  instructions := layer.instructions.or base.instructions
  references := layer.references.or base.references
  types := layer.types.or base.types
  proportions := layer.proportions.or base.proportions
  intRange := layer.intRange.or base.intRange
  floatRange := layer.floatRange.or base.floatRange
  probability := layer.probability.or base.probability

/-- Complete settings under a layer: what the layer leaves open stays. -/
def generation (layer : BreedingOptions) (base : GenerationOptions) : GenerationOptions :=
  { base with
    size := layer.size.getD base.size
    instructions := layer.instructions.getD base.instructions
    references := layer.references.getD base.references
    types := layer.types.getD base.types
    proportions := layer.proportions.getD base.proportions
    intRange := layer.intRange.getD base.intRange
    floatRange := layer.floatRange.getD base.floatRange }

end BreedingOptions

end Evolution
