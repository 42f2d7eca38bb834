import Evolution.Draw.Real
import Evolution.Literal.Registry

/-!
Random code. A tree of a given size is a block that is filled from the left until its points are
used up: while more than one is left, a chance decides between a nested block of a random size and a
single leaf. Leaves are drawn among the kinds that have something to draw from and a positive
weight; when there is none they are empty blocks.
-/

namespace Evolution

inductive LeafKind where
  | emptyBlock
  | instruction
  | reference
  | literal
deriving DecidableEq, Inhabited

namespace GenerationOptions

/-- The types of literals that are both wanted and registered. -/
def usableTypes (o : GenerationOptions) (types : Registry) : List String :=
  o.types.filter types.contains

/-- The kinds of leaves that can be drawn, with their weights. -/
def leafKinds (o : GenerationOptions) (types : Registry) : List (LeafKind × Float) :=
  let w := o.proportions
  let all :=
    (LeafKind.emptyBlock, w.block) ::
      (if o.instructions.isEmpty then [] else [(.instruction, w.instruction)]) ++
      (if o.references.isEmpty then [] else [(.reference, w.reference)]) ++
      (if (o.usableTypes types).isEmpty then [] else [(.literal, w.literal)])
  all.filter fun (_, weight) => 0 < weight

end GenerationOptions

/-- A random leaf. -/
def randomLeaf (o : GenerationOptions) (types : Registry) : Draw Point := do
  match (← Draw.weighted (o.leafKinds types)).getD .emptyBlock with
  | .emptyBlock => return .emptyBlock
  | .instruction =>
    return match ← Draw.member o.instructions with
      | some name => .instruction name
      | none => .emptyBlock
  | .reference =>
    return match ← Draw.member o.references with
      | some name => .reference name
      | none => .emptyBlock
  | .literal =>
    match ← Draw.member (o.usableTypes types) with
    | none => return .emptyBlock
    | some type =>
      return match ← types.random type o with
        | some text => .literal ⟨type, text⟩
        | none => .emptyBlock

/-- The size of the next point of a block when `left` points are to be placed. -/
def nextSize (o : GenerationOptions) (left : Nat) (h : 0 < left) :
    Draw { n : Nat // 0 < n ∧ n ≤ left } := do
  if h : 1 < left then
    if ← Draw.chance o.proportions.blockShare then
      let k ← Draw.below 64 (left - 1) (by omega)
      return ⟨k.val + 2, by omega⟩
    else return ⟨1, by omega⟩
  else return ⟨1, by omega⟩

mutual

/-- A random tree of `size` points; a size of zero counts as one. -/
def randomPoint (o : GenerationOptions) (types : Registry) (size : Nat) : Draw Point :=
  if size ≤ 1 then randomLeaf o types
  else do return .block (← randomContents o types (size - 1))
termination_by 2 * size
decreasing_by omega

/-- Random points of `left` points together. -/
def randomContents (o : GenerationOptions) (types : Registry) (left : Nat) : Draw (List Point) :=
  if h : 0 < left then do
    let ⟨n, _, _⟩ ← nextSize o left h
    let p ← randomPoint o types n
    let rest ← randomContents o types (left - n)
    return p :: rest
  else return []
termination_by 2 * left + 1
decreasing_by all_goals omega

end

/-- A random program of the size that the options ask for, one point at least. -/
def randomProgram (o : GenerationOptions) (types : Registry) : Draw Program := do
  return .ofPoint (← randomPoint o types (max o.size 1))

end Evolution
