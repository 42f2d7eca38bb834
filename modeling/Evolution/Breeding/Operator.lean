import Evolution.Breeding.Crossover
import Evolution.Breeding.Mutation

/-!
The operators that breed new answers from a crowd. A call that breaks an operator's rules is refused
before any word is drawn; otherwise it gives a choice of children. The count has a default and a
meaning of its own for each operator: the number of children, of children for each answer, or of
children for each pair. Nearly all operators make room for their children before they draw the first;
where there is no such room, the call fails without taking a word.
-/

namespace Evolution

/-- An operator with its literal types and its own settings, where it has use for them. -/
inductive Operator where
  | randomGuess (types : Registry) (defaults : BreedingOptions)
  | resampleAndClone
  | resampleValues (types : Registry) (defaults : BreedingOptions)
  | uniformBackboneCrossover (defaults : BreedingOptions)
  | pointCrossover
  | pointDelete
  | pointMutation (types : Registry) (defaults : BreedingOptions)
  | blendingCrossover (types : Registry)

namespace Operator

open Breeding

def name : Operator → String
  | randomGuess .. => "RandomGuess"
  | resampleAndClone => "ResampleAndClone"
  | resampleValues .. => "ResampleValues"
  | uniformBackboneCrossover .. => "UniformBackboneCrossover"
  | pointCrossover => "PointCrossover"
  | pointDelete => "PointDelete"
  | pointMutation .. => "PointMutation"
  | blendingCrossover .. => "BlendingCrossover"

def defaultProbability : Float := Float.ofScientific 5 true 1

def keepProbability (defaults overrides : BreedingOptions) : Float :=
  (defaults.merge overrides).probability.getD defaultProbability

def check (op : Operator) (crowd : List Answer) (count : Option Nat) (overrides : BreedingOptions) :
    Except ArgumentError Unit := do
  match op with
  | randomGuess .. => return ()
  | resampleAndClone => if 0 < count.getD 1 then needsCrowd op.name crowd
  | resampleValues .. => return ()
  | uniformBackboneCrossover defaults =>
    let p := keepProbability defaults overrides
    unless 0 ≤ p && p ≤ 1 do throw (.invalidProbability p)
    if 0 < count.getD crowd.length then needsCrowd op.name crowd
  | pointCrossover => needsCrowd op.name crowd
  | pointDelete => return ()
  | pointMutation .. => needsCrowd op.name crowd
  | blendingCrossover _ => return ()

/-- The number of children that a call makes room for in advance. Blends are added one by one. -/
def reserved (op : Operator) (crowd : List Answer) (count : Option Nat) : Nat :=
  match op with
  | randomGuess .. | resampleAndClone => count.getD 1
  | uniformBackboneCrossover _ => count.getD crowd.length
  | resampleValues .. | pointCrossover | pointDelete | pointMutation .. =>
    crowd.length * count.getD 1
  | blendingCrossover _ => 0

/-- The children of a call that keeps the operator's rules. -/
def children (op : Operator) (crowd : List Answer) (count : Option Nat)
    (overrides : BreedingOptions) : Draw (List Child) :=
  let n := count.getD 1
  match op with
  | randomGuess types defaults => guess types (defaults.merge overrides) n
  | resampleAndClone => cloneSome crowd n
  | resampleValues types defaults =>
    Draw.forEach (resample types (defaults.merge overrides)) n crowd
  | uniformBackboneCrossover defaults =>
    let p := keepProbability defaults overrides
    if h : 0 < crowd.length then
      Draw.times (crossNeighbours p crowd h) (count.getD crowd.length)
    else return []
  | pointCrossover =>
    if h : 0 < crowd.length then Draw.times (graft crowd h) (crowd.length * n) else return []
  | pointDelete => Draw.forEach dropPoint n crowd
  | pointMutation types defaults =>
    Draw.forEach (mutatePoint types (defaults.merge overrides)) n crowd
  | blendingCrossover types => blendGroups types n ((byLanguage crowd).entries.map (·.2))

/-- What a call draws, whatever room it takes. -/
def breed (op : Operator) (crowd : List Answer) (count : Option Nat) (overrides : BreedingOptions) :
    Except ArgumentError (Draw (List Child)) := do
  op.check crowd count overrides
  return op.children crowd count overrides

/-- What a call draws where memory can make room for no more than so many children at once. -/
def breedWithin (room : Nat) (op : Operator) (crowd : List Answer) (count : Option Nat)
    (overrides : BreedingOptions) : Except ArgumentError (Draw (List Child)) := do
  let draw ← op.breed crowd count overrides
  return if op.reserved crowd count ≤ room then draw else Draw.fault .tooMany

end Operator

end Evolution
