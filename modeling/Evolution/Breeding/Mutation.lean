import Evolution.Breeding.Child
import Evolution.Breeding.Options
import Evolution.Generation.Code

/-!
Operators with one parent or none: random programs, clones of random answers, new texts for the
literals of an answer, an answer without one of its points, and an answer with a random tree in the
place of one.
-/

namespace Evolution.Breeding

def needsCrowd (operator : String) (crowd : List Answer) : Except ArgumentError Unit :=
  if crowd.isEmpty then .error (.emptyBatch operator) else .ok ()

def guess (types : Registry) (o : BreedingOptions) (count : Nat) : Draw (List Child) :=
  (Draw.times · count) do
    return ⟨← randomProgram (o.generation {}) types, []⟩

def cloneSome (crowd : List Answer) (count : Nat) : Draw (List Child) :=
  if h : 0 < crowd.length then
    (Draw.times · count) do
      let donor ← Draw.someone crowd h
      return ⟨donor.program, [donor]⟩
  else return []

/-- The size that a random code literal gets: the one that is set, or a random one below half the
points of the parent. -/
def literalSize (o : BreedingOptions) (half : Nat) : Draw Nat :=
  match o.size with
  | some size => return size
  | none => do
    if h : 0 < half then return (← Draw.below 64 half h).val else return 0

/-- A new text for a literal. A literal whose type is not registered keeps its text, though a size
is drawn for it. -/
def resampled (types : Registry) (o : BreedingOptions) (half : Nat) (note : Footnote) :
    Draw String := do
  let size ← literalSize o half
  let text ← types.random note.tag { o.generation {} with size }
  return text.getD note.text

/-- An answer with new texts for all its literals, the unused ones included. -/
def resample (types : Registry) (o : BreedingOptions) (parent : Answer) : Draw Child := do
  return ⟨← parent.program.mapTexts (resampled types o (parent.size / 2)), [parent]⟩

/-- An answer without one of its points. -/
def dropPoint (parent : Answer) : Draw Child := do
  return ⟨parent.deletePoint (← Draw.pointOf parent.program), [parent]⟩

/-- An answer with a random tree in the place of one of its points. -/
def mutatePoint (types : Registry) (o : BreedingOptions) (parent : Answer) : Draw Child := do
  let options := o.generation {}
  let i ← Draw.pointOf parent.program
  let fresh ← randomPoint options types (max options.size 1)
  return ⟨parent.replacePoint i fresh, [parent]⟩

end Evolution.Breeding
