import Evolution.Breeding.Child
import Evolution.Program.Blend
import Evolution.Table

/-!
Operators with two parents: a choice of slots from two backbones, a graft of a point of one answer
into another, and a blend of two answers of one language.
-/

namespace Evolution.Breeding

/-- Fills each slot of the first backbone: with probability `p` it is kept, otherwise it is taken
from the second backbone, and left out where the second is too short. -/
def crossSlots (p : Float) : List Point → List Point → Draw (List Point)
  | [], _ => return []
  | slot :: rest, others => do
    let keep := (← Draw.unit) < p
    let tail ← crossSlots p rest others.tail
    if keep then return slot :: tail
    else return others.head?.toList ++ tail

/-- A block of slots from two backbones, with the unused footnotes of the first program. -/
def crossBackbones (p : Float) (mom dad : Program) : Draw Program := do
  return ⟨.block (← crossSlots p mom.backbone dad.backbone), mom.unused⟩

/-- A child of a random answer and the one after it; the first comes after the last. -/
def crossNeighbours (p : Float) (crowd : List Answer) (h : 0 < crowd.length) : Draw Child := do
  let i ← Draw.below 64 crowd.length h
  let mom := crowd.get i
  let dad := crowd.get ⟨(i.val + 1) % crowd.length, Nat.mod_lt _ h⟩
  return ⟨← crossBackbones p mom.program dad.program, [mom, dad]⟩

/-- A child of two random answers: the first with a point of the second in the place of one of its
own. -/
def graft (crowd : List Answer) (h : 0 < crowd.length) : Draw Child := do
  let mom ← Draw.someone crowd h
  let dad ← Draw.someone crowd h
  let receives ← Draw.pointOf mom.program
  let donates ← Draw.pointOf dad.program
  let program :=
    match dad.program.point donates with
    | .ok q => mom.replacePoint receives q
    | .error _ => mom.program
  return ⟨program, [mom, dad]⟩

/-- The answers of each language, the languages in the order in which they first occur. -/
def byLanguage (crowd : List Answer) : Table (List Answer) :=
  crowd.foldl
    (fun groups a => groups.insert a.language ((groups.get? a.language).getD [] ++ [a])) .empty

/-- Neighbours in pairs; what is left over of an odd number is paired with itself. -/
def inPairs {α : Type} : List α → List (α × α)
  | [] => []
  | [a] => [(a, a)]
  | a :: b :: rest => (a, b) :: inPairs rest

/-- The number of pairs that groups make, each on its own. -/
def pairCount {α : Type} : List (List α) → Nat
  | [] => 0
  | group :: rest => (group.length + 1) / 2 + pairCount rest

def blendPair (types : Registry) (pair : Answer × Answer) : Draw Child := do
  return ⟨← Program.blend types pair.1.program pair.2.program, [pair.1, pair.2]⟩

/-- Blends of the answers of each group, paired at random. -/
def blendGroups (types : Registry) (count : Nat) : List (List Answer) → Draw (List Child)
  | [] => return []
  | group :: rest => do
    let pairs := inPairs (← Draw.shuffle group)
    let made ← Draw.forEach (blendPair types) count pairs
    return made ++ (← blendGroups types count rest)

end Evolution.Breeding
