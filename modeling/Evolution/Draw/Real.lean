import Evolution.Draw.Uniform

/-!
Choices by probability. A chance compares a word with the probability in units of `2 ^ -64`. A float
from a range is a fraction of 52 bits stretched over the range, and the factor is brought down float
by float until the largest fraction stays within the bound.
-/

namespace Evolution.Draw

/-- The largest fraction of 52 bits. -/
def greatestFraction : Float := Float.ofBits 0x3FEFFFFFFFFFFFFE

/-- The next float towards zero, of a positive one. -/
def stepDown (x : Float) : Float := Float.ofBits (x.toBits - 1)

/-- True with probability `p`. Certainty takes no word. -/
def chance (p : Float) : Draw Bool := do
  if 0 ≤ p && p < 1 then
    return (← word) < (p * 18446744073709551616).toUInt64
  else if p == 1 then return true
  else fault .badProbability

/-- A float from zero up to one, one excluded, as a multiple of `2 ^ -53`. -/
def unit : Draw Float := do
  return Float.ofNat ((← word) >>> 11).toNat * Float.ofBits 0x3CA0000000000000

/-- A fraction of 52 bits. -/
def fraction : Draw Float := do
  return Float.ofBits (((← word) >>> 12) ||| 0x3FF0000000000000) - 1

/-- The first factor, from `scale` down, that does not reach too far. -/
def settle (tooFar : Float → Bool) : Nat → Float → Option Float
  | 0, _ => none
  | tries + 1, scale => if tooFar scale then settle tooFar tries (stepDown scale) else some scale

/-- A float from `lo` to `hi`, both included. -/
def floatBetween (lo hi : Float) : Draw Float := do
  let width := (hi - lo) / greatestFraction
  if !(lo ≤ hi && width.isFinite) then fault .badRange
  else
    match settle (fun scale => hi < scale * greatestFraction + lo) ((← patience) + 1) width with
    | none => fault .stalled
    | some scale => return (← fraction) * scale + lo

/-- The sums of the weights up to each place, the last one left out, and the sum of all. -/
def partialSums : Float → List Float → List Float × Float
  | total, [] => ([], total)
  | total, w :: rest =>
    let (sums, all) := partialSums (total + w) rest
    (total :: sums, all)

/-- A place of a list of positive weights, each with a probability in proportion to its weight: the
first place whose partial sum exceeds a random part of the total. -/
def weightedPlace (first : Float) (rest : List Float) : Draw Nat := do
  let (sums, total) := partialSums first rest
  if !total.isFinite then fault .badWeight
  else
    match settle (fun scale => total ≤ scale * greatestFraction + 0) ((← patience) + 1) total with
    | none => fault .stalled
    | some scale =>
      let x := (← fraction) * scale + 0
      return sums.findIdx (x < ·)

/-- A member of a list of weighted items; the empty list has none and takes no word. -/
def weighted {α : Type} : List (α × Float) → Draw (Option α)
  | [] => return none
  | (item, w) :: rest => do
    let i ← weightedPlace w (rest.map (·.2))
    return (((item, w) :: rest)[i]?).map (·.1)

end Evolution.Draw
