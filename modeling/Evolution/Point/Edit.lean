import Evolution.Point.Basic

/-!
Looking up, replacing and removing the point with a given pre-order number. Inside a block the
number is counted on from the first point after the block itself: a child of `n` points takes the
next `n` numbers.
-/

namespace Evolution.Point

mutual

/-- The point numbered `i`, counted from one. -/
def get? : Point → Nat → Option Point
  | p, 1 => some p
  | .block inner, i + 2 => getIn? inner (i + 1)
  | _, _ => none

def getIn? : List Point → Nat → Option Point
  | [], _ => none
  | p :: rest, i => if i ≤ p.size then p.get? i else getIn? rest (i - p.size)

end

mutual

/-- The tree with another one in the place of point `i`. -/
def replace? : Point → Nat → Point → Option Point
  | _, 1, q => some q
  | .block inner, i + 2, q => (replaceIn? inner (i + 1) q).map .block
  | _, _, _ => none

def replaceIn? : List Point → Nat → Point → Option (List Point)
  | [], _, _ => none
  | p :: rest, i, q =>
    if i ≤ p.size then (p.replace? i q).map (· :: rest)
    else (replaceIn? rest (i - p.size) q).map (p :: ·)

end

mutual

/-- The tree without point `i` and all inside it. The root cannot be taken out of itself. -/
def delete? : Point → Nat → Option Point
  | .block inner, i + 2 => (deleteIn? inner (i + 1)).map .block
  | _, _ => none

def deleteIn? : List Point → Nat → Option (List Point)
  | [], _ => none
  | p :: rest, i =>
    if i = 1 then some rest
    else if i ≤ p.size then (p.delete? i).map (· :: rest)
    else (deleteIn? rest (i - p.size)).map (p :: ·)

end

mutual

/-- The tree with every literal's text rewritten by an effectful function, in pre-order. -/
def mapTexts {m : Type → Type} [Monad m] (f : Footnote → m String) : Point → m Point
  | .block inner => return .block (← mapTextsIn f inner)
  | .instruction name => return .instruction name
  | .reference name => return .reference name
  | .literal note => return .literal { note with text := ← f note }

def mapTextsIn {m : Type → Type} [Monad m] (f : Footnote → m String) : List Point → m (List Point)
  | [] => return []
  | p :: rest => return (← mapTexts f p) :: (← mapTextsIn f rest)

end

end Evolution.Point
