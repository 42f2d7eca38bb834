import Evolution.Draw.Real
import Evolution.Literal.Registry

/-!
Blending two programs place by place. Two blocks blend their points in pairs: points of the first
beyond the length of the second stay, points of the second beyond the length of the first are left
out. Two literals of one type blend their texts. Of any other two points one is picked with equal
chances.
-/

namespace Evolution

namespace Point

/-- One of two points, with equal chances. -/
def pick (p q : Point) : Draw Point := do
  return if ← Draw.chance (Float.ofScientific 5 true 1) then p else q

mutual

/-- A blend of two trees. -/
def blend (types : Registry) : Point → Point → Draw Point
  | .block ps, .block qs => return .block (← blendIn types ps qs)
  | .literal a, .literal b =>
    if a.tag = b.tag then
      return .literal ⟨a.tag, ← types.blend a.tag a.text b.text⟩
    else pick (.literal a) (.literal b)
  | p, q => pick p q

/-- A blend of two sequences, as long as the first. -/
def blendIn (types : Registry) : List Point → List Point → Draw (List Point)
  | [], _ => return []
  | ps, [] => return ps
  | p :: ps, q :: qs => return (← blend types p q) :: (← blendIn types ps qs)

end

end Point

/-- A blend of two programs, with the unused footnotes of the first. -/
def Program.blend (types : Registry) (p q : Program) : Draw Program := do
  return { p with root := ← p.root.blend types q.root }

end Evolution
