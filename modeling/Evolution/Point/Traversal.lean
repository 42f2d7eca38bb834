import Evolution.Point.Basic

/-!
Walking through a tree without recursion. The points that are still to be visited wait in a row; the
first of them comes next and puts its contents in front of the others.
-/

namespace Evolution

/-- A walk that is under way. -/
structure Traversal where
  /-- The points that wait, the next one first. -/
  pending : List Point

namespace Traversal

/-- The next point and the walk after it. -/
def next? (t : Traversal) : Option (Point × Traversal) :=
  match t.pending with
  | [] => none
  | p :: rest => some (p, ⟨p.contents ++ rest⟩)

theorem sizes_pending_of_next? {t after : Traversal} {p : Point} (h : t.next? = some (p, after)) :
    Point.sizes t.pending = Point.sizes after.pending + 1 := by
  unfold next? at h
  split at h
  · simp at h
  · next q rest waiting =>
    obtain ⟨rfl, rfl⟩ := Prod.mk.inj (Option.some.inj h)
    rw [waiting, Point.sizes, Point.size_eq_succ_sizes, Point.sizes_append]
    omega

/-- The points that are visited until none waits. -/
def toList (t : Traversal) : List Point :=
  match _ : t.next? with
  | none => []
  | some (p, after) => p :: after.toList
termination_by Point.sizes t.pending
decreasing_by
  next found =>
    have fewer := sizes_pending_of_next? found
    omega

end Traversal

/-- The points of a tree in the order of a walk that starts at the root. -/
def Point.walk (p : Point) : List Point := Traversal.toList ⟨[p]⟩

end Evolution
