import Evolution.Proofs.Point.Replacement
import Evolution.Proofs.Program.Edit

/-! Deleting a point. It is refused at the numbers that no point has. Otherwise the point goes with all
that is inside it, the points behind it move up, and of the footnotes only those of its literals go. -/

namespace Evolution.Program

variable {p q : Program} {i : Nat}

theorem deletePoint_eq_error_iff {e : EditError} :
    p.deletePoint i = .error e ↔ ¬(1 ≤ i ∧ i ≤ p.size) ∧ e = .outOfRange i p.size := by
  by_cases range : 1 ≤ i ∧ i ≤ p.size
  · obtain ⟨edited, done⟩ := exists_deletePoint range.1 range.2
    simp [done, range]
  · have root : i ≠ 1 := by
      have filled := p.root.size_pos
      rintro rfl
      exact range ⟨Nat.le_refl _, filled⟩
    have gone : p.root.delete? i = none := by
      rw [← Option.not_isSome_iff_eq_none, Point.isSome_delete?_iff]
      exact fun inside => range ⟨Nat.le_of_lt inside.1, inside.2⟩
    rw [deletePoint, if_neg root, gone]
    simp [range, missing, eq_comm]

theorem inside_of_deletePoint (deleted : p.deletePoint i = .ok q) : 1 ≤ i ∧ i ≤ p.size := by
  by_contra outside
  have refused := deletePoint_eq_error_iff.mpr ⟨outside, rfl⟩
  cases deleted.symm.trans refused

/-- The program `q` is the program `p` without its point `u` with the number `i`; nothing else has
changed. -/
structure Deletion (p : Program) (i : Nat) (u : Point) (q : Program) : Prop where
  size : u.size < p.size ∧ q.size = p.size - u.size
  behind : ∀ j v, i ≤ j → (q.point j = .ok v ↔ p.point (j + u.size) = .ok v)
  before : ∀ j v, j < i → ¬p.root.Encloses j i → (q.point j = .ok v ↔ p.point j = .ok v)
  /-- From a point around the place the same point is deleted. -/
  around : ∀ j v, p.root.Encloses j i → p.point j = .ok v →
    ∃ w, v.delete? (i - j + 1) = some w ∧ q.point j = .ok w
  /-- The footnotes of the deleted literals stood together. -/
  footnotes : p.root.footnotes =
      p.root.notesBefore i ++ (u.footnotes ++ p.root.notesFrom (i + u.size)) ∧
    q.root.footnotes = p.root.notesBefore i ++ p.root.notesFrom (i + u.size)
  unused : q.unused = p.unused

theorem exists_refilled_of_deletePoint {u : Point} (inner : 1 < i) (found : p.point i = .ok u) :
    ∃ q, p.deletePoint i = .ok q ∧ p.root.Refilled i u [] q.root ∧ q.unused = p.unused := by
  obtain ⟨root, gone, refilled⟩ := Point.exists_delete? (point_eq_ok_iff.mp found) inner
  refine ⟨{ p with root }, ?_, refilled, rfl⟩
  rw [deletePoint, if_neg (by omega), gone]

theorem deletion_of_refilled {u : Point} (refilled : p.root.Refilled i u [] q.root)
    (unused : q.unused = p.unused) : p.Deletion i u q := by
  refine ⟨?_, fun j v above => ?_, fun j v below clear => ?_, fun j v around here => ?_,
    refilled.footnotes, unused⟩
  · have sizes : q.root.size + u.size = p.root.size := refilled.size_eq
    have filled := q.root.size_pos
    unfold Program.size
    omega
  · obtain ⟨k, rfl⟩ := Nat.exists_eq_add_of_le above
    have number : i + k + u.size = i + u.size + k := by omega
    have moved : q.root.get? (i + k) = p.root.get? (i + u.size + k) := refilled.get?_behind k
    rw [point_eq_ok_iff, point_eq_ok_iff, number, moved]
  · rw [point_eq_ok_iff, point_eq_ok_iff, refilled.get?_of_not_encloses below clear]
  · obtain ⟨w, changed, smaller⟩ := refilled.exists_of_encloses around (point_eq_ok_iff.mp here)
    exact ⟨w, smaller.delete?, point_eq_ok_iff.mpr changed⟩

/-- Deleting is refused at the numbers without a point, leaves an empty block of the root, and takes one
subtree out of the program elsewhere. -/
theorem deletion_of_deletePoint (p : Program) (i : Nat) :
    (∀ e, p.deletePoint i = .error e ↔ ¬(1 ≤ i ∧ i ≤ p.size) ∧ e = .outOfRange i p.size) ∧
      p.deletePoint 1 = .ok ⟨.block [], p.unused⟩ ∧
      (2 ≤ i → i ≤ p.size → ∃ u q, p.point i = .ok u ∧ p.deletePoint i = .ok q ∧
        p.Deletion i u q) := by
  refine ⟨fun e => deletePoint_eq_error_iff, rfl, fun inner within => ?_⟩
  obtain ⟨u, found⟩ := exists_point (Nat.lt_of_succ_lt inner) within
  obtain ⟨q, deleted, refilled, unused⟩ := exists_refilled_of_deletePoint inner found
  exact ⟨u, q, found, deleted, deletion_of_refilled refilled unused⟩

/-- The block that goes has a literal in it, between two others of the same type; the block around it
and the points behind both stay. -/
theorem deletion_of_deletePoint_inner_block :
    let gone := Point.block [.literal ⟨"int", "2"⟩, .instruction "a"]
    let p : Program :=
      ⟨.block [.literal ⟨"int", "1"⟩, .block [gone, .literal ⟨"int", "3"⟩]], [⟨"int", "4"⟩]⟩
    let q : Program :=
      ⟨.block [.literal ⟨"int", "1"⟩, .block [.literal ⟨"int", "3"⟩]], [⟨"int", "4"⟩]⟩
    p.point 4 = .ok gone ∧ p.deletePoint 4 = .ok q ∧ p.Deletion 4 gone q ∧
      p.root.notesBefore 4 = [⟨"int", "1"⟩] ∧ p.root.notesFrom 7 = [⟨"int", "3"⟩] := by
  intro gone p q
  have found : p.point 4 = .ok gone := rfl
  have deleted : p.deletePoint 4 = .ok q := rfl
  obtain ⟨-, -, law⟩ := deletion_of_deletePoint p 4
  obtain ⟨u', q', found', deleted', deletion⟩ := law (by decide) (by decide)
  obtain rfl : gone = u' := Except.ok.inj (found.symm.trans found')
  obtain rfl : q = q' := Except.ok.inj (deleted.symm.trans deleted')
  exact ⟨found, deleted, deletion, rfl, rfl⟩

end Evolution.Program
