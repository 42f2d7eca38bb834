import Evolution.Proofs.Point.Replacement
import Evolution.Proofs.Program.Edit

/-! Replacing a point by a text. A text that a tree is written as, alone or as a program, stands for that
tree, and what a program has left over in footnotes comes along, so the way through text makes the same
program as the direct one. -/

namespace Evolution

/-- A tree is written like the program that it is the root of. -/
theorem Point.blueprint_eq (p : Point) : p.blueprint = (Program.ofPoint p).blueprint := by
  have notes : (Program.ofPoint p).footnotes = p.footnotes := List.append_nil _
  rw [blueprint, Program.blueprint, Program.written, Program.notes, notes]
  cases p.footnotes with
  | nil => simp [Text.joinLines, Program.code, Program.ofPoint]
  | cons note rest => rfl

namespace Program

/-- The program `c` is the program `p` with the root of `q` for its point `u` with the number `i`, and
with the unused footnotes of both. -/
structure Grafting (p : Program) (i : Nat) (u : Point) (q c : Program) : Prop where
  root : p.replacePoint i q.root = .ok { p with root := c.root }
  unused : c.unused = p.unused ++ q.unused
  /-- The footnotes of `q` that literals claim take the place of those of the replaced point. -/
  footnotes : p.footnotes =
      p.root.notesBefore i ++ (u.footnotes ++ p.root.notesFrom (i + u.size)) ++ p.unused ∧
    c.footnotes =
      p.root.notesBefore i ++ (q.root.footnotes ++ p.root.notesFrom (i + u.size)) ++
        (p.unused ++ q.unused)
  /-- No footnote is lost or made but those of the replaced point and of `q`. -/
  count : ∀ note, c.footnotes.count note + u.footnotes.count note =
    p.footnotes.count note + q.footnotes.count note

theorem replaceWithText_blueprint {p q : Program} (h : q.WellFormed) (i : Nat) :
    p.replaceWithText i q.blueprint = (p.replacePoint i q.root).map (·.appendUnused q.unused) := by
  rw [replaceWithText, parse_blueprint h]

/-- A point replaced by its own text. -/
theorem replaceWithText_own {p : Program} {i : Nat} {u : Point} (h : p.WellFormed)
    (point : p.point i = .ok u) : p.replaceWithText i u.blueprint = .ok p := by
  have alone : (ofPoint u).WellFormed := .ofPoint (h.point point)
  have same : p.root.replace? i u = some p.root :=
    (Point.refilled_of_get? (point_eq_ok_iff.mp point)).replace?
  have nothing : p.appendUnused [] = p := by simp [appendUnused]
  calc
    p.replaceWithText i u.blueprint = (p.replacePoint i u).map (·.appendUnused []) := by
      rw [Point.blueprint_eq, replaceWithText_blueprint alone]
      rfl
    _ = .ok (p.appendUnused []) := by
      rw [replacePoint, same]
      rfl
    _ = .ok p := congrArg Except.ok nothing

theorem grafting_of_refilled {p q : Program} {i : Nat} {u root : Point}
    (h : p.root.Refilled i u [q.root] root) :
    p.Grafting i u q ⟨root, p.unused ++ q.unused⟩ := by
  have single : [q.root].flatMap Point.footnotes = q.root.footnotes := List.append_nil _
  obtain ⟨before, after⟩ := h.footnotes
  rw [single] at after
  have made : p.replacePoint i q.root = .ok { p with root } := by rw [replacePoint, h.replace?]
  refine ⟨made, rfl, ⟨?_, ?_⟩, fun note => ?_⟩
  · rw [Program.footnotes, before]
  · rw [Program.footnotes, after]
  · simp only [Program.footnotes, before, after, List.count_append]
    omega

/-- For programs that can be read, the text of a point leaves everything as it is in the place of that
point, and the text of a program does what its root does. -/
theorem grafting_of_replaceWithText (p q : Program) (i : Nat) (hp : p.WellFormed)
    (hq : q.WellFormed) (pos : 1 ≤ i) (within : i ≤ p.size) :
    ∃ u c, p.point i = .ok u ∧ p.replaceWithText i u.blueprint = .ok p ∧
      p.replaceWithText i q.blueprint = .ok c ∧ p.Grafting i u q c := by
  obtain ⟨u, point⟩ := exists_point pos within
  obtain ⟨root, -, refilled⟩ := Point.exists_replace? (point_eq_ok_iff.mp point) q.root
  have grafting := grafting_of_refilled refilled
  refine ⟨u, _, point, replaceWithText_own hp point, ?_, grafting⟩
  rw [replaceWithText_blueprint hq, grafting.root]
  rfl

/-- Literals of one type before, in, and behind the place, in the text, and unused in both programs. -/
theorem grafting_of_replaceWithText_one_type :
    let note : String → Footnote := fun text => ⟨"int", text⟩
    let u := Point.block [.literal (note "2"), .instruction "a"]
    let p : Program := ⟨.block [.literal (note "1"), u, .literal (note "3")], [note "4"]⟩
    let q : Program := ⟨.block [.literal (note "5"), .literal (note "6")], [note "7"]⟩
    let c : Program := ⟨.block [.literal (note "1"), q.root, .literal (note "3")], [note "4", note "7"]⟩
    p.WellFormed ∧ q.WellFormed ∧ 1 ≤ 3 ∧ 3 ≤ p.size ∧
      p.replaceWithText 3 u.blueprint = .ok p ∧ p.replaceWithText 3 q.blueprint = .ok c ∧
      p.Grafting 3 u q c := by
  intro note u p q c
  have hp : p.WellFormed := by decide +kernel
  have hq : q.WellFormed := by decide +kernel
  have text : p.replaceWithText 3 q.blueprint = .ok c := by decide +kernel
  obtain ⟨u', c', point, own, text', grafting⟩ :=
    grafting_of_replaceWithText p q 3 hp hq (by decide) (by decide)
  obtain rfl : u = u' := Except.ok.inj point
  obtain rfl : c = c' := Except.ok.inj (text.symm.trans text')
  exact ⟨hp, hq, by decide, by decide, own, text, grafting⟩

end Program

end Evolution
