import Evolution.Point.Basic

/-! Induction over trees, and the functions on sequences of points in terms of those on points. -/

namespace Evolution.Point

variable {motive : Point → Prop}

/-- What holds of a block as soon as it holds of its contents, and of every leaf, holds of every
tree. -/
@[elab_as_elim, induction_eliminator]
theorem induct (block : ∀ inner, (∀ p ∈ inner, motive p) → motive (.block inner))
    (instruction : ∀ name, motive (.instruction name))
    (reference : ∀ name, motive (.reference name)) (literal : ∀ note, motive (.literal note))
    (p : Point) : motive p := by
  refine @Point.rec motive (fun ps => ∀ q ∈ ps, motive q) block instruction reference literal
    ?_ ?_ p
  · intro q h
    exact absurd h List.not_mem_nil
  · intro head rest first others q h
    rcases List.mem_cons.mp h with rfl | h
    · exact first
    · exact others q h

/-- Induction from the points directly inside, for functions that treat all leaves alike. -/
@[elab_as_elim]
theorem inductContents (step : ∀ p, (∀ q ∈ p.contents, motive q) → motive p) (p : Point) :
    motive p := by
  induction p with
  | block inner ih => exact step (.block inner) ih
  | instruction name => exact step (.instruction name) (by simp [contents])
  | reference name => exact step (.reference name) (by simp [contents])
  | literal note => exact step (.literal note) (by simp [contents])

theorem preorders_eq_flatMap (ps : List Point) : preorders ps = ps.flatMap preorder := by
  induction ps with
  | nil => rfl
  | cons p rest ih => simp [preorders, ih]

theorem preorder_eq_cons (p : Point) : p.preorder = p :: preorders p.contents := by
  cases p <;> rfl

theorem preorders_append (ps qs : List Point) :
    preorders (ps ++ qs) = preorders ps ++ preorders qs := by
  simp only [preorders_eq_flatMap, List.flatMap_append]

theorem preorders_singleton (p : Point) : preorders [p] = p.preorder := List.append_nil _

theorem sizes_singleton (p : Point) : sizes [p] = p.size := rfl

theorem mem_preorder {p r : Point} : r ∈ p.preorder ↔ r = p ∨ ∃ q ∈ p.contents, r ∈ q.preorder := by
  cases p with
  | block inner => simp [preorder, preorders_eq_flatMap, contents]
  | instruction _ => simp [preorder, contents]
  | reference _ => simp [preorder, contents]
  | literal _ => simp [preorder, contents]

theorem forall_preorder_block {label : Point → Prop} {inner : List Point} :
    (∀ q ∈ (Point.block inner).preorder, label q) ↔
      label (.block inner) ∧ ∀ p ∈ inner, ∀ q ∈ p.preorder, label q := by
  simp only [preorder, preorders_eq_flatMap, List.mem_cons, List.mem_flatMap, forall_eq_or_imp]
  refine and_congr_right fun _ => ⟨?_, ?_⟩
  · intro h p hp q hq
    exact h q ⟨p, hp, hq⟩
  · rintro h q ⟨p, hp, hq⟩
    exact h p hp q hq

/-- The footnotes of a sequence of points, in pre-order. -/
theorem footnotes_block (inner : List Point) :
    (Point.block inner).footnotes = inner.flatMap footnotes := by
  simp only [footnotes, preorder, preorders_eq_flatMap, List.filterMap_cons, List.filterMap_flatMap]
  rfl

@[simp]
theorem footnotes_instruction (name : String) : (Point.instruction name).footnotes = [] := rfl

@[simp]
theorem footnotes_reference (name : String) : (Point.reference name).footnotes = [] := rfl

@[simp]
theorem footnotes_literal (note : Footnote) : (Point.literal note).footnotes = [note] := rfl

end Evolution.Point
