import Evolution.Proofs.Breeding.Descent
import Evolution.Proofs.Generation.Trees
import Evolution.Proofs.Program.Deletion

/-! The edits of the point operators. The numbers that they draw are numbers of points, so every edit can
be made, and the copy of the parent that stands in for an impossible edit is never a child. -/

namespace Evolution

namespace Program

variable {p q : Program} {i : Nat} {u r : Point}

theorem exists_refilled_of_replacePoint (replaced : p.replacePoint i r = .ok q) :
    ∃ u, p.point i = .ok u ∧ p.root.Refilled i u [r] q.root ∧ q.unused = p.unused := by
  unfold replacePoint at replaced
  split at replaced
  · next root made =>
    obtain rfl := Except.ok.inj replaced
    have there : (p.root.get? i).isSome = true := by
      rw [← Point.isSome_replace? r, made]
      rfl
    obtain ⟨u, found⟩ := Option.isSome_iff_exists.mp there
    obtain ⟨root', made', refilled⟩ := Point.exists_replace? found r
    obtain rfl := Option.some.inj (made.symm.trans made')
    exact ⟨u, point_eq_ok_iff.mpr found, refilled, rfl⟩
  · cases replaced

/-- The child is the first program with a point of the second, the graft, for its own point `u`. -/
structure Transplant (mom dad : Program) (u graft : Point) (child : Program) : Prop where
  size : u.size ≤ mom.size ∧ child.size = mom.size - u.size + graft.size
  /-- A literal of the tree is a literal of one of the two trees, with its text. -/
  literals : ∀ note ∈ child.root.footnotes, note ∈ mom.root.footnotes ∨ note ∈ dad.root.footnotes
  unused : child.unused = mom.unused

theorem footnotes_subset_of_point (found : p.point i = .ok u) : u.footnotes ⊆ p.root.footnotes := by
  intro note member
  have within := (Point.refilled_of_get? (point_eq_ok_iff.mp found)).footnotes.1
  rw [within, List.mem_append, List.mem_append]
  exact .inr (.inl member)

theorem transplant_of_refilled {dad : Program} {d : Nat} (taken : dad.point d = .ok r)
    (refilled : p.root.Refilled i u [r] q.root) (unused : q.unused = p.unused) :
    p.Transplant dad u r q := by
  refine ⟨refilled.replacement.size, fun note member => ?_, unused⟩
  obtain ⟨before, after⟩ := refilled.footnotes
  rw [List.flatMap_singleton] at after
  rw [after, List.mem_append, List.mem_append] at member
  rw [before, List.mem_append, List.mem_append]
  rcases member with front | new | behind
  · exact .inl (.inl front)
  · exact .inr (footnotes_subset_of_point taken new)
  · exact .inl (.inr (.inr behind))

end Program

namespace Operator

/-- The operators that change a program at one of its points. -/
def editsPoint : Operator → Bool
  | pointDelete | pointMutation .. | pointCrossover => true
  | _ => false

/-- The operator makes the program of the parents by the one edit that it stands for, at the number of a
point. -/
inductive OneEdit (overrides : BreedingOptions) : Operator → List Answer → Program → Prop
  | delete {parent : Answer} {program : Program} {i : Nat} (inside : 1 ≤ i ∧ i ≤ parent.size)
    (edited : parent.program.deletePoint i = .ok program) :
    OneEdit overrides .pointDelete [parent] program
  /-- The new tree has the size that the settings of the call ask for. -/
  | mutate {types : Registry} {defaults : BreedingOptions} {parent : Answer} {fresh : Point}
    {program : Program} {i : Nat} (inside : 1 ≤ i ∧ i ≤ parent.size)
    (size : fresh.size = max 1 ((defaults.merge overrides).generation {}).size)
    (edited : parent.program.replacePoint i fresh = .ok program) :
    OneEdit overrides (.pointMutation types defaults) [parent] program
  | graft {mom dad : Answer} {u graft : Point} {program : Program} {i d : Nat}
    (receives : 1 ≤ i ∧ i ≤ mom.size) (donates : 1 ≤ d ∧ d ≤ dad.size)
    (place : mom.program.point i = .ok u) (taken : dad.program.point d = .ok graft)
    (edited : mom.program.replacePoint i graft = .ok program)
    (transplant : mom.program.Transplant dad.program u graft program) :
    OneEdit overrides .pointCrossover [mom, dad] program

variable {op : Operator} {crowd : List Answer} {count : Option Nat} {overrides : BreedingOptions}

theorem Makes.oneEdit {k : Nat} {parents : List Answer} {program : Program}
    (h : op.Makes crowd count overrides k parents program) (edits : op.editsPoint = true) :
    op.OneEdit overrides parents program := by
  cases h with
  | without _ _ deleted => exact .delete (Program.inside_of_deletePoint deleted) deleted
  | mutant _ _ drawn replaced =>
    obtain ⟨u, place, -, -⟩ := Program.exists_refilled_of_replacePoint replaced
    have size := ((yields_grown_randomPoint _).of_gives drawn).1
    exact .mutate (Program.inside_of_point place) (by omega) replaced
  | grafted _ _ taken replaced =>
    obtain ⟨u, place, refilled, unused⟩ := Program.exists_refilled_of_replacePoint replaced
    exact .graft (Program.inside_of_point place) (Program.inside_of_point taken) place taken replaced
      (Program.transplant_of_refilled taken refilled unused)
  | guess | clone | values | crossed | blended => cases edits

/-- Parents out of the crowd, and the one edit that makes a program of them. -/
structure Descends (op : Operator) (crowd : List Answer) (overrides : BreedingOptions)
    (parents : List Answer) (program : Program) : Prop where
  listed : ∀ a ∈ parents, a ∈ crowd
  edit : op.OneEdit overrides parents program

/-- Every child of a point operator, and every answer that a child becomes, is one edit away from the
answers that it names as its parents. -/
theorem oneEdit_of_breed {draw : Draw (List Child)} (edits : op.editsPoint = true)
    (accepted : op.breed crowd count overrides = .ok draw) : draw.Yields fun children =>
      (∀ c ∈ children, op.Descends crowd overrides c.parents c.program) ∧
      ∀ supply created later, Child.answers? supply children = some (created, later) →
        ∀ a ∈ created, ∃ parents : List Answer, a.ancestors = parents.map (·.id) ∧
          op.Descends crowd overrides parents a.program := by
  refine yields_of_breed accepted ((yields_allMade op crowd count overrides).mono ?_)
  intro children made
  have each : ∀ c ∈ children, op.Descends crowd overrides c.parents c.program := by
    intro c member
    obtain ⟨k, there⟩ := List.mem_iff_getElem?.mp member
    exact ⟨(made k c there).parents, (made k c there).oneEdit edits⟩
  refine ⟨each, fun supply created later named a member => ?_⟩
  obtain ⟨k, there⟩ := List.mem_iff_getElem?.mp member
  obtain ⟨c, child, becomes⟩ := exists_getElem?_of_forall₂ (Child.becomes_of_answers? named) there
  have descends := each c (List.mem_of_getElem? child)
  rw [← becomes.program] at descends
  exact ⟨c.parents, becomes.ancestors, descends⟩

/-- A literal takes the place of a block with another; the second child is grafted with its own point. -/
theorem oneEdit_of_breed_crossover :
    let mom := Answer.new ⟨1⟩ .epoch
      ⟨.block [.instruction "a", .block [.literal ⟨"int", "1"⟩]], [⟨"int", "7"⟩]⟩
    let dad := Answer.new ⟨2⟩ .epoch ⟨.block [.literal ⟨"int", "2"⟩, .instruction "b"], []⟩
    let child : Program := ⟨.block [.instruction "a", .literal ⟨"int", "2"⟩], [⟨"int", "7"⟩]⟩
    let words : Words := ⟨fun k => if k = 1 then 0x80000000 else 0x8000000000000000, 0⟩
    pointCrossover.editsPoint = true ∧
      ∃ draw, pointCrossover.breed [mom, dad] none {} = .ok draw ∧
        draw.runFrom words 0 = .ok ([⟨child, [mom, dad]⟩, ⟨mom.program, [mom, mom]⟩], 8) ∧
        mom.program.replacePoint 3 (.literal ⟨"int", "2"⟩) = .ok child ∧
        pointCrossover.Descends [mom, dad] {} [mom, dad] child := by
  intro mom dad child words
  have accepted : pointCrossover.breed [mom, dad] none {} =
      .ok (pointCrossover.children [mom, dad] none {}) := rfl
  have drawn : (pointCrossover.children [mom, dad] none {}).runFrom words 0 =
      .ok ([⟨child, [mom, dad]⟩, ⟨mom.program, [mom, mom]⟩], 8) := by decide +kernel
  obtain ⟨each, -⟩ := oneEdit_of_breed rfl accepted words 0 _ _ drawn
  exact ⟨rfl, _, accepted, drawn, rfl, each ⟨child, [mom, dad]⟩ List.mem_cons_self⟩

end Operator

end Evolution
