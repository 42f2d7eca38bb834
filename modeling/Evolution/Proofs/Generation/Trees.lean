import Evolution.Generation.Code
import Evolution.Proofs.Binary.Magnitude
import Evolution.Proofs.Draw.Faults
import Evolution.Proofs.Point.Tree
import Evolution.Proofs.Table

/-! The trees that random code comes to: their size, the leaves they are made of, and the choices on
which the making depends. -/

namespace Evolution

variable {types : Registry} {o : GenerationOptions}

theorem Point.contents_eq_nil_iff {p : Point} : p.contents = [] ↔ p.size = 1 := by
  have size := p.size_eq_succ_sizes
  cases inner : p.contents with
  | nil => simpa [inner, sizes] using size
  | cons q rest =>
    have filled := q.size_pos
    rw [inner, sizes] at size
    simp only [reduceCtorEq, false_iff]
    omega

namespace GenerationOptions

/-- There is something to draw a leaf of the kind from, and its weight is positive. -/
def Drawable (o : GenerationOptions) (types : Registry) : LeafKind → Prop
  | .emptyBlock => 0 < o.proportions.block
  | .instruction => 0 < o.proportions.instruction ∧ o.instructions ≠ []
  | .reference => 0 < o.proportions.reference ∧ o.references ≠ []
  | .literal => 0 < o.proportions.literal ∧ ∃ tag ∈ o.types, types.contains tag = true

theorem mem_usableTypes {tag : String} :
    tag ∈ o.usableTypes types ↔ tag ∈ o.types ∧ types.contains tag = true :=
  List.mem_filter

theorem usableTypes_ne_nil_iff :
    o.usableTypes types ≠ [] ↔ ∃ tag ∈ o.types, types.contains tag = true := by
  simp only [ne_eq, List.eq_nil_iff_forall_not_mem, not_forall, not_not, mem_usableTypes]

/-- The kinds that are put up for the draw are those that can be drawn. -/
theorem exists_mem_leafKinds_iff {kind : LeafKind} :
    (∃ w, (kind, w) ∈ o.leafKinds types) ↔ o.Drawable types kind := by
  cases kind <;> simp [leafKinds, Drawable, ← usableTypes_ne_nil_iff, and_comm]

theorem leafKinds_eq_nil_iff : o.leafKinds types = [] ↔ ∀ kind, ¬o.Drawable types kind := by
  simp only [← exists_mem_leafKinds_iff, List.eq_nil_iff_forall_not_mem, Prod.forall, not_exists]

/-- A leaf of random code: of a kind that can be drawn, with a name or a type from the options. Where no
kind can be drawn it is an empty block. -/
inductive Leaf (o : GenerationOptions) (types : Registry) : Point → Prop
  | emptyBlock (drawable : o.Drawable types .emptyBlock) : Leaf o types .emptyBlock
  | spare (none : ∀ kind, ¬o.Drawable types kind) : Leaf o types .emptyBlock
  | instruction {name : String} (drawable : o.Drawable types .instruction)
    (listed : name ∈ o.instructions) : Leaf o types (.instruction name)
  | reference {name : String} (drawable : o.Drawable types .reference)
    (listed : name ∈ o.references) : Leaf o types (.reference name)
  | literal {note : Footnote} (drawable : o.Drawable types .literal) (listed : note.tag ∈ o.types)
    (registered : types.contains note.tag = true) : Leaf o types (.literal note)

theorem Leaf.contents {p : Point} (h : o.Leaf types p) : p.contents = [] := by
  cases h <;> rfl

end GenerationOptions

theorem Registry.isSome_random {tag : String} (registered : types.contains tag = true) :
    (types.random tag o).Yields (·.isSome = true) := by
  obtain ⟨type, found⟩ := Table.exists_get?_of_contains registered
  rw [random, found]
  exact .afterAny fun _ => .pure rfl

/-- A kind that is drawn has something to draw from, so it does not fall back on an empty block. -/
theorem yields_leaf_randomLeaf : (randomLeaf o types).Yields (o.Leaf types) := by
  refine (Draw.yields_weighted _).bind ?_
  rintro found ⟨nothing, drawn⟩
  cases found with
  | none =>
    exact .pure (.spare (GenerationOptions.leafKinds_eq_nil_iff.mp (nothing rfl)))
  | some kind =>
    have drawable : o.Drawable types kind :=
      GenerationOptions.exists_mem_leafKinds_iff.mp (drawn kind rfl)
    cases kind with
    | emptyBlock => exact .pure (.emptyBlock drawable)
    | instruction =>
      refine (Draw.yields_member_some drawable.2).bind ?_
      rintro _ ⟨name, listed, rfl⟩
      exact .pure (.instruction drawable listed)
    | reference =>
      refine (Draw.yields_member_some drawable.2).bind ?_
      rintro _ ⟨name, listed, rfl⟩
      exact .pure (.reference drawable listed)
    | literal =>
      have filled := GenerationOptions.usableTypes_ne_nil_iff.mpr drawable.2
      refine (Draw.yields_member_some filled).bind ?_
      rintro _ ⟨tag, usable, rfl⟩
      obtain ⟨listed, registered⟩ := GenerationOptions.mem_usableTypes.mp usable
      refine (Registry.isSome_random registered).bind ?_
      intro text some
      obtain ⟨text, rfl⟩ := Option.isSome_iff_exists.mp some
      exact .pure (.literal drawable listed registered)

/-- Every point is a block with contents or a random leaf. -/
def Grown (o : GenerationOptions) (types : Registry) (p : Point) : Prop :=
  ∀ q ∈ p.preorder, q.contents ≠ [] ∨ (randomLeaf o types).Gives q

theorem Grown.leaf {p : Point} (h : Grown o types p) :
    ∀ q ∈ p.preorder, q.contents = [] → (randomLeaf o types).Gives q :=
  fun q member bare => (h q member).resolve_left (not_not.mpr bare)

mutual

/-- The budget of a tree is spent exactly, and on nothing but blocks and leaves. -/
theorem yields_grown_randomPoint (size : Nat) : (randomPoint o types size).Yields fun p =>
    p.size = max 1 size ∧ Grown o types p := by
  rw [randomPoint]
  split
  · next small =>
    refine (yields_leaf_randomLeaf.and (Draw.yields_gives _)).mono fun p made => ?_
    have bare := made.1.contents
    have alone : p.preorder = [p] := by
      rw [Point.preorder_eq_cons, bare]
      rfl
    refine ⟨?_, ?_⟩
    · rw [Point.contents_eq_nil_iff.mp bare]
      omega
    · rw [Grown, alone]
      exact List.forall_mem_singleton.mpr (.inr made.2)
  · next large =>
    refine (yields_grown_randomContents (size - 1)).bind ?_
    rintro inner ⟨sum, grown⟩
    apply Draw.Yields.pure
    have filled : inner ≠ [] := by
      rintro rfl
      rw [Point.sizes] at sum
      omega
    refine ⟨?_, Point.forall_preorder_block.mpr ⟨.inl filled, grown⟩⟩
    rw [Point.size, sum]
    omega
termination_by 2 * size
decreasing_by omega

theorem yields_grown_randomContents (left : Nat) : (randomContents o types left).Yields fun ps =>
    Point.sizes ps = left ∧ ∀ p ∈ ps, Grown o types p := by
  rw [randomContents]
  split
  · apply Draw.Yields.afterAny
    intro size
    obtain ⟨n, pos, within⟩ := size
    refine (yields_grown_randomPoint n).bind ?_
    rintro p ⟨size, first⟩
    refine (yields_grown_randomContents (left - n)).bind ?_
    rintro rest ⟨sum, others⟩
    apply Draw.Yields.pure
    refine ⟨?_, List.forall_mem_cons.mpr ⟨first, others⟩⟩
    rw [Point.sizes, size, sum]
    omega
  · next none =>
    obtain rfl : left = 0 := by omega
    exact .pure ⟨rfl, by simp⟩
termination_by 2 * left + 1
decreasing_by all_goals omega

end

section flat

variable (none : ¬0 < o.proportions.block)

include none

theorem blockShare_eq_zero : o.proportions.blockShare = 0 := by
  have block : Proportions.positive o.proportions.block = 0 := if_neg none
  unfold Proportions.blockShare
  simp only [block]
  split
  · next some => exact Binary.zero_div_of_pos some
  · rfl

theorem yields_nextSize_one {left : Nat} (pos : 0 < left) :
    (nextSize o left pos).Yields (·.val = 1) := by
  rw [nextSize, blockShare_eq_zero none]
  split
  · refine Draw.yields_chance_zero.bind ?_
    rintro _ rfl
    exact .pure rfl
  · exact .pure rfl

/-- Without a chance for nested blocks a block has leaves only. -/
theorem yields_flat_randomContents (left : Nat) : (randomContents o types left).Yields fun ps =>
    ∀ p ∈ ps, p.contents = [] := by
  rw [randomContents]
  split
  · next pos =>
    refine (yields_nextSize_one none pos).bind ?_
    rintro ⟨n, _, _⟩ one
    obtain rfl : n = 1 := one
    refine (yields_grown_randomPoint 1).bind ?_
    rintro p ⟨size, -⟩
    refine (yields_flat_randomContents (left - 1)).bind ?_
    intro rest others
    apply Draw.Yields.pure
    exact List.forall_mem_cons.mpr ⟨Point.contents_eq_nil_iff.mpr size, others⟩
  · exact .pure (by simp)
termination_by left

theorem yields_flat_randomPoint (size : Nat) : (randomPoint o types size).Yields fun p =>
    ∀ q ∈ p.contents, q.contents = [] := by
  rw [randomPoint]
  split
  · exact yields_leaf_randomLeaf.mono fun p leaf => by simp [leaf.contents]
  · exact (yields_flat_randomContents none (size - 1)).bind fun inner flat => .pure flat

end flat

/-- One of the choices that random code is made of fails on the words. -/
inductive ChoiceFails (o : GenerationOptions) (types : Registry) (words : Words) : DrawFault → Prop
  | nesting {cause} : (Draw.chance o.proportions.blockShare).Fails words cause →
    ChoiceFails o types words cause
  | size {cause n} {pos : 0 < n} : (Draw.below 64 n pos).Fails words cause →
    ChoiceFails o types words cause
  | kind {cause} : (Draw.weighted (o.leafKinds types)).Fails words cause →
    ChoiceFails o types words cause
  | instruction {cause} : (Draw.member o.instructions).Fails words cause →
    ChoiceFails o types words cause
  | reference {cause} : (Draw.member o.references).Fails words cause →
    ChoiceFails o types words cause
  | type {cause} : (Draw.member (o.usableTypes types)).Fails words cause →
    ChoiceFails o types words cause
  | text {cause tag} (usable : tag ∈ o.usableTypes types) : (types.random tag o).Fails words cause →
    ChoiceFails o types words cause

theorem failsOnly_randomLeaf : (randomLeaf o types).FailsOnly (ChoiceFails o types) := by
  refine .bind (fun words position cause run => .kind ⟨position, run⟩) fun kind _ => ?_
  split
  · exact .pure _
  · refine .bind (fun words position cause run => .instruction ⟨position, run⟩) fun _ _ => ?_
    exact .pure _
  · refine .bind (fun words position cause run => .reference ⟨position, run⟩) fun _ _ => ?_
    exact .pure _
  · refine .bind (fun words position cause run => .type ⟨position, run⟩) fun found given => ?_
    cases found with
    | none => exact .pure _
    | some tag =>
      have usable : tag ∈ o.usableTypes types := (Draw.yields_member _).of_gives given tag rfl
      refine .bind (fun words position cause run => .text usable ⟨position, run⟩) fun _ _ => ?_
      exact .pure _

theorem failsOnly_nextSize {left : Nat} (pos : 0 < left) :
    (nextSize o left pos).FailsOnly (ChoiceFails o types) := by
  unfold nextSize
  split
  · refine .bind (fun words position cause run => .nesting ⟨position, run⟩) fun nested _ => ?_
    split
    · refine .bind (fun words position cause run => .size ⟨position, run⟩) fun _ _ => ?_
      exact .pure _
    · exact .pure _
  · exact .pure _

mutual

/-- The making ends, with a tree unless a choice fails. -/
theorem failsOnly_randomPoint (size : Nat) :
    (randomPoint o types size).FailsOnly (ChoiceFails o types) := by
  rw [randomPoint]
  split
  · exact failsOnly_randomLeaf
  · exact .bind (failsOnly_randomContents (size - 1)) fun _ _ => .pure _
termination_by 2 * size
decreasing_by omega

theorem failsOnly_randomContents (left : Nat) :
    (randomContents o types left).FailsOnly (ChoiceFails o types) := by
  rw [randomContents]
  split
  · refine .bind (failsOnly_nextSize _) fun size _ => ?_
    obtain ⟨n, _, _⟩ := size
    refine .bind (failsOnly_randomPoint n) fun _ _ => ?_
    exact .bind (failsOnly_randomContents (left - n)) fun _ _ => .pure _
  · exact .pure _
termination_by 2 * left + 1
decreasing_by all_goals omega

end

/-- A tree as random code has to be for the size that it is to have. -/
structure RandomTree (o : GenerationOptions) (types : Registry) (target : Nat) (p : Point) : Prop where
  size : p.size = max 1 target
  root : 1 < target → p.isBlock = true
  /-- Every leaf is of a kind that can be drawn, with a name or a registered type from the options. -/
  leaves : ∀ q ∈ p.preorder, q.contents = [] → o.Leaf types q
  /-- If no kind can be drawn, the leaves are empty blocks. -/
  spare : (∀ kind, ¬o.Drawable types kind) → ∀ q ∈ p.preorder, q.contents = [] → q = .emptyBlock
  /-- Without a weight for blocks the tree is a leaf or a block of leaves. -/
  flat : ¬0 < o.proportions.block → ∀ q ∈ p.contents, q.contents = []

theorem GenerationOptions.Leaf.eq_emptyBlock {p : Point} (h : o.Leaf types p)
    (none : ∀ kind, ¬o.Drawable types kind) : p = .emptyBlock := by
  cases h with
  | emptyBlock | spare => rfl
  | instruction drawable | reference drawable | literal drawable => exact absurd drawable (none _)

theorem yields_randomTree (o : GenerationOptions) (types : Registry) (size : Nat) :
    (randomPoint o types size).Yields (RandomTree o types size) := by
  intro words position p next run
  obtain ⟨number, grown⟩ := yields_grown_randomPoint size words position p next run
  have leaves : ∀ q ∈ p.preorder, q.contents = [] → o.Leaf types q := fun q member bare =>
    yields_leaf_randomLeaf.of_gives (grown.leaf q member bare)
  refine ⟨number, fun large => ?_, leaves,
    fun none q member bare => (leaves q member bare).eq_emptyBlock none,
    fun none => yields_flat_randomPoint none size words position p next run⟩
  cases p with
  | block inner => rfl
  | instruction _ | reference _ | literal _ =>
    rw [Point.size] at number
    omega

/-- On any words random code comes to a tree of exactly the size, made of what the options allow, if the
choices that it is made of can be made on these words. -/
theorem randomTree_of_randomPoint (o : GenerationOptions) (types : Registry) (size : Nat)
    (words : Words) (position : Nat) :
    (∃ p next, (randomPoint o types size).runFrom words position = .ok (p, next) ∧
        RandomTree o types size p) ∨
      ∃ cause, (randomPoint o types size).runFrom words position = .error cause ∧
        ChoiceFails o types words cause := by
  cases run : (randomPoint o types size).runFrom words position with
  | ok made =>
    obtain ⟨p, next⟩ := made
    exact .inl ⟨p, next, rfl, yields_randomTree o types size words position p next run⟩
  | error cause => exact .inr ⟨cause, rfl, failsOnly_randomPoint size words position cause run⟩

end Evolution
