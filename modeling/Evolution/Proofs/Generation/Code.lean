import Evolution.Proofs.Blueprint.WellFormed
import Evolution.Proofs.Generation.Trees

/-! Random code is well formed: its names come from the options, its literals from types that make
texts a footnote can hold. -/

namespace Evolution

open Text

/-- Options whose names code can hold. -/
structure GenerationOptions.WellNamed (o : GenerationOptions) : Prop where
  instructions : ∀ name ∈ o.instructions, IsName name.toList
  references : ∀ name ∈ o.references, IsName name.toList

/-- A type whose random texts and blends can stand in a footnote. -/
structure LiteralType.WellFormed (type : LiteralType) : Prop where
  random : ∀ o : GenerationOptions, o.WellNamed → (type.random o).Yields (IsBody ·.toList)
  blend : ∀ a b, IsBody a.toList → IsBody b.toList → (type.blend a b).Yields (IsBody ·.toList)

/-- A registry of such types under names that can be tags. -/
def Registry.WellFormed (r : Registry) : Prop :=
  ∀ name type, r.types.get? name = some type → isTypeName name.toList = true ∧ type.WellFormed

theorem Registry.wellFormed_empty : Registry.empty.WellFormed := by
  intro name type found
  cases found

/-- What holds of all types of a registry holds of them when one is registered of which it holds. -/
theorem Registry.forall_register {r : Registry} {P : String → LiteralType → Prop}
    (all : ∀ name type, r.types.get? name = some type → P name type) {type : LiteralType}
    (new : P type.name type) :
    ∀ name other, (r.register type).types.get? name = some other → P name other := by
  intro name other found
  rw [Registry.register, Table.get?_insert] at found
  split at found
  · next same => exact same ▸ Option.some.inj found ▸ new
  · exact all name other found

theorem Registry.forall_restrict {r kept : Registry} {P : String → LiteralType → Prop}
    (all : ∀ name type, r.types.get? name = some type → P name type) {names : List String}
    (restricted : r.restrict names = .ok kept) :
    ∀ name type, kept.types.get? name = some type → P name type := by
  unfold Registry.restrict at restricted
  split at restricted
  · next types same =>
    obtain rfl := Except.ok.inj restricted
    intro name type found
    exact all name type (Table.get?_of_restrict same found)
  · cases restricted

variable {types : Registry} {o : GenerationOptions}

theorem Registry.WellFormed.random (h : types.WellFormed) (named : o.WellNamed) (tag : String) :
    (types.random tag o).Yields fun found => ∀ text ∈ found, IsBody text.toList := by
  unfold Registry.random
  cases found : types.types.get? tag with
  | none => exact .pure (by simp)
  | some type =>
    refine ((h tag type found).2.random o named).bind ?_
    intro text body
    apply Draw.Yields.pure
    rintro _ ⟨⟩
    exact body

theorem Registry.WellFormed.blend (h : types.WellFormed) (tag : String) {a b : String}
    (first : IsBody a.toList) (second : IsBody b.toList) :
    (types.blend tag a b).Yields (IsBody ·.toList) := by
  unfold Registry.blend
  cases found : types.types.get? tag with
  | none => exact .pure first
  | some type => exact (h tag type found).2.blend a b first second

theorem Registry.WellFormed.usable (h : types.WellFormed) {tag : String}
    (used : tag ∈ o.usableTypes types) : isTypeName tag.toList = true := by
  have filed : types.types.contains tag = true := (List.mem_filter.mp used).2
  obtain ⟨type, found⟩ := Table.exists_get?_of_contains filed
  exact (h tag type found).1

theorem yields_randomLeaf (h : types.WellFormed) (named : o.WellNamed) :
    (randomLeaf o types).Yields Point.WellFormed := by
  have emptyBlock : Point.emptyBlock.WellFormed := Point.wellFormed_block.mpr (by simp)
  apply Draw.Yields.afterAny
  intro kind
  split
  · exact .pure emptyBlock
  · refine (Draw.yields_member _).bind ?_
    intro found member
    apply Draw.Yields.pure
    cases found with
    | none => exact emptyBlock
    | some name => exact Point.wellFormed_instruction.mpr (named.instructions name (member name rfl))
  · refine (Draw.yields_member _).bind ?_
    intro found member
    apply Draw.Yields.pure
    cases found with
    | none => exact emptyBlock
    | some name => exact Point.wellFormed_reference.mpr (named.references name (member name rfl))
  · refine (Draw.yields_member _).bind ?_
    intro found member
    cases found with
    | none => exact .pure emptyBlock
    | some tag =>
      refine (h.random named tag).bind ?_
      intro found body
      apply Draw.Yields.pure
      cases found with
      | none => exact emptyBlock
      | some text => exact Point.wellFormed_literal.mpr ⟨h.usable (member tag rfl), body text rfl⟩

theorem yields_randomPoint (h : types.WellFormed) (named : o.WellNamed) (size : Nat) :
    (randomPoint o types size).Yields Point.WellFormed := by
  refine (yields_grown_randomPoint size).mono fun p made q member => ?_
  rcases made.2 q member with filled | leaf
  · cases q with
    | block inner => trivial
    | instruction _ | reference _ | literal _ => exact absurd rfl filled
  · exact (yields_randomLeaf h named).of_gives leaf q (Point.mem_preorder.mpr (.inl rfl))

theorem yields_randomProgram (h : types.WellFormed) (named : o.WellNamed) :
    (randomProgram o types).Yields Program.WellFormed :=
  (yields_randomPoint h named _).bind fun _ good => .pure ⟨good, by simp [Program.ofPoint]⟩

end Evolution
