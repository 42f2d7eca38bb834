import Evolution.Program.Basic
import Evolution.Proofs.Point.Tree

/-! Well-formed programs: those whose names, types and texts a blueprint can hold. The conditions
speak about characters and lines only, neither about reading nor about writing. -/

namespace Evolution

/-- A run of characters that stays together in code: no blank and no brace cuts it. -/
def Text.IsWord (text : List Char) : Prop :=
  text ≠ [] ∧ ∀ c ∈ text, isBlank c = false ∧ c ≠ '\x7b' ∧ c ≠ '\x7d'

/-- A word that does not pass for the tag of a literal. -/
def Text.IsName (text : List Char) : Prop :=
  IsWord text ∧ text.head? ≠ some '«'

/-- A text of one or more lines, each filled and trimmed; only the first may start like an entry.
The empty text is allowed on its own. -/
def Text.IsBody (text : List Char) : Prop :=
  text = [] ∨ (∀ line ∈ text.splitOn '\n', line ≠ [] ∧ trim line = line) ∧
    ∀ line ∈ (text.splitOn '\n').tail, line.head? ≠ some '«'

-- The characters of the text are looked at, not all characters there are.
instance (text : List Char) : Decidable (Text.IsWord text) :=
  @instDecidableAnd _ _ inferInstance (List.decidableBAll _ text)

instance (text : List Char) : Decidable (Text.IsName text) := inferInstanceAs (Decidable (_ ∧ _))

instance (text : List Char) : Decidable (Text.IsBody text) := inferInstanceAs (Decidable (_ ∨ _))

structure Footnote.WellFormed (note : Footnote) : Prop where
  tag : Text.isTypeName note.tag.toList = true
  text : Text.IsBody note.text.toList

instance (note : Footnote) : Decidable note.WellFormed :=
  decidable_of_iff (Text.isTypeName note.tag.toList = true ∧ Text.IsBody note.text.toList)
    ⟨fun h => ⟨h.1, h.2⟩, fun h => ⟨h.1, h.2⟩⟩

namespace Point

/-- The condition on a point apart from its contents. -/
def WellLabelled : Point → Prop
  | .block _ => True
  | .instruction name => Text.IsName name.toList
  | .reference name => Text.IsName name.toList
  | .literal note => note.WellFormed

instance : DecidablePred WellLabelled
  | .block _ => inferInstanceAs (Decidable True)
  | .instruction name => inferInstanceAs (Decidable (Text.IsName name.toList))
  | .reference name => inferInstanceAs (Decidable (Text.IsName name.toList))
  | .literal note => inferInstanceAs (Decidable note.WellFormed)

def WellFormed (p : Point) : Prop := ∀ q ∈ p.preorder, q.WellLabelled

instance (p : Point) : Decidable p.WellFormed :=
  inferInstanceAs (Decidable (∀ q ∈ p.preorder, q.WellLabelled))

@[simp]
theorem wellFormed_block {inner : List Point} :
    (Point.block inner).WellFormed ↔ ∀ p ∈ inner, p.WellFormed := by
  simp [WellFormed, forall_preorder_block, WellLabelled]

@[simp]
theorem wellFormed_instruction {name : String} :
    (Point.instruction name).WellFormed ↔ Text.IsName name.toList := by
  simp [WellFormed, preorder, WellLabelled]

@[simp]
theorem wellFormed_reference {name : String} :
    (Point.reference name).WellFormed ↔ Text.IsName name.toList := by
  simp [WellFormed, preorder, WellLabelled]

@[simp]
theorem wellFormed_literal {note : Footnote} :
    (Point.literal note).WellFormed ↔ note.WellFormed := by
  simp [WellFormed, preorder, WellLabelled]

theorem WellFormed.footnotes {p : Point} (h : p.WellFormed) :
    ∀ note ∈ p.footnotes, note.WellFormed := by
  intro note member
  obtain ⟨q, hq, same⟩ := List.mem_filterMap.mp member
  cases q with
  | literal found =>
    obtain rfl := Option.some.inj same
    exact h _ hq
  | block _ => simp at same
  | instruction _ => simp at same
  | reference _ => simp at same

end Point

structure Program.WellFormed (p : Program) : Prop where
  root : p.root.WellFormed
  unused : ∀ note ∈ p.unused, note.WellFormed

instance (p : Program) : Decidable p.WellFormed :=
  decidable_of_iff (p.root.WellFormed ∧ ∀ note ∈ p.unused, note.WellFormed)
    ⟨fun h => ⟨h.1, h.2⟩, fun h => ⟨h.1, h.2⟩⟩

theorem Program.WellFormed.footnotes {p : Program} (h : p.WellFormed) :
    ∀ note ∈ p.footnotes, note.WellFormed := by
  intro note member
  rcases List.mem_append.mp member with used | unused
  · exact h.root.footnotes note used
  · exact h.unused note unused

end Evolution
