import Evolution.Proofs.Decimal.Reading
import Evolution.Proofs.Draw.Integers
import Evolution.Proofs.Literal.Body
import Evolution.Proofs.Table
import Evolution.Literal.Builtin

/-! Integers as texts: they are read back from the way they are written, so one that is blended with
itself keeps its value. -/

namespace Evolution

namespace LiteralType

open Text

theorem sortedInts_eq (a b : Int64) : sortedInts a b = (min a b, max a b) := by
  have less : b < a ↔ ¬a ≤ b := Int64.not_le.symm
  change (if b < a then _ else _) = (if a ≤ b then a else b, if a ≤ b then b else a)
  by_cases h : a ≤ b <;> simp [less, h]

theorem min_le_max (a b : Int64) : min a b ≤ max a b := by
  change (if a ≤ b then a else b) ≤ if a ≤ b then b else a
  split
  · assumption
  · next notLe => exact Int64.le_of_lt (Int64.not_le.mp notLe)

theorem readInt?_writeInt (x : Int64) :
    readInt? (String.ofList (Decimal.writeInt x.toInt)) = some x := by
  obtain ⟨filled, plain⟩ := Decimal.isNumeral_writeInt x.toInt
  rw [readInt?, String.toList_ofList, (isFramed_of_isPlain filled plain).trim_eq,
    Decimal.readInt64?_writeInt]

theorem yields_intBetween_readInt? (a b : Int64) : (intBetween a b).Yields fun text =>
    ∃ x, readInt? text = some x ∧ min a b ≤ x ∧ x ≤ max a b := by
  have between : (Draw.int64Between (min a b) (max a b)).Yields fun x => min a b ≤ x ∧ x ≤ max a b := by
    intro words position x next run
    obtain ⟨k, -, -, rfl, -⟩ := (Draw.runFrom_int64Between_eq_ok_iff (min_le_max a b)).mp run
    exact Draw.sample_bounds (min_le_max a b) _
  rw [intBetween, sortedInts_eq]
  exact between.bind fun x within => .pure ⟨x, readInt?_writeInt x, within⟩

/-- An integer blended with itself, or a text that is none. -/
theorem yields_blend_int_self (text : String) :
    (int.blend text text).Yields (readInt? · = readInt? text) := by
  simp only [int]
  split
  · next x y first second =>
    obtain rfl := Option.some.inj (first.symm.trans second)
    refine (yields_intBetween_readInt? x x).mono ?_
    rintro text ⟨y, read, least, most⟩
    rw [show min x x = x from ite_self x] at least
    rw [show max x x = x from ite_self x] at most
    rw [read, Int64.le_antisymm most least, first]
  · exact .pure rfl

end LiteralType

namespace Registry

variable {types : Registry} {tag s t : String}

theorem blend_of_not_contains (missing : types.contains tag = false) :
    types.blend tag s t = pure s := by
  rw [blend, Table.get?_eq_none missing]

/-- The name of the integers stands for no other type. -/
def KeepsInts (types : Registry) : Prop := ∀ type ∈ types.types.get? "int", type = .int

theorem KeepsInts.yields_blend_self (h : types.KeepsInts) (text : String) :
    (types.blend "int" text text).Yields (LiteralType.readInt? · = LiteralType.readInt? text) := by
  unfold blend
  cases found : types.types.get? "int" with
  | none => exact .pure rfl
  | some type =>
    obtain rfl := h type found
    exact LiteralType.yields_blend_int_self text

end Registry

end Evolution
