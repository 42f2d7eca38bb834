import Evolution.Decimal.Reading
import Evolution.Proofs.Decimal.Notation

/-! Integers are read back from the way they are written. -/

namespace Evolution.Decimal

theorem ofDigits_toDigits (n : Nat) : ofDigits (Nat.toDigits 10 n) = n :=
  Nat.ofDigitChars_ten_toDigits

theorem ofDigits_zeros_append (count : Nat) (digits : List Char) :
    ofDigits (List.replicate count '0' ++ digits) = ofDigits digits := by
  induction count with
  | zero => rfl
  | succ count ih => rw [← ih, List.replicate_succ, List.cons_append]; rfl

/-- A digit is no sign. -/
theorem takeSign_of_isDigit {text : List Char} (digits : ∀ c ∈ text, c.isDigit = true) :
    takeSign text = (false, text) := by
  unfold takeSign
  split
  · next rest => exact absurd (digits '-' (by simp)) (by decide)
  · next rest => exact absurd (digits '+' (by simp)) (by decide)
  · rfl

theorem readInt?_writeInt (n : Int) : readInt? (writeInt n) = some n := by
  have digits : ∀ c ∈ Nat.toDigits 10 n.natAbs, c.isDigit = true := fun c member =>
    Nat.isDigit_of_mem_toDigits (by decide) (by decide) member
  have read : ((Nat.toDigits 10 n.natAbs).isEmpty ||
      !(Nat.toDigits 10 n.natAbs).all Char.isDigit) = false := by
    rw [List.isEmpty_eq_false_iff.mpr Nat.toDigits_ne_nil, List.all_eq_true.mpr digits]
    rfl
  unfold writeInt
  split
  · next negative =>
    have value : -(n.natAbs : Int) = n := by omega
    simp only [readInt?, takeSign, read, ofDigits_toDigits, value]
    rfl
  · next positive =>
    have value : (n.natAbs : Int) = n := by omega
    simp only [readInt?, takeSign_of_isDigit digits, read, ofDigits_toDigits, value]
    rfl

theorem readInt64?_writeInt (x : Int64) : readInt64? (writeInt x.toInt) = some x := by
  have within : (Int64.minValue.toInt ≤ x.toInt && x.toInt ≤ Int64.maxValue.toInt) = true := by
    rw [Bool.and_eq_true, decide_eq_true_eq, decide_eq_true_eq]
    exact ⟨Int64.minValue_le_toInt x, Int64.toInt_le x⟩
  rw [readInt64?, readInt?_writeInt, Option.bind_some, if_pos within, Int64.ofInt_toInt]

end Evolution.Decimal
