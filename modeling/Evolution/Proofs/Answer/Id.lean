import Evolution.Answer.Id
import Mathlib.Algebra.Group.Nat.Defs
import Mathlib.Data.Nat.Basic

/-! Identifiers are read back from their written form: 26 characters of five bits each hold all of
the 128 bits. -/

namespace Evolution.AnswerId

theorem value?_symbol {n : Nat} (h : n < 32) : value? (symbol n) = some n := by
  revert n
  decide +kernel

theorem mapM_value?_symbols (count n : Nat) :
    ∃ values, (symbols count n).mapM value? = some values ∧ values.length = count ∧
      values.foldl (fun n v => 32 * n + v) 0 = n % 32 ^ count := by
  induction count generalizing n with
  | zero => exact ⟨[], rfl, rfl, by simp [Nat.mod_one]⟩
  | succ count ih =>
    obtain ⟨values, read, length, total⟩ := ih (n / 32)
    have last : value? (symbol (n % 32)) = some (n % 32) := value?_symbol (Nat.mod_lt n (by decide))
    refine ⟨values ++ [n % 32], ?_, by simp [length], ?_⟩
    · simp [symbols, read, last]
    · have split : n % 32 ^ (count + 1) = n % 32 + 32 * (n / 32 % 32 ^ count) := by
        rw [Nat.pow_succ', Nat.mod_mul]
      rw [List.foldl_append, total, split]
      simp only [List.foldl_cons, List.foldl_nil]
      omega

@[simp]
theorem read?_write (id : AnswerId) : read? id.write = some id := by
  obtain ⟨values, read, length, total⟩ := mapM_value?_symbols 26 id.bits.toNat
  have fits : id.bits.toNat % 32 ^ 26 = id.bits.toNat :=
    Nat.mod_eq_of_lt (Nat.lt_trans id.bits.isLt (by decide))
  rw [fits] at total
  simp [read?, write, read, length, total]

end Evolution.AnswerId
