import Evolution.Text.Blank
import Evolution.Text.Identifier

/-! Plain characters, the visible ones of ASCII below the braces. Identifiers and numbers are written
with them alone, so they are never cut by blanks, braces or guillemets. -/

namespace Evolution.Text

def IsPlain (c : Char) : Prop := 0x20 < c.toNat ∧ c.toNat < 0x7B

instance : DecidablePred IsPlain := fun _ => inferInstanceAs (Decidable (_ ∧ _))

namespace IsPlain

theorem isBlank {c : Char} (h : IsPlain c) : isBlank c = false := by
  obtain ⟨low, high⟩ := h
  simp only [Text.isBlank, Bool.or_eq_false_iff, Bool.and_eq_false_iff, decide_eq_false_iff_not,
    beq_eq_false_iff_ne]
  omega

theorem ne {c d : Char} (h : IsPlain c) (other : ¬IsPlain d) : c ≠ d := by
  rintro rfl
  exact other h

theorem of_between {c low high : Char} (first : IsPlain low) (last : IsPlain high)
    (above : low.val ≤ c.val) (below : c.val ≤ high.val) : IsPlain c := by
  rw [UInt32.le_iff_toNat_le] at above below
  constructor
  · exact Nat.lt_of_lt_of_le first.1 above
  · exact Nat.lt_of_le_of_lt below last.2

theorem of_isAlpha {c : Char} (h : c.isAlpha = true) : IsPlain c := by
  rcases Bool.or_eq_true_iff.mp h with upper | lower
  · have range : 'A'.val ≤ c.val ∧ c.val ≤ 'Z'.val := of_decide_eq_true upper
    exact of_between (by decide) (by decide) range.1 range.2
  · have range := Bool.and_eq_true_iff.mp lower
    exact of_between (by decide) (by decide) (of_decide_eq_true range.1) (of_decide_eq_true range.2)

theorem of_isDigit {c : Char} (h : c.isDigit = true) : IsPlain c := by
  have range := Bool.and_eq_true_iff.mp h
  exact of_between (by decide) (by decide) (of_decide_eq_true range.1) (of_decide_eq_true range.2)

theorem of_isIdentifierTail {c : Char} (h : isIdentifierTail c = true) : IsPlain c := by
  simp only [isIdentifierTail, Char.isAlphanum, Bool.or_eq_true, beq_iff_eq] at h
  rcases h with (h | h) | rfl
  · exact of_isAlpha h
  · exact of_isDigit h
  · decide

end IsPlain

theorem isPlain_of_isTypeName {name : List Char} (h : isTypeName name = true) :
    ∀ c ∈ name, IsPlain c := by
  cases name with
  | nil => simp
  | cons first rest =>
    simp only [isTypeName, Bool.and_eq_true, List.all_eq_true] at h
    intro c member
    rcases List.mem_cons.mp member with rfl | member
    · exact .of_isAlpha h.1
    · exact .of_isIdentifierTail (h.2 c member)

end Evolution.Text
