import Evolution.Decimal.Notation
import Evolution.Proofs.Text.Plain

/-! Numbers are written with plain characters, whatever the number and the style. -/

namespace Evolution.Decimal

open Text

def IsNumeral (text : List Char) : Prop := text ≠ [] ∧ ∀ c ∈ text, IsPlain c

instance : DecidablePred IsNumeral :=
  fun text => @instDecidableAnd _ _ inferInstance (List.decidableBAll IsPlain text)

namespace IsNumeral

theorem cons {c : Char} {text : List Char} (first : IsPlain c) (rest : ∀ d ∈ text, IsPlain d) :
    IsNumeral (c :: text) :=
  ⟨by simp, List.forall_mem_cons.mpr ⟨first, rest⟩⟩

theorem append {text more : List Char} (h : IsNumeral text) (rest : ∀ c ∈ more, IsPlain c) :
    IsNumeral (text ++ more) := by
  refine ⟨by simp [h.1], ?_⟩
  intro c member
  rcases List.mem_append.mp member with member | member
  · exact h.2 c member
  · exact rest c member

end IsNumeral

theorem isNumeral_toDigits (n : Nat) : IsNumeral (Nat.toDigits 10 n) := by
  refine ⟨Nat.toDigits_ne_nil, fun c member => ?_⟩
  exact .of_isDigit (Nat.isDigit_of_mem_toDigits (by decide) (by decide) member)

theorem isNumeral_writeInt (n : Int) : IsNumeral (writeInt n) := by
  have digits := isNumeral_toDigits n.natAbs
  unfold writeInt
  split
  · exact .cons (by decide) digits.2
  · exact digits

theorem isPlain_of_mem_replicate {n : Nat} : ∀ c ∈ List.replicate n '0', IsPlain c := by
  intro c member
  rw [(List.mem_replicate.mp member).2]
  decide

theorem isNumeral_positional {digits : List Char} (h : IsNumeral digits) (fraction : Bool)
    (place : Int) : IsNumeral (positional fraction digits place) := by
  unfold positional
  split
  · have zeros : IsNumeral ('0' :: '.' :: List.replicate (-place).toNat '0') :=
      .cons (by decide) (List.forall_mem_cons.mpr ⟨by decide, isPlain_of_mem_replicate⟩)
    exact zeros.append h.2
  · simp only
    split
    · apply (h.append isPlain_of_mem_replicate).append
      have point : IsNumeral ".0".toList := by decide
      cases fraction
      · simp
      · exact point.2
    · refine ⟨by simp, fun c member => ?_⟩
      simp only [List.mem_append, List.mem_cons] at member
      rcases member with member | rfl | member
      · exact h.2 c (List.mem_of_mem_take member)
      · decide
      · exact h.2 c (List.mem_of_mem_drop member)

theorem isNumeral_exponential {digits : List Char} (h : IsNumeral digits) (power : Int) :
    IsNumeral (exponential digits power) := by
  have mark : ∀ c ∈ 'e' :: writeInt power, IsPlain c :=
    List.forall_mem_cons.mpr ⟨by decide, (isNumeral_writeInt power).2⟩
  unfold exponential
  simp only
  split
  · have rest := List.forall_mem_cons.mp (List.forall_mem_cons.mp h.2).2
    refine IsNumeral.append (.cons (h.2 _ (by simp)) ?_) mark
    exact List.forall_mem_cons.mpr ⟨by decide, List.forall_mem_cons.mpr rest⟩
  · exact h.append mark

theorem isNumeral_scaled (style : Style) (value : Scaled) : IsNumeral (value.write style) := by
  have digits := isNumeral_toDigits value.digits
  unfold Scaled.write
  simp only
  split
  · exact isNumeral_positional digits _ _
  · exact isNumeral_exponential digits _

theorem isNumeral_write (style : Style) (x : Float) : IsNumeral (write style x).toList := by
  have negative : ∀ {text}, IsNumeral text → IsNumeral ('-' :: text) :=
    fun h => .cons (by decide) h.2
  have infinite : IsNumeral ['i', 'n', 'f'] := by decide
  have zero : IsNumeral (if style.fraction then ['0', '.', '0'] else ['0']) := by
    split
    · decide
    · decide
  unfold write
  simp only
  split
  · decide
  · split
    · simpa using negative infinite
    · simpa using infinite
  · split
    · simpa using negative zero
    · simpa using zero
  · split
    · simpa using negative (isNumeral_scaled style _)
    · simpa using isNumeral_scaled style _

end Evolution.Decimal
