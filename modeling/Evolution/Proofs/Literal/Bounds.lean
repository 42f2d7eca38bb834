import Evolution.Proofs.Draw.Integers
import Evolution.Proofs.Literal.Integer

/-! Random integers as texts. A random literal, or the blend of two literals, is the decimal of an
integer between the bounds, also where the bounds are those of all integers: the word that is kept
settles which. -/

namespace Evolution

namespace Decimal

/-- Digits without a needless zero in front, after a sign if the number is negative. -/
def IsCanonical (text : List Char) : Prop :=
  ∃ digits : List Char, digits ≠ [] ∧ (∀ c ∈ digits, c.isDigit = true) ∧
    (digits.head? = some '0' → digits = ['0']) ∧
    (text = digits ∨ text = '-' :: digits ∧ digits ≠ ['0'])

theorem head?_toDigits {n : Nat} (some : 0 < n) : (Nat.toDigits 10 n).head? ≠ Option.some '0' := by
  induction n using Nat.strongRecOn with
  | ind n ih =>
    rcases Nat.lt_or_ge n 10 with few | many
    · rw [Nat.toDigits_of_lt_base few]
      interval_cases n <;> decide
    · have first := ih (n / 10) (by omega) (by omega)
      rw [Nat.toDigits_of_base_le (by decide) many, List.head?_append]
      cases head : (Nat.toDigits 10 (n / 10)).head? with
      | none => exact absurd (List.head?_eq_none_iff.mp head) Nat.toDigits_ne_nil
      | some c =>
        rw [head] at first
        exact first

theorem isCanonical_writeInt (n : Int) : IsCanonical (writeInt n) := by
  have digits : ∀ c ∈ Nat.toDigits 10 n.natAbs, c.isDigit = true := fun c member =>
    Nat.isDigit_of_mem_toDigits (by decide) (by decide) member
  have lead : (Nat.toDigits 10 n.natAbs).head? = some '0' → Nat.toDigits 10 n.natAbs = ['0'] := by
    intro zero
    rcases Nat.eq_zero_or_pos n.natAbs with none | some
    · rw [none, Nat.toDigits_zero]
    · exact absurd zero (head?_toDigits some)
  refine ⟨_, Nat.toDigits_ne_nil, digits, lead, ?_⟩
  unfold writeInt
  split
  · next negative =>
    refine .inr ⟨rfl, fun zero => ?_⟩
    exact head?_toDigits (n := n.natAbs) (by omega) (by rw [zero]; rfl)
  · exact .inl rfl

end Decimal

namespace LiteralType

open Draw

/-- The decimal of the integer between two bounds, in either order, that a word stands for. -/
def sampleText (a b : Int64) (word : UInt64) : String :=
  String.ofList (Decimal.writeInt (sample (min a b) (max a b) word).toInt)

/-- The choice is the text of the first word that is kept, and any word stands for an integer between
the bounds. -/
structure SamplesBetween (draw : Draw String) (a b : Int64) : Prop where
  ok_iff : ∀ words position text next, draw.runFrom words position = .ok (text, next) ↔
    ∃ k ≤ words.patience, FirstKept (Kept (span (min a b) (max a b))) words position k ∧
      text = sampleText a b (words (position + k)) ∧ next = position + k + 1
  error_iff : ∀ words position cause, draw.runFrom words position = .error cause ↔
    cause = .stalled ∧
      ∀ k ≤ words.patience, ¬Kept (span (min a b) (max a b)) (words (position + k))
  within : ∀ word, Decimal.IsCanonical (sampleText a b word).toList ∧
    ∃ x, int.read? (sampleText a b word) = some (.int x) ∧ min a b ≤ x ∧ x ≤ max a b

theorem read?_int_eq_some_iff {text : String} {x : Int64} :
    int.read? text = some (.int x) ↔ readInt? text = some x := by
  simp [int]

theorem read?_int_eq_none_iff {text : String} : int.read? text = none ↔ readInt? text = none := by
  simp [int]

theorem samplesBetween (a b : Int64) : SamplesBetween (intBetween a b) a b where
  ok_iff words position text next := by
    have written (x : Int64) (between : Nat) :
        (pure (String.ofList (Decimal.writeInt x.toInt)) : Draw String).runFrom words between =
          .ok (text, next) ↔ text = String.ofList (Decimal.writeInt x.toInt) ∧ next = between := by
      change Except.ok (_, between) = Except.ok (text, next) ↔ _
      rw [Except.ok.injEq, Prod.mk.injEq, eq_comm, @eq_comm _ between]
    rw [intBetween, sortedInts_eq, runFrom_bind_eq_ok_iff]
    simp only [runFrom_int64Between_eq_ok_iff (min_le_max a b), written]
    constructor
    · rintro ⟨_, _, ⟨k, less, first, rfl, rfl⟩, rfl, rfl⟩
      exact ⟨k, less, first, rfl, rfl⟩
    · rintro ⟨k, less, first, rfl, rfl⟩
      exact ⟨_, _, ⟨k, less, first, rfl, rfl⟩, rfl, rfl⟩
  error_iff words position cause := by
    rw [intBetween, sortedInts_eq, runFrom_bind_eq_error_iff]
    simp only [runFrom_int64Between_eq_error_iff (min_le_max a b)]
    refine ⟨?_, .inl⟩
    rintro (stalled | ⟨_, _, -, ⟨⟩⟩)
    exact stalled
  within word := by
    obtain ⟨least, most⟩ := sample_bounds (min_le_max a b) word
    refine ⟨?_, _, read?_int_eq_some_iff.mpr (readInt?_writeInt _), least, most⟩
    rw [sampleText, String.toList_ofList]
    exact Decimal.isCanonical_writeInt _

/-- A random integer is the decimal of an integer between the bounds, whichever of them is the larger,
and the blend of two integers that of one between the two. A text that is no integer is blended into
the first text, and no word is drawn. -/
theorem int_within_bounds :
    (∀ options : GenerationOptions,
      SamplesBetween (int.random options) options.intRange.1 options.intRange.2) ∧
    (∀ a b x y, int.read? a = some (.int x) → int.read? b = some (.int y) →
      SamplesBetween (int.blend a b) x y) ∧
    ∀ a b, int.read? a = none ∨ int.read? b = none →
      ∀ words position, (int.blend a b).runFrom words position = .ok (a, position) := by
  refine ⟨fun options => samplesBetween _ _, fun a b x y first second => ?_, fun a b unread => ?_⟩
  · rw [read?_int_eq_some_iff] at first second
    have blended : int.blend a b = intBetween x y := by
      simp only [int, first, second]
    rw [blended]
    exact samplesBetween x y
  · intro words position
    have kept : int.blend a b = pure a := by
      simp only [read?_int_eq_none_iff] at unread
      simp only [int]
      split
      · next first second => simp [first, second] at unread
      · rfl
    rw [kept]
    rfl

/-- The bounds of all integers, the larger one first, and a number that is one too large. -/
theorem int_within_bounds_of_all :
    let low := " -9223372036854775808"
    let high := "+9223372036854775807"
    let beyond := "9223372036854775808"
    let words : Words := ⟨fun _ => 0xFFFFFFFFFFFFFFFF, 0⟩
    (int.read? high = some (.int Int64.maxValue) ∧ int.read? low = some (.int Int64.minValue) ∧
      int.read? beyond = none) ∧
    SamplesBetween (int.blend high low) Int64.maxValue Int64.minValue ∧
    (int.blend high low).runFrom words 3 = .ok ("-1", 4) ∧
    (int.blend low beyond).runFrom words 3 = .ok (low, 3) := by
  intro low high beyond words
  have top : int.read? high = some (.int Int64.maxValue) := by decide +kernel
  have bottom : int.read? low = some (.int Int64.minValue) := by decide +kernel
  have unread : int.read? beyond = none := by decide +kernel
  obtain ⟨-, between, refused⟩ := int_within_bounds
  have samples := between high low _ _ top bottom
  refine ⟨⟨top, bottom, unread⟩, samples, ?_, refused low beyond (.inr unread) words 3⟩
  rw [samples.ok_iff]
  exact ⟨0, by decide, firstKept_zero.mpr (.inl (by decide +kernel)), by decide +kernel, rfl⟩

end LiteralType

end Evolution
