import Evolution.Proofs.Draw.Faults
import Mathlib

/-! Integers from a range, in 64-bit arithmetic. The count of the range wraps to zero for all
integers; a word is kept or turned down by the low half of its product with the count, and the high
half is added to the lower bound, again with wrapping. Whatever words are turned down before, what
comes out lies within the bounds. -/

namespace Evolution.Draw

/-- Words are turned down, as many as `k` says, and the one behind them is kept. -/
def FirstKept (kept : UInt64 → Prop) (words : Words) (position k : Nat) : Prop :=
  kept (words (position + k)) ∧ ∀ i < k, ¬kept (words (position + i))

section FirstKept

variable {kept : UInt64 → Prop} {words : Words} {position k : Nat}

theorem firstKept_zero : FirstKept kept words position 0 ↔ kept (words position) := by
  simp [FirstKept]

theorem firstKept_succ : FirstKept kept words position (k + 1) ↔
    ¬kept (words position) ∧ FirstKept kept words (position + 1) k := by
  have next (i : Nat) : position + 1 + i = position + (i + 1) := by omega
  simp only [FirstKept, next, Nat.forall_lt_succ_left]
  tauto

end FirstKept

section Words

variable {w n tries : Nat} {h : 0 < n} {words : Words} {position : Nat}

theorem runFrom_belowWithin_succ :
    (belowWithin w n h (tries + 1)).runFrom words position =
      if keeps w n (words position) then .ok (highHalf w n h (words position), position + 1)
      else (belowWithin w n h tries).runFrom words (position + 1) := by
  change (if keeps w n (words position) then pure (highHalf w n h (words position))
    else belowWithin w n h tries : Draw (Fin n)).runFrom words (position + 1) = _
  split <;> rfl

/-- The number is that of the first word that is kept. -/
theorem runFrom_belowWithin_eq_ok_iff {x : Fin n} {next : Nat} :
    (belowWithin w n h tries).runFrom words position = .ok (x, next) ↔
      ∃ k < tries, FirstKept (keeps w n · = true) words position k ∧
        x = highHalf w n h (words (position + k)) ∧ next = position + k + 1 := by
  induction tries generalizing position with
  | zero => simp [belowWithin, fault, runFrom, ReaderT.run, StateT.run]
  | succ tries ih =>
    have shift (k : Nat) : position + 1 + k = position + (k + 1) := by omega
    rw [runFrom_belowWithin_succ]
    split
    · next kept =>
      constructor
      · rintro ⟨⟩
        exact ⟨0, by omega, firstKept_zero.mpr kept, rfl, rfl⟩
      · rintro ⟨k, less, first, rfl, rfl⟩
        cases k with
        | zero => rfl
        | succ k => exact absurd kept (firstKept_succ.mp first).1
    · next refused =>
      rw [ih]
      constructor
      · rintro ⟨k, less, first, rfl, rfl⟩
        exact ⟨k + 1, by omega, firstKept_succ.mpr ⟨refused, first⟩, by rw [shift], by rw [shift]⟩
      · rintro ⟨k, less, first, rfl, rfl⟩
        cases k with
        | zero => exact absurd (firstKept_zero.mp first) refused
        | succ k =>
          exact ⟨k, by omega, (firstKept_succ.mp first).2, by rw [shift], by rw [shift]⟩

/-- There is no number only if all the words are turned down. -/
theorem runFrom_belowWithin_eq_error_iff {cause : DrawFault} :
    (belowWithin w n h tries).runFrom words position = .error cause ↔
      cause = .stalled ∧ ∀ k < tries, ¬keeps w n (words (position + k)) = true := by
  induction tries generalizing position with
  | zero =>
    have stalled : (belowWithin w n h 0).runFrom words position = .error .stalled := rfl
    rw [stalled]
    constructor
    · rintro ⟨⟩
      exact ⟨rfl, by simp⟩
    · rintro ⟨rfl, -⟩
      rfl
  | succ tries ih =>
    have shift (k : Nat) : position + 1 + k = position + (k + 1) := by omega
    rw [runFrom_belowWithin_succ, Nat.forall_lt_succ_left, Nat.add_zero]
    split
    · next kept => simp [kept]
    · next refused =>
      rw [ih]
      simp only [shift]
      tauto

theorem runFrom_below_eq_ok_iff {x : Fin n} {next : Nat} :
    (below w n h).runFrom words position = .ok (x, next) ↔
      ∃ k ≤ words.patience, FirstKept (keeps w n · = true) words position k ∧
        x = highHalf w n h (words (position + k)) ∧ next = position + k + 1 := by
  simp only [← Nat.lt_succ_iff]
  exact runFrom_belowWithin_eq_ok_iff

theorem runFrom_below_eq_error_iff {cause : DrawFault} :
    (below w n h).runFrom words position = .error cause ↔
      cause = .stalled ∧ ∀ k ≤ words.patience, ¬keeps w n (words (position + k)) = true := by
  simp only [← Nat.lt_succ_iff]
  exact runFrom_belowWithin_eq_error_iff

end Words

/-- How many integers there are from `lo` to `hi`; zero stands for all. -/
def span (lo hi : Int64) : UInt64 := hi.toUInt64 - lo.toUInt64 + 1

/-- The low half of the product is not above the count shifted up, less one. -/
def Kept (span word : UInt64) : Prop := span = 0 ∨ word * span ≤ (span <<< (63 - span.log2)) - 1

/-- The integer from `lo` to `hi` that a word stands for. -/
def sample (lo hi : Int64) (word : UInt64) : Int64 :=
  if span lo hi = 0 then word.toInt64
  else lo + (UInt64.ofNat (word.toNat * (span lo hi).toNat / 2 ^ 64)).toInt64

section Between

variable {lo hi : Int64}

theorem toNat_toUInt64 (x : Int64) : (x.toUInt64.toNat : ℤ) = x.toInt % 2 ^ 64 := by
  have word := x.toUInt64.toNat_lt
  rw [← x.toInt_toBitVec, BitVec.toInt_eq_toNat_cond, x.toNat_toBitVec]
  split <;> omega

/-- The count of a range that is not empty. -/
theorem toNat_span (h : lo ≤ hi) :
    (span lo hi).toNat = (hi.toInt - lo.toInt + 1).toNat % 2 ^ 64 := by
  have first := toNat_toUInt64 lo
  have last := toNat_toUInt64 hi
  have word := lo.toUInt64.toNat_lt
  have within := Int64.le_iff_toInt_le.mp h
  rw [span, UInt64.toNat_add, UInt64.toNat_sub, UInt64.toNat_one]
  omega

theorem toInt_bounds (x : Int64) : -2 ^ 63 ≤ x.toInt ∧ x.toInt < 2 ^ 63 :=
  ⟨x.minValue_le_toInt, x.toInt_lt⟩

theorem add_toInt64_ofNat (lo : Int64) (k : Nat) :
    lo + (UInt64.ofNat k).toInt64 = Int64.ofInt (lo.toInt + k) := by
  rw [UInt64.toInt64_ofNat', Int64.ofInt_add, Int64.ofInt_toInt, Int64.ofInt_eq_ofNat]

/-- Whatever the word is, it stands for an integer within the bounds. -/
theorem sample_bounds (h : lo ≤ hi) (word : UInt64) :
    lo ≤ sample lo hi word ∧ sample lo hi word ≤ hi := by
  have count := toNat_span h
  have within := Int64.le_iff_toInt_le.mp h
  have least := toInt_bounds lo
  have most := toInt_bounds hi
  rw [Int64.le_iff_toInt_le, Int64.le_iff_toInt_le, sample]
  split
  · next all =>
    -- Only the bounds of all integers are that far apart.
    have here := toInt_bounds word.toInt64
    rw [all, UInt64.toNat_zero] at count
    omega
  · next some =>
    have positive : 0 < (span lo hi).toNat :=
      Nat.pos_of_ne_zero fun none => some (UInt64.toNat_inj.mp none)
    have less : word.toNat * (span lo hi).toNat / 2 ^ 64 < (span lo hi).toNat :=
      Nat.div_lt_of_lt_mul (Nat.mul_lt_mul_of_pos_right word.toNat_lt positive)
    rw [add_toInt64_ofNat, Int64.toInt_ofInt_of_le] <;> omega

/-- For fewer than all integers the count is that of numbers to choose among. -/
theorem kept_iff_keeps {span : UInt64} (some : 0 < span.toNat) (word : UInt64) :
    Kept span word ↔ keeps 64 span.toNat word = true := by
  have notZero : span ≠ 0 := by
    rintro rfl
    exact absurd some (by decide)
  obtain ⟨lower, upper⟩ := (Nat.log2_eq_iff some.ne').mp rfl
  have bits : span.toNat.log2 < 64 := (Nat.log2_lt some.ne').mpr span.toNat_lt
  have log : span.log2.toNat = span.toNat.log2 := rfl
  have places : (63 - span.log2).toNat = 63 - span.toNat.log2 := by
    have least : span.log2 ≤ 63 := by
      rw [UInt64.le_iff_toNat_le, log]
      exact Nat.le_of_lt_succ bits
    rw [UInt64.toNat_sub_of_le _ _ least, log]
    rfl
  have room : span.toNat * 2 ^ (63 - span.toNat.log2) < 2 ^ 64 := by
    calc span.toNat * 2 ^ (63 - span.toNat.log2)
      _ < 2 ^ (span.toNat.log2 + 1) * 2 ^ (63 - span.toNat.log2) :=
        Nat.mul_lt_mul_of_pos_right upper (Nat.two_pow_pos _)
      _ = 2 ^ 64 := by rw [← Nat.pow_add]; congr 1; omega
  have few : (63 - span.toNat.log2) % 64 = 63 - span.toNat.log2 := by omega
  have shifted : (span <<< (63 - span.log2)).toNat = span.toNat * 2 ^ (63 - span.toNat.log2) := by
    rw [UInt64.toNat_shiftLeft, places, few, Nat.shiftLeft_eq, Nat.mod_eq_of_lt room]
  have filled : 1 ≤ (span <<< (63 - span.log2)) := by
    rw [UInt64.le_iff_toNat_le, shifted]
    exact Nat.mul_pos some (Nat.two_pow_pos _)
  have whole : word.toNat % 2 ^ 64 = word.toNat := Nat.mod_eq_of_lt word.toNat_lt
  rw [Kept, or_iff_right notZero, UInt64.le_iff_toNat_le, UInt64.toNat_mul,
    UInt64.toNat_sub_of_le _ _ filled, shifted]
  simp only [keeps, zone, wordCount, Nat.pow_eq, whole, decide_eq_true_eq]
  rfl

/-- All integers take the word as it is; of fewer a number below their count is added to the first. -/
theorem int64Between_cases (h : lo ≤ hi) :
    (span lo hi = 0 ∧ int64Between lo hi = do return (← word).toInt64) ∨
      ∃ some : 0 < (span lo hi).toNat, int64Between lo hi = do
        let k ← below 64 (span lo hi).toNat some
        return Int64.ofInt (lo.toInt + k.val) := by
  have count := toNat_span h
  have within := Int64.le_iff_toInt_le.mp h
  have least := toInt_bounds lo
  have most := toInt_bounds hi
  obtain ⟨n, counted⟩ : ∃ n, (hi.toInt - lo.toInt + 1).toNat = n := ⟨_, rfl⟩
  rw [int64Between, counted]
  by_cases all : n = 2 ^ 64
  · exact .inl ⟨UInt64.toNat_inj.mp (by rw [count, counted, all]; rfl), if_pos all⟩
  · obtain rfl : n = (span lo hi).toNat := by omega
    have some : 0 < (span lo hi).toNat := by omega
    exact .inr ⟨some, (if_neg all).trans (dif_pos some)⟩

section Runs

variable {words : Words} {position : Nat}

/-- The integer from the range is that of the first word that is kept. -/
theorem runFrom_int64Between_eq_ok_iff (h : lo ≤ hi) {next : Nat} {x : Int64} :
    (int64Between lo hi).runFrom words position = .ok (x, next) ↔
      ∃ k ≤ words.patience, FirstKept (Kept (span lo hi)) words position k ∧
        x = sample lo hi (words (position + k)) ∧ next = position + k + 1 := by
  rcases int64Between_cases h with ⟨all, drawn⟩ | ⟨some, drawn⟩
  · have every : ∀ w, Kept (span lo hi) w := fun _ => .inl all
    have run : (int64Between lo hi).runFrom words position =
        .ok ((words position).toInt64, position + 1) := by
      rw [drawn]
      rfl
    rw [run]
    constructor
    · rintro ⟨⟩
      exact ⟨0, Nat.zero_le _, firstKept_zero.mpr (every _), (if_pos all).symm, rfl⟩
    · rintro ⟨k, -, ⟨-, refused⟩, rfl, rfl⟩
      cases k with
      | zero =>
        have whole : sample lo hi (words position) = (words position).toInt64 := if_pos all
        simp only [Nat.add_zero, whole]
      | succ k => exact absurd (every _) (refused 0 (Nat.succ_pos k))
  · have drawn' (w : UInt64) :
        sample lo hi w = Int64.ofInt (lo.toInt + (highHalf 64 (span lo hi).toNat some w).val) := by
      have high : (highHalf 64 (span lo hi).toNat some w).val =
          w.toNat * (span lo hi).toNat / 2 ^ 64 := by
        have whole : w.toNat % wordCount 64 = w.toNat := Nat.mod_eq_of_lt w.toNat_lt
        change w.toNat % wordCount 64 * _ / _ = _
        rw [whole]
        rfl
      have notAll : span lo hi ≠ 0 := fun none => absurd some (by simp [none])
      rw [sample, if_neg notAll, add_toInt64_ofNat, high]
    rw [drawn, runFrom_bind_eq_ok_iff]
    simp only [runFrom_below_eq_ok_iff, ← kept_iff_keeps some, drawn']
    constructor
    · rintro ⟨_, _, ⟨k, less, first, rfl, rfl⟩, ⟨⟩⟩
      exact ⟨k, less, first, rfl, rfl⟩
    · rintro ⟨k, less, first, rfl, rfl⟩
      exact ⟨_, _, ⟨k, less, first, rfl, rfl⟩, rfl⟩

/-- There is none only if too many words in a row are turned down. -/
theorem runFrom_int64Between_eq_error_iff (h : lo ≤ hi) {cause : DrawFault} :
    (int64Between lo hi).runFrom words position = .error cause ↔
      cause = .stalled ∧ ∀ k ≤ words.patience, ¬Kept (span lo hi) (words (position + k)) := by
  rcases int64Between_cases h with ⟨all, drawn⟩ | ⟨some, drawn⟩
  · have run : (int64Between lo hi).runFrom words position =
        .ok ((words position).toInt64, position + 1) := by
      rw [drawn]
      rfl
    rw [run]
    refine ⟨nofun, fun ⟨_, refused⟩ => ?_⟩
    exact absurd (.inl all) (refused 0 (Nat.zero_le _))
  · rw [drawn, runFrom_bind_eq_error_iff]
    simp only [runFrom_below_eq_error_iff, ← kept_iff_keeps some]
    refine ⟨?_, .inl⟩
    rintro (stalled | ⟨_, _, -, ⟨⟩⟩)
    exact stalled

end Runs

end Between

end Evolution.Draw
