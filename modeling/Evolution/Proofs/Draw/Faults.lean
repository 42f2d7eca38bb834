import Evolution.Proofs.Draw.Outcomes

/-! Choices that are asked for properly: never one out of an empty range, and never more than memory
can hold. A choice that is made of others is asked for properly if they are. -/

namespace Evolution.Draw

variable {α β : Type}

/-- No failure is for an empty range or for want of room: what is left are words, weights and
probabilities that do not serve. -/
def Proper (draw : Draw α) : Prop :=
  ∀ words position cause, draw.runFrom words position = .error cause →
    cause ≠ .badRange ∧ cause ≠ .tooMany

theorem runFrom_bind_eq_error_iff {draw : Draw α} {f : α → Draw β} {words : Words}
    {position : Nat} {cause : DrawFault} : (draw >>= f).runFrom words position = .error cause ↔
      draw.runFrom words position = .error cause ∨
        ∃ a between, draw.runFrom words position = .ok (a, between) ∧
          (f a).runFrom words between = .error cause := by
  have steps : (draw >>= f).runFrom words position =
      (draw.runFrom words position).bind fun found => (f found.1).runFrom words found.2 := rfl
  rw [steps]
  cases draw.runFrom words position with
  | error first => simp [Except.bind]
  | ok found =>
    obtain ⟨a, between⟩ := found
    constructor
    · intro run
      exact .inr ⟨a, between, rfl, run⟩
    · rintro (failed | ⟨_, _, same, run⟩)
      · cases failed
      · obtain ⟨rfl, rfl⟩ := Prod.mk.inj (Except.ok.inj same)
        exact run

/-- The choice fails on the words, from some position on. -/
def Fails (draw : Draw α) (words : Words) (cause : DrawFault) : Prop :=
  ∃ position, draw.runFrom words position = .error cause

theorem Fails.proper {draw : Draw α} {words : Words} {cause : DrawFault} (h : draw.Fails words cause)
    (proper : draw.Proper) : cause ≠ .badRange ∧ cause ≠ .tooMany := by
  obtain ⟨position, run⟩ := h
  exact proper words position cause run

/-- Every failure of the choice is one of these. -/
def FailsOnly (causes : Words → DrawFault → Prop) (draw : Draw α) : Prop :=
  ∀ words position cause, draw.runFrom words position = .error cause → causes words cause

theorem failsOnly_fails (draw : Draw α) : draw.FailsOnly draw.Fails :=
  fun _ position _ run => ⟨position, run⟩

/-- On any words a choice ends, in one way or the other. -/
theorem Yields.ok_or_error {draw : Draw α} {good : α → Prop} {causes : Words → DrawFault → Prop}
    (h : draw.Yields good) (fails : draw.FailsOnly causes) (words : Words) (position : Nat) :
    (∃ a next, draw.runFrom words position = .ok (a, next) ∧ good a) ∨
      ∃ cause, draw.runFrom words position = .error cause ∧ causes words cause := by
  cases run : draw.runFrom words position with
  | ok made =>
    obtain ⟨a, next⟩ := made
    exact .inl ⟨a, next, rfl, h words position a next run⟩
  | error cause => exact .inr ⟨cause, rfl, fails words position cause run⟩

namespace FailsOnly

variable {draw : Draw α} {causes : Words → DrawFault → Prop}

theorem mono {fewer : Words → DrawFault → Prop} (h : draw.FailsOnly fewer)
    (more : ∀ words cause, fewer words cause → causes words cause) : draw.FailsOnly causes :=
  fun words position cause run => more words cause (h words position cause run)

protected theorem pure (a : α) : (pure a : Draw α).FailsOnly causes := by
  intro words position cause run
  cases run

protected theorem bind {f : α → Draw β} (first : draw.FailsOnly causes)
    (second : ∀ a, draw.Gives a → (f a).FailsOnly causes) : (draw >>= f).FailsOnly causes := by
  intro words position cause run
  rcases runFrom_bind_eq_error_iff.mp run with failed | ⟨a, between, given, failed⟩
  · exact first words position cause failed
  · exact second a ⟨words, position, between, given⟩ words between cause failed

theorem dite {c : Prop} [Decidable c] {yes : c → Draw α} {no : ¬c → Draw α}
    (hyes : ∀ h, (yes h).FailsOnly causes) (hno : ∀ h, (no h).FailsOnly causes) :
    (if h : c then yes h else no h).FailsOnly causes := by
  split
  · exact hyes _
  · exact hno _

theorem times (h : draw.FailsOnly causes) (n : Nat) : (draw.times n).FailsOnly causes := by
  induction n with
  | zero => exact .pure []
  | succ n ih => exact h.bind fun _ _ => ih.bind fun _ _ => .pure _

theorem forEach {f : α → Draw β} {xs : List α} (h : ∀ x ∈ xs, (f x).FailsOnly causes) (n : Nat) :
    (Draw.forEach f n xs).FailsOnly causes := by
  induction xs with
  | nil => exact .pure []
  | cons x xs ih =>
    obtain ⟨here, h⟩ := List.forall_mem_cons.mp h
    exact (here.times n).bind fun _ _ => (ih h).bind fun _ _ => .pure _

end FailsOnly

namespace Proper

variable {draw : Draw α}

protected theorem pure (a : α) : (pure a : Draw α).Proper := FailsOnly.pure a

protected theorem bind {f : α → Draw β} (first : draw.Proper) (second : ∀ a, (f a).Proper) :
    (draw >>= f).Proper :=
  FailsOnly.bind first fun a _ => second a

protected theorem fault {cause : DrawFault} (range : cause ≠ .badRange) (number : cause ≠ .tooMany) :
    (fault cause : Draw α).Proper := by
  intro words position _ run
  obtain rfl := Except.error.inj run
  exact ⟨range, number⟩

theorem ite {yes no : Draw α} {c : Prop} [Decidable c] (hyes : yes.Proper) (hno : no.Proper) :
    (if c then yes else no).Proper := by
  split
  · exact hyes
  · exact hno

end Proper

theorem proper_word : word.Proper := by
  intro words position cause run
  cases run

theorem proper_belowWithin (w n : Nat) (h : 0 < n) (tries : Nat) :
    (belowWithin w n h tries).Proper := by
  induction tries with
  | zero => exact .fault (by decide) (by decide)
  | succ tries ih => exact proper_word.bind fun _ => .ite (.pure _) ih

theorem proper_patience : patience.Proper := by
  intro words position cause run
  cases run

theorem proper_below (w n : Nat) (h : 0 < n) : (below w n h).Proper :=
  proper_patience.bind fun _ => proper_belowWithin w n h _

theorem proper_place (n : Nat) (h : 0 < n) : (place n h).Proper :=
  .ite (proper_below 32 n h) (proper_below 64 n h)

theorem proper_member (xs : List α) : (member xs).Proper := by
  unfold member
  split
  · exact (proper_place _ _).bind fun _ => .pure _
  · exact .pure none

/-- The bounds of a range of integers that is not empty. -/
theorem proper_int64Between {lo hi : Int64} (h : lo ≤ hi) : (int64Between lo hi).Proper := by
  have within : lo.toInt ≤ hi.toInt := Int64.le_iff_toInt_le.mp h
  unfold int64Between
  simp only
  refine .ite (proper_word.bind fun _ => .pure _) ?_
  rw [dif_pos (by omega)]
  exact (proper_below 64 _ _).bind fun _ => .pure _

theorem proper_chance (p : Float) : (chance p).Proper :=
  .ite (proper_word.bind fun _ => .pure _) (.ite (.pure true) (.fault (by decide) (by decide)))

theorem proper_unit : unit.Proper := proper_word.bind fun _ => .pure _

theorem proper_fraction : fraction.Proper := proper_word.bind fun _ => .pure _

/-- The bounds of a range of floats that is neither empty nor too wide. -/
def FloatRange (lo hi : Float) : Prop := lo ≤ hi ∧ ((hi - lo) / greatestFraction).isFinite = true

instance (lo hi : Float) : Decidable (FloatRange lo hi) :=
  inferInstanceAs (Decidable (lo ≤ hi ∧ ((hi - lo) / greatestFraction).isFinite = true))

theorem proper_floatBetween {lo hi : Float} (h : FloatRange lo hi) : (floatBetween lo hi).Proper := by
  unfold floatBetween
  simp only [h.1, h.2, decide_true, Bool.and_self, Bool.not_true, Bool.false_eq_true, if_false]
  refine proper_patience.bind fun tries => ?_
  split
  · exact .fault (by decide) (by decide)
  · exact proper_fraction.bind fun _ => .pure _

theorem proper_weightedPlace (first : Float) (rest : List Float) : (weightedPlace first rest).Proper := by
  unfold weightedPlace
  refine .ite (.fault (by decide) (by decide)) (proper_patience.bind fun tries => ?_)
  split
  · exact .fault (by decide) (by decide)
  · exact proper_fraction.bind fun _ => .pure _

theorem proper_weighted (items : List (α × Float)) : (weighted items).Proper := by
  cases items with
  | nil => exact .pure none
  | cons item rest => exact (proper_weightedPlace _ _).bind fun _ => .pure _

/-- No word is kept, from some position on, for a number below a positive one. -/
def Stalls (words : Words) (cause : DrawFault) : Prop :=
  ∃ w n, ∃ pos : 0 < n, (below w n pos).Fails words cause

theorem Stalls.proper {words : Words} {cause : DrawFault} (h : Stalls words cause) :
    cause ≠ .badRange ∧ cause ≠ .tooMany := by
  obtain ⟨w, n, pos, failed⟩ := h
  exact failed.proper (proper_below w n pos)

theorem failsOnly_below (w n : Nat) (pos : 0 < n) : (below w n pos).FailsOnly Stalls :=
  (failsOnly_fails _).mono fun _ _ failed => ⟨w, n, pos, failed⟩

theorem failsOnly_place (n : Nat) (pos : 0 < n) : (place n pos).FailsOnly Stalls := by
  unfold place
  split
  · exact failsOnly_below 32 n pos
  · exact failsOnly_below 64 n pos

theorem failsOnly_someone {crowd : List Answer} (pos : 0 < crowd.length) :
    (someone crowd pos).FailsOnly Stalls :=
  (failsOnly_place _ pos).bind fun _ _ => .pure _

theorem failsOnly_pointOf (p : Program) : (pointOf p).FailsOnly Stalls :=
  (failsOnly_below 64 _ p.root.size_pos).bind fun _ _ => .pure _

theorem failsOnly_shuffleTo {n : Nat} (i : Nat) (h : i < n) (xs : Vector α n) :
    (shuffleTo i h xs).FailsOnly Stalls := by
  induction i generalizing xs with
  | zero => exact .pure xs
  | succ i ih => exact (failsOnly_place _ _).bind fun _ _ => ih _ _

theorem failsOnly_shuffle (xs : List α) : (shuffle xs).FailsOnly Stalls := by
  unfold shuffle
  split
  · exact (failsOnly_shuffleTo _ _ _).bind fun _ _ => .pure _
  · exact .pure []

theorem failsOnly_unit {causes : Words → DrawFault → Prop} : unit.FailsOnly causes := by
  intro words position cause run
  cases run

/-- Even chances never fail. -/
theorem failsOnly_even {causes : Words → DrawFault → Prop} :
    (chance (Float.ofScientific 5 true 1)).FailsOnly causes := by
  have inside : (0 ≤ Float.ofScientific 5 true 1 && Float.ofScientific 5 true 1 < 1) = true := by
    decide +kernel
  intro words position cause run
  rw [chance, if_pos inside] at run
  cases run

end Evolution.Draw
