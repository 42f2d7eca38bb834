import Evolution.Breeding.Child
import Evolution.Draw.Real
import Evolution.Proofs.Lists

/-! What a random choice can come to. A condition on the outcomes of a choice holds on all words from
all positions, as long as the choice ends; a choice that is made of others takes its condition from
theirs. -/

namespace Evolution

variable {α β : Type}

namespace Draw

def Yields (draw : Draw α) (good : α → Prop) : Prop :=
  ∀ words position a next, draw.runFrom words position = .ok (a, next) → good a

/-- The choice comes to this on some words. -/
def Gives (draw : Draw α) (a : α) : Prop :=
  ∃ words position next, draw.runFrom words position = .ok (a, next)

theorem yields_gives (draw : Draw α) : draw.Yields draw.Gives :=
  fun words position _ next run => ⟨words, position, next, run⟩

theorem runFrom_bind_eq_ok_iff {draw : Draw α} {f : α → Draw β} {words : Words}
    {position next : Nat} {b : β} : (draw >>= f).runFrom words position = .ok (b, next) ↔
      ∃ a between, draw.runFrom words position = .ok (a, between) ∧
        (f a).runFrom words between = .ok (b, next) := by
  have steps : (draw >>= f).runFrom words position =
      (draw.runFrom words position).bind fun found => (f found.1).runFrom words found.2 := rfl
  rw [steps]
  cases draw.runFrom words position with
  | error e => simp [Except.bind]
  | ok found =>
    obtain ⟨a, between⟩ := found
    constructor
    · intro run
      exact ⟨a, between, rfl, run⟩
    · rintro ⟨_, _, same, run⟩
      obtain ⟨rfl, rfl⟩ := Prod.mk.inj (Except.ok.inj same)
      exact run

namespace Yields

variable {draw : Draw α} {good : α → Prop}

theorem any : draw.Yields fun _ => True := fun _ _ _ _ _ => trivial

theorem mono {better : α → Prop} (h : draw.Yields better) (weaker : ∀ a, better a → good a) :
    draw.Yields good :=
  fun words position a next run => weaker a (h words position a next run)

protected theorem pure {a : α} (h : good a) : (pure a : Draw α).Yields good := by
  intro words position b next run
  obtain ⟨rfl, _⟩ := Prod.mk.inj (Except.ok.inj run)
  exact h

protected theorem bind {f : α → Draw β} {result : β → Prop} (first : draw.Yields good)
    (second : ∀ a, good a → (f a).Yields result) : (draw >>= f).Yields result := by
  intro words position b next run
  obtain ⟨a, between, start, rest⟩ := runFrom_bind_eq_ok_iff.mp run
  exact second a (first words position a between start) words between b next rest

theorem of_gives {a : α} (h : draw.Yields good) (given : draw.Gives a) : good a := by
  obtain ⟨words, position, next, run⟩ := given
  exact h words position a next run

theorem and {other : α → Prop} (h : draw.Yields good) (h' : draw.Yields other) :
    draw.Yields fun a => good a ∧ other a :=
  fun words position a next run => ⟨h words position a next run, h' words position a next run⟩

protected theorem fault {cause : DrawFault} : (fault cause : Draw α).Yields good := by
  intro words position a next run
  exact absurd run (by simp [fault, runFrom, ReaderT.run, StateT.run])

/-- Where nothing is known of the first choice. -/
theorem afterAny {f : α → Draw β} {result : β → Prop} (second : ∀ a, (f a).Yields result) :
    (draw >>= f).Yields result :=
  any.bind fun a _ => second a

theorem ite {yes no : Draw α} {c : Prop} [Decidable c] (hyes : yes.Yields good)
    (hno : no.Yields good) : (if c then yes else no).Yields good := by
  split
  · exact hyes
  · exact hno

theorem dite {c : Prop} [Decidable c] {yes : c → Draw α} {no : ¬c → Draw α}
    (hyes : ∀ h, (yes h).Yields good) (hno : ∀ h, (no h).Yields good) :
    (if h : c then yes h else no h).Yields good := by
  split
  · exact hyes _
  · exact hno _

theorem times (h : draw.Yields good) (n : Nat) : (draw.times n).Yields fun as => ∀ a ∈ as, good a := by
  induction n with
  | zero => exact .pure (by simp)
  | succ n ih =>
    refine h.bind ?_
    intro a ha
    refine ih.bind ?_
    intro as has
    apply Yields.pure
    exact List.forall_mem_cons.mpr ⟨ha, has⟩

theorem forEach {f : α → Draw β} {result : β → Prop} {xs : List α}
    (h : ∀ x ∈ xs, (f x).Yields result) (n : Nat) :
    (forEach f n xs).Yields fun bs => ∀ b ∈ bs, result b := by
  induction xs with
  | nil => exact .pure (by simp)
  | cons x xs ih =>
    have others := ih fun y hy => h y (List.mem_cons_of_mem x hy)
    refine ((h x (by simp)).times n).bind ?_
    intro bs hbs
    refine others.bind ?_
    intro cs hcs
    apply Yields.pure
    intro b hb
    rcases List.mem_append.mp hb with hb | hb
    · exact hbs b hb
    · exact hcs b hb

theorem length_times (draw : Draw α) (n : Nat) : (draw.times n).Yields (·.length = n) := by
  induction n with
  | zero => exact .pure rfl
  | succ n ih =>
    apply afterAny
    intro a
    refine ih.bind ?_
    intro as length
    apply Yields.pure
    exact congrArg (· + 1) length

theorem times_replicate {made : β → α → Prop} {x : β} (h : draw.Yields (made x)) (n : Nat) :
    (draw.times n).Yields (List.Forall₂ made (List.replicate n x)) := by
  induction n with
  | zero => exact .pure .nil
  | succ n ih =>
    refine h.bind ?_
    intro a first
    refine ih.bind ?_
    intro as others
    apply Yields.pure
    exact .cons first others

/-- What is made for each member of a list in turn, a number of times, belongs to it. -/
theorem forEach_replicate {f : α → Draw β} {made : α → β → Prop} {xs : List α}
    (h : ∀ x ∈ xs, (f x).Yields (made x)) (n : Nat) :
    (Draw.forEach f n xs).Yields (List.Forall₂ made (xs.flatMap (List.replicate n))) := by
  induction xs with
  | nil => exact .pure .nil
  | cons x xs ih =>
    obtain ⟨here, h⟩ := List.forall_mem_cons.mp h
    refine (here.times_replicate n).bind ?_
    intro bs first
    refine (ih h).bind ?_
    intro cs others
    apply Yields.pure
    rw [List.flatMap_cons]
    exact List.rel_append first others

theorem length_forEach (f : α → Draw β) (n : Nat) (xs : List α) :
    (Draw.forEach f n xs).Yields (·.length = xs.length * n) := by
  refine (forEach_replicate (fun x _ => yields_gives (f x)) n).mono fun bs made => ?_
  simp [← made.length_eq]

end Yields

theorem yields_member (xs : List α) : (member xs).Yields fun found => ∀ x ∈ found, x ∈ xs := by
  unfold member
  split
  · apply Yields.afterAny
    intro i
    apply Yields.pure
    rintro x found
    obtain rfl := Option.some.inj found
    exact List.getElem_mem i.isLt
  · exact .pure (by simp)

/-- An item is drawn if there are any. -/
theorem yields_member_some {xs : List α} (filled : xs ≠ []) :
    (member xs).Yields fun found => ∃ x ∈ xs, found = some x := by
  rw [member, dif_pos (List.length_pos_of_ne_nil filled)]
  exact .afterAny fun i => .pure ⟨_, List.getElem_mem i.isLt, rfl⟩

theorem length_partialSums (total : Float) (weights : List Float) :
    (partialSums total weights).1.length = weights.length := by
  induction weights generalizing total with
  | nil => rfl
  | cons w rest ih => exact congrArg (· + 1) (ih (total + w))

theorem yields_weightedPlace (first : Float) (rest : List Float) :
    (weightedPlace first rest).Yields (· ≤ rest.length) := by
  unfold weightedPlace
  refine .ite .fault (.afterAny fun tries => ?_)
  split
  · exact .fault
  · apply Yields.afterAny
    intro x
    apply Yields.pure
    rw [← length_partialSums first rest]
    exact List.findIdx_le_length

/-- One of the items is drawn, if there are any. -/
theorem yields_weighted (items : List (α × Float)) : (weighted items).Yields fun found =>
    (found = none → items = []) ∧ ∀ a ∈ found, ∃ w, (a, w) ∈ items := by
  cases items with
  | nil => exact .pure (by simp)
  | cons item rest =>
    obtain ⟨item, w⟩ := item
    rw [weighted]
    have place := yields_weightedPlace w (rest.map (·.2))
    rw [List.length_map] at place
    refine place.bind ?_
    intro i within
    apply Yields.pure
    have below : i < ((item, w) :: rest).length := Nat.lt_succ_of_le within
    rw [List.getElem?_eq_getElem below]
    refine ⟨nofun, ?_⟩
    rintro a ⟨⟩
    exact ⟨_, List.getElem_mem below⟩

/-- What has no chance does not happen. -/
theorem yields_chance_zero : (chance 0).Yields (· = false) := by
  have possible : (0 ≤ (0 : Float) && (0 : Float) < 1) = true := by decide +kernel
  have bound : ((0 : Float) * 18446744073709551616).toUInt64 = 0 := by decide +kernel
  rw [chance, if_pos possible, bound]
  apply Yields.afterAny
  intro w
  apply Yields.pure
  exact decide_eq_false UInt64.not_lt_zero

theorem yields_someone {crowd : List Answer} (h : 0 < crowd.length) :
    (someone crowd h).Yields (· ∈ crowd) :=
  .afterAny fun i => .pure (List.getElem_mem i.isLt)

theorem yields_shuffleTo {n : Nat} (i : Nat) (h : i < n) (xs : Vector α n) :
    (shuffleTo i h xs).Yields fun ys => ys.toList.Perm xs.toList := by
  induction i generalizing xs with
  | zero => exact .pure (.refl _)
  | succ i ih =>
    apply Yields.afterAny
    intro j
    refine (ih (by omega) _).mono ?_
    intro ys hys
    apply hys.trans
    exact (Vector.swap_perm h (by omega)).toList

theorem yields_shuffle (xs : List α) : (shuffle xs).Yields (·.Perm xs) := by
  unfold shuffle
  split
  · refine (yields_shuffleTo _ _ _).bind ?_
    intro ys hys
    apply Yields.pure
    simpa using hys
  · next empty =>
    obtain rfl : xs = [] := by simpa using empty
    exact .pure (.refl _)

end Draw

end Evolution
