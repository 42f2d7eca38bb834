import Evolution.Proofs.Breeding.Descent
import Evolution.Proofs.Breeding.Faults

/-! The number of children. An operator refuses a call for reasons that can be read off the crowd, the
count and the settings; otherwise it gives the documented number of children, or fails as a whole
because a sampler fails or because there is no room. -/

namespace Evolution

open Breeding

namespace Operator

/-- The number of children that a call asks for. -/
def documented (op : Operator) (crowd : List Answer) (count : Option Nat) : Nat :=
  match op with
  | randomGuess .. | resampleAndClone => count.getD 1
  | uniformBackboneCrossover _ => count.getD crowd.length
  | resampleValues .. | pointDelete | pointMutation .. | pointCrossover => crowd.length * count.getD 1
  | blendingCrossover _ => count.getD 1 * ∑ language ∈ (crowd.map (·.language)).toFinset,
      (crowd.countP (·.language = language) + 1) / 2

/-- A call with a crowd of `n` answers breaks a rule of the operator. -/
inductive Refuses (n : Nat) (count : Option Nat) (overrides : BreedingOptions) :
    Operator → ArgumentError → Prop
  | clone (empty : n = 0) (wanted : 0 < count.getD 1) :
    Refuses n count overrides .resampleAndClone (.emptyBatch "ResampleAndClone")
  | mutation {types : Registry} {defaults : BreedingOptions} (empty : n = 0) :
    Refuses n count overrides (.pointMutation types defaults) (.emptyBatch "PointMutation")
  | graft (empty : n = 0) : Refuses n count overrides .pointCrossover (.emptyBatch "PointCrossover")
  | probability {defaults : BreedingOptions}
    (outside : ¬(0 ≤ keepProbability defaults overrides ∧ keepProbability defaults overrides ≤ 1)) :
    Refuses n count overrides (.uniformBackboneCrossover defaults)
      (.invalidProbability (keepProbability defaults overrides))
  | backbones {defaults : BreedingOptions} {wanted : Nat}
    (inside : 0 ≤ keepProbability defaults overrides ∧ keepProbability defaults overrides ≤ 1)
    (empty : n = 0) (given : count = some wanted) (positive : 0 < wanted) :
    Refuses n count overrides (.uniformBackboneCrossover defaults)
      (.emptyBatch "UniformBackboneCrossover")

variable {op : Operator} {crowd : List Answer} {count : Option Nat} {overrides : BreedingOptions}

theorem needsCrowd_eq_error_iff {name : String} {cause : ArgumentError} :
    needsCrowd name crowd = .error cause ↔ crowd.length = 0 ∧ cause = .emptyBatch name := by
  unfold needsCrowd
  cases crowd <;> simp [eq_comm]

theorem check_uniformBackboneCrossover {defaults : BreedingOptions} :
    (uniformBackboneCrossover defaults).check crowd count overrides =
      let p := keepProbability defaults overrides
      if 0 ≤ p ∧ p ≤ 1 then
        if 0 < count.getD crowd.length then needsCrowd "UniformBackboneCrossover" crowd else .ok ()
      else .error (.invalidProbability p) := by
  simp only [check, name]
  generalize keepProbability defaults overrides = p
  by_cases lower : 0 ≤ p <;> by_cases upper : p ≤ 1 <;>
    simp [lower, upper, bind, Except.bind, pure, Except.pure, throw, throwThe, MonadExceptOf.throw]

theorem check_resampleAndClone_eq_error_iff {cause : ArgumentError} :
    resampleAndClone.check crowd count overrides = .error cause ↔
      resampleAndClone.Refuses crowd.length count overrides cause := by
  have wantedOrNot : resampleAndClone.check crowd count overrides =
      if 0 < count.getD 1 then needsCrowd "ResampleAndClone" crowd else .ok () := rfl
  rw [wantedOrNot]
  split
  · next wanted =>
    rw [needsCrowd_eq_error_iff]
    constructor
    · rintro ⟨empty, rfl⟩
      exact .clone empty wanted
    · intro breaks
      cases breaks with
      | clone empty => exact ⟨empty, rfl⟩
  · next unwanted =>
    constructor
    · intro refused
      cases refused
    · intro breaks
      cases breaks with
      | clone _ wanted => exact absurd wanted unwanted

theorem check_pointCrossover_eq_error_iff {cause : ArgumentError} :
    pointCrossover.check crowd count overrides = .error cause ↔
      pointCrossover.Refuses crowd.length count overrides cause := by
  refine needsCrowd_eq_error_iff.trans ⟨?_, ?_⟩
  · rintro ⟨empty, rfl⟩
    exact .graft empty
  · intro breaks
    cases breaks with
    | graft empty => exact ⟨empty, rfl⟩

theorem check_pointMutation_eq_error_iff {types : Registry} {defaults : BreedingOptions}
    {cause : ArgumentError} :
    (pointMutation types defaults).check crowd count overrides = .error cause ↔
      (pointMutation types defaults).Refuses crowd.length count overrides cause := by
  refine needsCrowd_eq_error_iff.trans ⟨?_, ?_⟩
  · rintro ⟨empty, rfl⟩
    exact .mutation empty
  · intro breaks
    cases breaks with
    | mutation empty => exact ⟨empty, rfl⟩

/-- The probability comes first. Where no count is given, an empty crowd asks for no children. -/
theorem check_uniformBackboneCrossover_eq_error_iff {defaults : BreedingOptions}
    {cause : ArgumentError} :
    (uniformBackboneCrossover defaults).check crowd count overrides = .error cause ↔
      (uniformBackboneCrossover defaults).Refuses crowd.length count overrides cause := by
  rw [check_uniformBackboneCrossover]
  constructor
  · intro refused
    simp only at refused
    split at refused
    · next inside =>
      split at refused
      · next wanted =>
        obtain ⟨empty, rfl⟩ := needsCrowd_eq_error_iff.mp refused
        cases count with
        | none => exact absurd wanted (by simp [empty])
        | some n => exact .backbones inside empty rfl wanted
      · cases refused
    · next outside =>
      obtain rfl := Except.error.inj refused
      exact .probability outside
  · intro breaks
    cases breaks with
    | probability outside => exact if_neg outside
    | backbones inside empty given positive =>
      subst given
      refine (if_pos inside).trans ((if_pos positive).trans ?_)
      exact needsCrowd_eq_error_iff.mpr ⟨empty, rfl⟩

theorem check_eq_error_iff {cause : ArgumentError} :
    op.check crowd count overrides = .error cause ↔ op.Refuses crowd.length count overrides cause := by
  cases op with
  | resampleAndClone => exact check_resampleAndClone_eq_error_iff
  | pointCrossover => exact check_pointCrossover_eq_error_iff
  | pointMutation types defaults => exact check_pointMutation_eq_error_iff
  | uniformBackboneCrossover defaults => exact check_uniformBackboneCrossover_eq_error_iff
  | randomGuess | resampleValues | pointDelete | blendingCrossover =>
    constructor
    · intro refused
      cases refused
    · intro breaks
      cases breaks

theorem permitted_of_check (h : op.check crowd count overrides = .ok ()) (cause : ArgumentError) :
    ¬op.Refuses crowd.length count overrides cause := by
  rw [← check_eq_error_iff, h]
  nofun

/-- No clones are wanted of an empty crowd. -/
theorem length_children_resampleAndClone
    (permitted : ∀ cause, ¬resampleAndClone.Refuses crowd.length count overrides cause) :
    (resampleAndClone.children crowd count overrides).Yields (·.length = count.getD 1) := by
  refine .dite (fun _ => .length_times _ _) fun empty => .pure (Eq.symm ?_)
  by_contra wanted
  exact permitted _ (.clone (by omega) (Nat.pos_of_ne_zero wanted))

/-- An empty crowd is asked for no children, as a count is for some. -/
theorem length_children_uniformBackboneCrossover {defaults : BreedingOptions}
    (permitted : ∀ cause,
      ¬(uniformBackboneCrossover defaults).Refuses crowd.length count overrides cause) :
    ((uniformBackboneCrossover defaults).children crowd count overrides).Yields
      (·.length = count.getD crowd.length) := by
  refine .dite (fun _ => .length_times _ _) fun nobody => .pure (Eq.symm ?_)
  have empty : crowd.length = 0 := by omega
  by_cases inside : 0 ≤ keepProbability defaults overrides ∧ keepProbability defaults overrides ≤ 1
  · cases given : count with
    | none => exact empty
    | some n =>
      by_contra wanted
      exact permitted _ (.backbones inside empty given (Nat.pos_of_ne_zero wanted))
  · exact absurd (.probability inside) (permitted _)

/-- Where the rules are kept, an empty crowd has children only of those that make them of nothing. -/
theorem length_children (permitted : ∀ cause, ¬op.Refuses crowd.length count overrides cause) :
    (op.children crowd count overrides).Yields (·.length = op.documented crowd count) := by
  cases op with
  | randomGuess types defaults => exact .length_times _ _
  | resampleAndClone => exact length_children_resampleAndClone permitted
  | resampleValues types defaults => exact .length_forEach _ _ _
  | uniformBackboneCrossover defaults => exact length_children_uniformBackboneCrossover permitted
  | pointCrossover =>
    refine .dite (fun _ => .length_times _ _) fun empty => ?_
    exact absurd (.graft (by omega)) (permitted _)
  | pointDelete => exact .length_forEach _ _ _
  | pointMutation types defaults => exact .length_forEach _ _ _
  | blendingCrossover types =>
    simp only [children, documented, ← pairCount_byLanguage]
    exact length_blendGroups _ _ _

/-- What comes of a call where there is room for so many children at once. -/
structure Brood (room : Nat) (op : Operator) (crowd : List Answer) (count : Option Nat)
    (overrides : BreedingOptions) : Prop where
  /-- A call is refused exactly if it breaks a rule, and with that rule. -/
  refused : ∀ cause, op.breedWithin room crowd count overrides = .error cause ↔
    op.Refuses crowd.length count overrides cause
  /-- Where there is room, a call that is accepted comes to the documented number of children on any
  words, unless a sampler fails on them. -/
  children : ∀ draw, op.breedWithin room crowd count overrides = .ok draw →
    op.reserved crowd count ≤ room → ∀ words position,
      (∃ children next, draw.runFrom words position = .ok (children, next) ∧
        children.length = op.documented crowd count) ∨
      ∃ cause, draw.runFrom words position = .error cause ∧ op.SamplerFails overrides words cause
  /-- No choice is made out of an empty range, but by a literal type. -/
  proper : ∀ draw, op.breedWithin room crowd count overrides = .ok draw →
    op.reserved crowd count ≤ room → draw.FailsOnly fun words cause =>
      cause ≠ .badRange ∧ cause ≠ .tooMany ∨ op.LiteralFails overrides words cause
  /-- All children become answers, unless a parent may be in the last generation. -/
  answers : ∀ draw, op.breedWithin room crowd count overrides = .ok draw →
    (op.isGuess = false → ∀ a ∈ crowd, a.Early) →
    draw.Yields fun children => ∀ supply, ∃ created later,
      Child.answers? supply children = some (created, later) ∧
        created.length = op.documented crowd count
  /-- Room is made for no more than the documented number. -/
  reserved : op.reserved crowd count ≤ op.documented crowd count
  /-- Without that room nothing is drawn. -/
  tooMany : ∀ draw, op.breedWithin room crowd count overrides = .ok draw →
    room < op.reserved crowd count →
    ∀ words position, draw.runFrom words position = .error .tooMany

theorem breedWithin_eq_error_iff {room : Nat} {cause : ArgumentError} :
    op.breedWithin room crowd count overrides = .error cause ↔
      op.check crowd count overrides = .error cause := by
  unfold breedWithin breed
  cases op.check crowd count overrides <;> simp [bind, Except.bind, pure, Except.pure]

theorem reserved_le_documented (op : Operator) (crowd : List Answer) (count : Option Nat) :
    op.reserved crowd count ≤ op.documented crowd count := by
  cases op with
  | blendingCrossover types => exact Nat.zero_le _
  | _ => exact le_rfl

/-- A call is refused for a rule, or comes to the documented number of children as far as there is room
for them and the samplers do not fail. -/
theorem breedWithin_yields_documented (room : Nat) (op : Operator) (crowd : List Answer)
    (count : Option Nat) (overrides : BreedingOptions) : op.Brood room crowd count overrides := by
  have number : ∀ draw, op.breedWithin room crowd count overrides = .ok draw →
      draw.Yields fun children => children.length = op.documented crowd count := by
    intro draw accepted
    obtain ⟨checked, _⟩ := breedWithin_eq_ok_iff.mp accepted
    exact yields_of_breedWithin accepted (length_children (permitted_of_check checked))
  have fails : ∀ draw, op.breedWithin room crowd count overrides = .ok draw →
      op.reserved crowd count ≤ room → draw.FailsOnly (op.SamplerFails overrides) := by
    intro draw accepted fits
    obtain ⟨_, rfl⟩ := breedWithin_eq_ok_iff.mp accepted
    rw [if_pos fits]
    exact op.failsOnly_children crowd count overrides
  refine ⟨fun cause => ?_, fun draw accepted fits => ?_, fun draw accepted fits => ?_, ?_,
    op.reserved_le_documented crowd count, ?_⟩
  · rw [breedWithin_eq_error_iff, check_eq_error_iff]
  · exact (number draw accepted).ok_or_error (fails draw accepted fits)
  · exact (fails draw accepted fits).mono fun _ _ failed => failed.proper_or_literal
  · intro draw accepted early words position children next drawn supply
    have made := yields_of_breedWithin accepted (yields_allMade op crowd count overrides)
      words position children next drawn
    obtain ⟨created, later, named, becomes⟩ := made.exists_answers early supply
    refine ⟨created, later, named, ?_⟩
    rw [← becomes.length_eq]
    exact number draw accepted words position children next drawn
  · intro draw accepted full words position
    obtain ⟨_, rfl⟩ := breedWithin_eq_ok_iff.mp accepted
    rw [if_neg (Nat.not_le.mpr full)]
    rfl

/-- Guesses with the built-in types: two children of nothing, and only words can fail. -/
theorem breedWithin_yields_documented_of_builtin_types :
    let op := Operator.randomGuess .builtin {}
    ∃ draw, op.breedWithin 2 [] (some 2) {} = .ok draw ∧ draw.Proper ∧
      draw.Yields fun children => children.length = 2 := by
  intro op
  have accepted : op.breedWithin 2 [] (some 2) {} = .ok (op.children [] (some 2) {}) := rfl
  have floats : op.FloatsInRange {} := by
    change GenerationOptions.FloatsInRange ((BreedingOptions.merge {} {}).generation {})
    decide +kernel
  have standard : op.Standard {} := ⟨.builtin, by constructor <;> simp [BreedingOptions.merge]⟩
  have law := breedWithin_yields_documented 2 op [] (some 2) {}
  refine ⟨_, accepted, ?_, ?_⟩
  · refine (law.proper _ accepted (by decide)).mono fun words cause => ?_
    rintro (proper | failed)
    · exact proper
    · exact standard.proper_of_literalFails floats failed
  · intro words position children next drawn
    rcases law.children _ accepted (by decide) words position with
      ⟨_, _, drawn', number⟩ | ⟨_, failed, _⟩
    · obtain ⟨rfl, _⟩ := Prod.mk.inj (Except.ok.inj (drawn.symm.trans drawn'))
      exact number
    · cases drawn.symm.trans failed

/-- A pair and what is left over of one language, and a single answer of another. -/
example : (blendingCrossover .builtin).documented
    (["a", "b", "a", "a"].map fun language => { Answer.new ⟨0⟩ .epoch .empty with language })
    (some 2) = 6 := by
  decide +kernel

/-- A child of an answer in the last generation is drawn but cannot become an answer. -/
theorem no_answers_after_last_generation :
    let last : Answer := { Answer.new ⟨1⟩ .epoch (.ofPoint (.instruction "a")) with
      progress := 0xFFFFFFFFFFFFFFFF }
    ∃ draw child, pointDelete.breedWithin 1 [last] none {} = .ok draw ∧
      pointDelete.documented [last] none = 1 ∧
      draw.runFrom ⟨fun _ => 0, 0⟩ 0 = .ok ([child], 1) ∧
      ∀ supply, Child.answers? supply [child] = none := by
  intro last
  exact ⟨_, ⟨.empty, [last]⟩, rfl, rfl, by decide +kernel, fun supply => rfl⟩

end Operator

end Evolution
