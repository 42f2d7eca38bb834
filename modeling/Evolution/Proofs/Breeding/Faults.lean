import Evolution.Proofs.Breeding.Lineage
import Evolution.Proofs.Breeding.Values
import Evolution.Proofs.Generation.Trees
import Evolution.Proofs.Point.Blending

/-! Why a call may fail that is accepted. What an operator draws comes to its children unless a sampler
fails on the words. Operators ask properly for what they draw themselves, for no number below zero and
no point of none; with literals this depends on their types, of which the built-in ones need a range of
floats that is not empty and not too wide. -/

namespace Evolution

open Breeding

/-- The choices of random code are proper, those of the literal types apart. -/
theorem ChoiceFails.proper_or_text {o : GenerationOptions} {types : Registry} {words : Words}
    {cause : DrawFault} (h : ChoiceFails o types words cause) :
    cause ≠ .badRange ∧ cause ≠ .tooMany ∨ ∃ tag, (types.random tag o).Fails words cause := by
  cases h with
  | nesting failed => exact .inl (failed.proper (Draw.proper_chance _))
  | size failed => exact .inl (failed.proper (Draw.proper_below 64 _ _))
  | kind failed => exact .inl (failed.proper (Draw.proper_weighted _))
  | instruction failed | reference failed | type failed =>
    exact .inl (failed.proper (Draw.proper_member _))
  | text usable failed => exact .inr ⟨_, failed⟩

namespace Operator

/-- A choice that the random code of the operator is made of fails, if it makes any. -/
def CodeFails (overrides : BreedingOptions) (words : Words) (cause : DrawFault) : Operator → Prop
  | randomGuess types defaults | pointMutation types defaults =>
    ChoiceFails ((defaults.merge overrides).generation {}) types words cause
  | resampleAndClone | resampleValues .. | uniformBackboneCrossover _ | pointCrossover | pointDelete
  | blendingCrossover _ => False

/-- The sampler of a literal type fails, if the operator has types. -/
def LiteralFails (overrides : BreedingOptions) (words : Words) (cause : DrawFault) : Operator → Prop
  | randomGuess types defaults | resampleValues types defaults | pointMutation types defaults =>
    ∃ tag size, Draw.Fails
      (types.random tag { (defaults.merge overrides).generation {} with size }) words cause
  | blendingCrossover types => Point.TextFails types words cause
  | resampleAndClone | uniformBackboneCrossover _ | pointCrossover | pointDelete => False

/-- A sampler of the operator fails on the words. -/
inductive SamplerFails (op : Operator) (overrides : BreedingOptions) (words : Words)
    (cause : DrawFault) : Prop
  | number (stalled : Draw.Stalls words cause)
  | code (failed : op.CodeFails overrides words cause)
  | literal (failed : op.LiteralFails overrides words cause)

end Operator

namespace Breeding

variable {types : Registry} {causes : Words → DrawFault → Prop}

theorem failsOnly_guess (o : BreedingOptions) (n : Nat) :
    (guess types o n).FailsOnly (ChoiceFails (o.generation {}) types) :=
  .times (.bind (.bind (failsOnly_randomPoint _) fun _ _ => .pure _) fun _ _ => .pure _) n

theorem failsOnly_cloneSome (crowd : List Answer) (n : Nat) :
    (cloneSome crowd n).FailsOnly Draw.Stalls := by
  refine .dite (fun pos => ?_) fun _ => .pure _
  exact .times (.bind (Draw.failsOnly_someone pos) fun _ _ => .pure _) n

theorem failsOnly_dropPoint (parent : Answer) : (dropPoint parent).FailsOnly Draw.Stalls :=
  .bind (Draw.failsOnly_pointOf _) fun _ _ => .pure _

theorem failsOnly_mutatePoint (o : BreedingOptions) (parent : Answer) :
    (mutatePoint types o parent).FailsOnly fun words cause =>
      Draw.Stalls words cause ∨ ChoiceFails (o.generation {}) types words cause := by
  refine .bind ((Draw.failsOnly_pointOf _).mono fun _ _ => .inl) fun _ _ => ?_
  exact .bind ((failsOnly_randomPoint _).mono fun _ _ => .inr) fun _ _ => .pure _

theorem failsOnly_blendPair (pair : Answer × Answer) :
    (blendPair types pair).FailsOnly (Point.TextFails types) :=
  ((Point.failsOnly_blend pair.1.program.root _).bind fun _ _ => .pure _).bind fun _ _ => .pure _

theorem failsOnly_blendGroups (count : Nat) (groups : List (List Answer)) :
    (blendGroups types count groups).FailsOnly fun words cause =>
      Draw.Stalls words cause ∨ Point.TextFails types words cause := by
  induction groups with
  | nil => exact .pure _
  | cons group rest ih =>
    refine ((Draw.failsOnly_shuffle group).mono fun _ _ => .inl).bind fun order _ => ?_
    refine .bind (.forEach (fun pair _ => ?_) count) fun _ _ => ih.bind fun _ _ => .pure _
    exact (failsOnly_blendPair pair).mono fun _ _ => .inr

theorem failsOnly_crossSlots (p : Float) (mom dad : List Point) :
    (crossSlots p mom dad).FailsOnly causes := by
  induction mom generalizing dad with
  | nil => exact .pure _
  | cons slot rest ih =>
    refine Draw.failsOnly_unit.bind fun _ _ => (ih dad.tail).bind fun _ _ => ?_
    split
    · exact .pure _
    · exact .pure _

theorem failsOnly_crossNeighbours (p : Float) (crowd : List Answer) (h : 0 < crowd.length) :
    (crossNeighbours p crowd h).FailsOnly Draw.Stalls :=
  (Draw.failsOnly_below 64 _ h).bind fun _ _ =>
    ((failsOnly_crossSlots _ _ _).bind fun _ _ => .pure _).bind fun _ _ => .pure _

theorem failsOnly_graft (crowd : List Answer) (h : 0 < crowd.length) :
    (graft crowd h).FailsOnly Draw.Stalls := by
  refine (Draw.failsOnly_someone h).bind fun mom _ => (Draw.failsOnly_someone h).bind fun dad _ => ?_
  exact (Draw.failsOnly_pointOf _).bind fun _ _ => (Draw.failsOnly_pointOf _).bind fun _ _ => .pure _

end Breeding

namespace Operator

variable {op : Operator} {overrides : BreedingOptions} {words : Words} {cause : DrawFault}

/-- On any words a call makes its children, or a sampler fails. -/
theorem failsOnly_children (op : Operator) (crowd : List Answer) (count : Option Nat)
    (overrides : BreedingOptions) :
    (op.children crowd count overrides).FailsOnly (op.SamplerFails overrides) := by
  cases op with
  | randomGuess types defaults =>
    exact (failsOnly_guess _ _).mono fun _ _ failed => .code failed
  | resampleAndClone => exact (failsOnly_cloneSome _ _).mono fun _ _ => .number
  | resampleValues types defaults =>
    refine .forEach (fun parent _ => (failsOnly_resample parent).mono ?_) _
    rintro words cause (⟨positive, failed⟩ | failed)
    · exact .number ⟨64, _, positive, failed⟩
    · exact .literal ⟨_, _, failed⟩
  | uniformBackboneCrossover defaults =>
    refine .dite (fun pos => ?_) fun _ => .pure _
    exact .times ((failsOnly_crossNeighbours _ _ pos).mono fun _ _ => .number) _
  | pointCrossover =>
    refine .dite (fun pos => ?_) fun _ => .pure _
    exact .times ((failsOnly_graft crowd pos).mono fun _ _ => .number) _
  | pointDelete =>
    exact .forEach (fun parent _ => (failsOnly_dropPoint parent).mono fun _ _ => .number) _
  | pointMutation types defaults =>
    refine .forEach (fun parent _ => (failsOnly_mutatePoint _ parent).mono ?_) _
    rintro words cause (stalled | failed)
    · exact .number stalled
    · exact .code failed
  | blendingCrossover types =>
    refine (failsOnly_blendGroups _ _).mono ?_
    rintro words cause (stalled | failed)
    · exact .number stalled
    · exact .literal failed

theorem CodeFails.proper_or_literal (h : op.CodeFails overrides words cause) :
    cause ≠ .badRange ∧ cause ≠ .tooMany ∨ op.LiteralFails overrides words cause := by
  cases op with
  | randomGuess types defaults | pointMutation types defaults =>
    refine h.proper_or_text.imp_right ?_
    rintro ⟨tag, failed⟩
    exact ⟨tag, _, failed⟩
  | resampleAndClone | resampleValues | uniformBackboneCrossover | pointCrossover | pointDelete
  | blendingCrossover => exact h.elim

/-- What an operator draws itself is drawn out of a range that is not empty. -/
theorem SamplerFails.proper_or_literal (h : op.SamplerFails overrides words cause) :
    cause ≠ .badRange ∧ cause ≠ .tooMany ∨ op.LiteralFails overrides words cause := by
  cases h with
  | number stalled => exact .inl stalled.proper
  | code failed => exact failed.proper_or_literal
  | literal failed => exact .inr failed

end Operator

namespace LiteralType

theorem sortedInts_le (a b : Int64) : (sortedInts a b).1 ≤ (sortedInts a b).2 := by
  unfold sortedInts
  split
  · next below => exact Int64.le_of_lt below
  · next above => exact Int64.not_lt.mp above

theorem proper_intBetween (a b : Int64) : (intBetween a b).Proper :=
  (Draw.proper_int64Between (sortedInts_le a b)).bind fun _ => .pure _

theorem proper_either (a b : String) : (either a b).Proper :=
  (Draw.proper_chance _).bind fun _ => .pure _

end LiteralType

/-- The range of random floats is neither empty nor too wide. -/
def GenerationOptions.FloatsInRange (o : GenerationOptions) : Prop :=
  let bounds := LiteralType.sortedFloats o.floatRange.1 o.floatRange.2
  Draw.FloatRange bounds.1 bounds.2

instance (o : GenerationOptions) : Decidable o.FloatsInRange :=
  inferInstanceAs (Decidable (Draw.FloatRange _ _))

/-- The type draws properly wherever floats can be drawn. -/
structure LiteralType.Proper (type : LiteralType) : Prop where
  random : ∀ o : GenerationOptions, o.FloatsInRange → (type.random o).Proper
  blend : ∀ a b, (type.blend a b).Proper

namespace LiteralType

theorem proper_int : int.Proper where
  random o _ := proper_intBetween _ _
  blend a b := by
    simp only [int]
    split
    · exact proper_intBetween _ _
    · exact .pure a

theorem proper_float : float.Proper where
  random o within := (Draw.proper_floatBetween within).bind fun _ => .pure _
  blend a b := by
    simp only [float]
    split
    · exact Draw.proper_unit.bind fun _ => .pure _
    · exact .pure a

theorem proper_bool : bool.Proper where
  random _ _ := (Draw.proper_chance _).bind fun _ => .pure _
  blend := proper_either

theorem proper_code : code.Proper where
  random o _ := by
    refine Draw.FailsOnly.bind ((failsOnly_randomPoint _).mono ?_) fun _ _ => .pure _
    intro words cause choice
    rcases choice.proper_or_text with proper | ⟨tag, position, run⟩
    · exact proper
    · cases run
  blend := proper_either

end LiteralType

namespace Registry.Standard

theorem proper {types : Registry} (h : types.Standard) :
    ∀ name type, types.types.get? name = some type → type.Proper := by
  intro name type found
  have member := (h.ofBuiltins name type found).2
  simp only [LiteralType.builtins, List.mem_cons, List.not_mem_nil, or_false] at member
  obtain rfl | rfl | rfl | rfl := member
  · exact LiteralType.proper_int
  · exact LiteralType.proper_float
  · exact LiteralType.proper_bool
  · exact LiteralType.proper_code

theorem proper_random {types : Registry} (h : types.Standard) {o : GenerationOptions}
    (within : o.FloatsInRange) (tag : String) (size : Nat) :
    (types.random tag { o with size }).Proper := by
  unfold Registry.random
  cases found : types.types.get? tag with
  | none => exact .pure none
  | some type =>
    exact ((h.proper tag type found).random { o with size } within).bind fun _ => .pure _

theorem proper_blend {types : Registry} (h : types.Standard) (tag a b : String) :
    (types.blend tag a b).Proper := by
  unfold Registry.blend
  cases found : types.types.get? tag with
  | none => exact .pure a
  | some type => exact (h.proper tag type found).blend a b

end Registry.Standard

namespace Operator

/-- Where the operator draws random literals, floats are in range. -/
def FloatsInRange (overrides : BreedingOptions) : Operator → Prop
  | randomGuess _ defaults | resampleValues _ defaults | pointMutation _ defaults =>
    GenerationOptions.FloatsInRange ((defaults.merge overrides).generation {})
  | blendingCrossover _ | resampleAndClone | uniformBackboneCrossover _ | pointCrossover
  | pointDelete => True

theorem Standard.proper_of_literalFails {op : Operator} {overrides : BreedingOptions} {words : Words}
    {cause : DrawFault} (h : op.Standard overrides) (within : op.FloatsInRange overrides)
    (failed : op.LiteralFails overrides words cause) : cause ≠ .badRange ∧ cause ≠ .tooMany := by
  cases op with
  | randomGuess | resampleValues | pointMutation =>
    obtain ⟨tag, size, failed⟩ := failed
    exact failed.proper (h.1.proper_random within tag size)
  | blendingCrossover =>
    obtain ⟨tag, a, b, failed⟩ := failed
    exact failed.proper (Registry.Standard.proper_blend h tag a b)
  | resampleAndClone | uniformBackboneCrossover | pointCrossover | pointDelete => exact failed.elim

end Operator

end Evolution
