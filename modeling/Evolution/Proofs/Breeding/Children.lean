import Evolution.Literal.Builtin
import Evolution.Proofs.Breeding.Groups
import Evolution.Proofs.Program.Edit

/-! The children of every operator are well formed when the crowd is. -/

namespace Evolution

open Breeding Text

/-- Settings whose names code can hold. -/
structure BreedingOptions.WellNamed (o : BreedingOptions) : Prop where
  instructions : ∀ name ∈ o.instructions.getD [], IsName name.toList
  references : ∀ name ∈ o.references.getD [], IsName name.toList

theorem BreedingOptions.WellNamed.generation {o : BreedingOptions} (h : o.WellNamed)
    (size : Nat) : GenerationOptions.WellNamed { o.generation {} with size } :=
  ⟨h.instructions, h.references⟩

theorem Answer.wellFormed_deletePoint {a : Answer} (h : a.program.WellFormed) (i : Nat) :
    (a.deletePoint i).WellFormed := by
  unfold Answer.deletePoint
  cases deleted : a.program.deletePoint i with
  | error e => exact h
  | ok q => exact h.deletePoint deleted

theorem Answer.wellFormed_replacePoint {a : Answer} (h : a.program.WellFormed) (i : Nat) {q : Point}
    (new : q.WellFormed) : (a.replacePoint i q).WellFormed := by
  unfold Answer.replacePoint
  cases replaced : a.program.replacePoint i q with
  | error e => exact h
  | ok q => exact h.replacePoint new replaced

namespace Breeding

def WellFormedChildren (children : List Child) : Prop := ∀ c ∈ children, c.program.WellFormed

variable {types : Registry} {o : BreedingOptions} {crowd : List Answer}

theorem yields_guess (sound : types.WellFormed) (named : o.WellNamed) (count : Nat) :
    (guess types o count).Yields WellFormedChildren := by
  refine Draw.Yields.times ?_ count
  exact (yields_randomProgram sound (named.generation _)).bind fun _ good => .pure good

theorem yields_cloneSome (all : ∀ a ∈ crowd, a.program.WellFormed) (count : Nat) :
    (cloneSome crowd count).Yields WellFormedChildren := by
  unfold cloneSome
  split
  · refine Draw.Yields.times ?_ count
    exact (Draw.yields_someone _).bind fun donor member => .pure (all donor member)
  · exact .pure (by simp [WellFormedChildren])

theorem yields_resampled (sound : types.WellFormed) (named : o.WellNamed) (half : Nat)
    {note : Footnote} (h : note.WellFormed) :
    (resampled types o half note).Yields (IsBody ·.toList) := by
  apply Draw.Yields.afterAny
  intro size
  refine (sound.random (named.generation size) note.tag).bind ?_
  intro found bodies
  apply Draw.Yields.pure
  cases found with
  | none => exact h.text
  | some text => exact bodies text rfl

theorem yields_resample (sound : types.WellFormed) (named : o.WellNamed) {parent : Answer}
    (h : parent.program.WellFormed) :
    (resample types o parent).Yields (·.program.WellFormed) :=
  (h.mapTexts fun _ => yields_resampled sound named _).bind fun _ good => .pure good

theorem yields_dropPoint {parent : Answer} (h : parent.program.WellFormed) :
    (dropPoint parent).Yields (·.program.WellFormed) :=
  .afterAny fun i => .pure (Answer.wellFormed_deletePoint h i)

theorem yields_mutatePoint (sound : types.WellFormed) (named : o.WellNamed) {parent : Answer}
    (h : parent.program.WellFormed) : (mutatePoint types o parent).Yields (·.program.WellFormed) := by
  apply Draw.Yields.afterAny
  intro i
  refine (yields_randomPoint sound (named.generation _) _).bind ?_
  intro fresh good
  apply Draw.Yields.pure
  exact Answer.wellFormed_replacePoint h i good

theorem yields_crossSlots {p : Float} {mom dad : List Point} (hm : ∀ slot ∈ mom, slot.WellFormed)
    (hd : ∀ slot ∈ dad, slot.WellFormed) :
    (crossSlots p mom dad).Yields fun slots => ∀ slot ∈ slots, slot.WellFormed := by
  induction mom generalizing dad with
  | nil => exact .pure (by simp)
  | cons slot rest ih =>
    rw [List.forall_mem_cons] at hm
    have others := ih hm.2 fun q member => hd q (List.mem_of_mem_tail member)
    apply Draw.Yields.afterAny
    intro x
    refine others.bind ?_
    intro tail good
    refine .ite (.pure ?_) (.pure ?_)
    · exact List.forall_mem_cons.mpr ⟨hm.1, good⟩
    · intro q member
      rcases List.mem_append.mp member with member | member
      · exact hd q (List.mem_of_mem_head? (Option.mem_toList.mp member))
      · exact good q member

theorem yields_crossBackbones {p : Float} {mom dad : Program} (hm : mom.WellFormed)
    (hd : dad.WellFormed) : (crossBackbones p mom dad).Yields Program.WellFormed := by
  refine (yields_crossSlots hm.backbone hd.backbone).bind ?_
  intro slots good
  apply Draw.Yields.pure
  exact hm.withRoot (Point.wellFormed_block.mpr good)

theorem yields_crossNeighbours (p : Float) (all : ∀ a ∈ crowd, a.program.WellFormed)
    (h : 0 < crowd.length) : (crossNeighbours p crowd h).Yields (·.program.WellFormed) := by
  apply Draw.Yields.afterAny
  intro i
  refine (yields_crossBackbones ?_ ?_).bind fun _ good => .pure good
  · exact all _ (List.getElem_mem i.isLt)
  · exact all _ (List.getElem_mem (Nat.mod_lt _ h))

theorem yields_graft (all : ∀ a ∈ crowd, a.program.WellFormed) (h : 0 < crowd.length) :
    (graft crowd h).Yields (·.program.WellFormed) := by
  refine (Draw.yields_someone h).bind ?_
  intro mom receiver
  refine (Draw.yields_someone h).bind ?_
  intro dad donor
  apply Draw.Yields.afterAny
  intro i
  apply Draw.Yields.afterAny
  intro j
  apply Draw.Yields.pure
  cases found : dad.program.point j with
  | error e => simpa [found] using all mom receiver
  | ok q =>
    have new := (all dad donor).point found
    simpa [found] using Answer.wellFormed_replacePoint (all mom receiver) i new

theorem yields_blendGroups (sound : types.WellFormed) {groups : List (List Answer)}
    (all : ∀ group ∈ groups, ∀ a ∈ group, a.program.WellFormed) (count : Nat) :
    (blendGroups types count groups).Yields WellFormedChildren := by
  refine (yields_blendGroups_pair types count groups).mono ?_
  intro children made c member
  obtain ⟨group, grouped, mom, receiver, dad, donor, _, words, position, next, drawn⟩ := made c member
  have hm := all group grouped mom receiver
  have hd := all group grouped dad donor
  exact hm.blend sound hd words position c.program next drawn

end Breeding

namespace Operator

/-- An operator whose types and settings, where it has any, can only make well-formed programs. -/
def WellFormed (overrides : BreedingOptions) : Operator → Prop
  | randomGuess types defaults => types.WellFormed ∧ (defaults.merge overrides).WellNamed
  | resampleValues types defaults => types.WellFormed ∧ (defaults.merge overrides).WellNamed
  | pointMutation types defaults => types.WellFormed ∧ (defaults.merge overrides).WellNamed
  | blendingCrossover types => types.WellFormed
  | resampleAndClone => True
  | uniformBackboneCrossover _ => True
  | pointCrossover => True
  | pointDelete => True

theorem yields_children {op : Operator} {crowd : List Answer} {overrides : BreedingOptions}
    (sound : op.WellFormed overrides) (all : ∀ a ∈ crowd, a.program.WellFormed)
    (count : Option Nat) : (op.children crowd count overrides).Yields WellFormedChildren := by
  have none : WellFormedChildren [] := by simp [WellFormedChildren]
  cases op with
  | randomGuess types defaults => exact yields_guess sound.1 sound.2 _
  | resampleAndClone => exact yields_cloneSome all _
  | resampleValues types defaults =>
    exact .forEach (fun a member => yields_resample sound.1 sound.2 (all a member)) _
  | uniformBackboneCrossover defaults =>
    exact .dite (fun h => .times (yields_crossNeighbours _ all h) _) fun _ => .pure none
  | pointCrossover =>
    exact .dite (fun h => .times (yields_graft all h) _) fun _ => .pure none
  | pointDelete => exact .forEach (fun a member => yields_dropPoint (all a member)) _
  | pointMutation types defaults =>
    exact .forEach (fun a member => yields_mutatePoint sound.1 sound.2 (all a member)) _
  | blendingCrossover types =>
    refine yields_blendGroups sound (fun group member a ha => ?_) _
    exact all a (mem_of_mem_groups member a ha)

variable {op : Operator} {crowd : List Answer} {count : Option Nat} {overrides : BreedingOptions}
  {draw : Draw (List Child)}

theorem breed_eq_ok_iff : op.breed crowd count overrides = .ok draw ↔
    op.check crowd count overrides = .ok () ∧ draw = op.children crowd count overrides := by
  unfold breed
  cases op.check crowd count overrides <;> simp [bind, Except.bind, pure, Except.pure, eq_comm]

theorem breedWithin_eq_ok_iff {room : Nat} :
    op.breedWithin room crowd count overrides = .ok draw ↔
      op.check crowd count overrides = .ok () ∧
        draw = if op.reserved crowd count ≤ room then op.children crowd count overrides
          else Draw.fault .tooMany := by
  unfold breedWithin breed
  cases op.check crowd count overrides <;> simp [bind, Except.bind, pure, Except.pure, eq_comm]

/-- What the children of a call come to, a call that is accepted comes to. -/
theorem yields_of_breed {good : List Child → Prop} (accepted : op.breed crowd count overrides = .ok draw)
    (h : (op.children crowd count overrides).Yields good) : draw.Yields good := by
  obtain ⟨_, rfl⟩ := breed_eq_ok_iff.mp accepted
  exact h

/-- The same where room may run out, since then the call fails before anything is drawn. -/
theorem yields_of_breedWithin {room : Nat} {good : List Child → Prop}
    (accepted : op.breedWithin room crowd count overrides = .ok draw)
    (h : (op.children crowd count overrides).Yields good) : draw.Yields good := by
  obtain ⟨_, rfl⟩ := breedWithin_eq_ok_iff.mp accepted
  exact .ite h .fault

/-- A call that is accepted breeds well-formed programs from a crowd of well-formed ones. -/
theorem yields_breed (sound : op.WellFormed overrides) (all : ∀ a ∈ crowd, a.program.WellFormed)
    (accepted : op.breed crowd count overrides = .ok draw) : draw.Yields WellFormedChildren :=
  yields_of_breed accepted (yields_children sound all count)

end Operator

end Evolution
