import Evolution.Program.Blend
import Evolution.Program.Edit
import Evolution.Proofs.Blueprint.RoundTrip
import Evolution.Proofs.Generation.Code
import Evolution.Proofs.Point.Edit

/-! Edits and blends of well-formed programs are well formed. Edits are possible at every point. -/

namespace Evolution

open Text

namespace Point.WellFormed

theorem get? {p q : Point} {i : Nat} (h : p.WellFormed) (found : p.get? i = some q) :
    q.WellFormed :=
  fun r member => h r (preorder_subset_of_get? found member)

theorem replace? {p p' r : Point} {i : Nat} (h : p.WellFormed) (new : r.WellFormed)
    (replaced : p.replace? i r = some p') : p'.WellFormed :=
  forall_of_replace? (fun _ => wellFormed_block) replaced h new

theorem delete? {p p' : Point} {i : Nat} (h : p.WellFormed) (deleted : p.delete? i = some p') :
    p'.WellFormed :=
  forall_of_delete? (fun _ => wellFormed_block) deleted h

theorem emptyBlock : Point.emptyBlock.WellFormed := wellFormed_block.mpr (by simp)

variable {types : Registry}

theorem pick {p q : Point} (hp : p.WellFormed) (hq : q.WellFormed) :
    (p.pick q).Yields Point.WellFormed := by
  apply Draw.Yields.afterAny
  intro heads
  apply Draw.Yields.pure
  cases heads
  · exact hq
  · exact hp

mutual

theorem blend (h : types.WellFormed) : ∀ {p q : Point}, p.WellFormed → q.WellFormed →
    (p.blend types q).Yields Point.WellFormed
  | .block ps, .block qs, hp, hq => by
    rw [wellFormed_block] at hp hq
    exact (blendIn h hp hq).bind fun _ good => .pure (wellFormed_block.mpr good)
  | .literal a, .literal b, hp, hq => by
    rw [Point.blend]
    split
    · have first := wellFormed_literal.mp hp
      have second := wellFormed_literal.mp hq
      refine (h.blend a.tag first.text second.text).bind ?_
      intro text body
      apply Draw.Yields.pure
      exact wellFormed_literal.mpr ⟨first.tag, body⟩
    · exact pick hp hq
  | .block _, .instruction _, hp, hq => pick hp hq
  | .block _, .reference _, hp, hq => pick hp hq
  | .block _, .literal _, hp, hq => pick hp hq
  | .instruction _, q, hp, hq => by cases q <;> exact pick hp hq
  | .reference _, q, hp, hq => by cases q <;> exact pick hp hq
  | .literal _, .block _, hp, hq => pick hp hq
  | .literal _, .instruction _, hp, hq => pick hp hq
  | .literal _, .reference _, hp, hq => pick hp hq

theorem blendIn (h : types.WellFormed) : ∀ {ps qs : List Point}, (∀ p ∈ ps, p.WellFormed) →
    (∀ q ∈ qs, q.WellFormed) → (Point.blendIn types ps qs).Yields fun rs => ∀ r ∈ rs, r.WellFormed
  | [], _, _, _ => .pure (by simp)
  | _ :: _, [], hp, _ => .pure hp
  | p :: ps, q :: qs, hp, hq => by
    rw [List.forall_mem_cons] at hp hq
    refine (blend h hp.1 hq.1).bind ?_
    intro r first
    refine (blendIn h hp.2 hq.2).bind ?_
    intro rs others
    apply Draw.Yields.pure
    exact List.forall_mem_cons.mpr ⟨first, others⟩

end

variable {f : Footnote → Draw String}

mutual

theorem mapTexts (h : ∀ note : Footnote, note.WellFormed → (f note).Yields (IsBody ·.toList)) :
    ∀ {p : Point}, p.WellFormed → (p.mapTexts f).Yields Point.WellFormed
  | .block ps, hp => by
    rw [wellFormed_block] at hp
    exact (mapTextsIn h hp).bind fun _ good => .pure (wellFormed_block.mpr good)
  | .instruction _, hp => .pure hp
  | .reference _, hp => .pure hp
  | .literal note, hp => by
    rw [wellFormed_literal] at hp
    exact (h note hp).bind fun _ body => .pure (wellFormed_literal.mpr ⟨hp.tag, body⟩)

theorem mapTextsIn (h : ∀ note : Footnote, note.WellFormed → (f note).Yields (IsBody ·.toList)) :
    ∀ {ps : List Point}, (∀ p ∈ ps, p.WellFormed) →
      (Point.mapTextsIn f ps).Yields fun rs => ∀ r ∈ rs, r.WellFormed
  | [], _ => .pure (by simp)
  | p :: ps, hp => by
    rw [List.forall_mem_cons] at hp
    refine (mapTexts h hp.1).bind ?_
    intro r first
    refine (mapTextsIn h hp.2).bind ?_
    intro rs others
    apply Draw.Yields.pure
    exact List.forall_mem_cons.mpr ⟨first, others⟩

end

end Point.WellFormed

namespace Program.WellFormed

variable {p q : Program}

theorem ofPoint {root : Point} (h : root.WellFormed) : (Program.ofPoint root).WellFormed :=
  ⟨h, by simp [Program.ofPoint]⟩

theorem withRoot (h : p.WellFormed) {root : Point} (new : root.WellFormed) :
    ({ p with root } : Program).WellFormed :=
  ⟨new, h.unused⟩

theorem point (h : p.WellFormed) {i : Nat} {inside : Point} (found : p.point i = .ok inside) :
    inside.WellFormed := by
  unfold Program.point at found
  split at found
  · next same =>
    obtain rfl := Except.ok.inj found
    exact h.root.get? same
  · simp at found

theorem subtree (h : p.WellFormed) {i : Nat} (cut : p.subtree i = .ok q) : q.WellFormed := by
  unfold Program.subtree at cut
  cases found : p.point i with
  | error e => simp [found, Except.map] at cut
  | ok inside =>
    simp only [found, Except.map, Except.ok.injEq] at cut
    exact cut ▸ ofPoint (h.point found)

theorem deletePoint (h : p.WellFormed) {i : Nat} (deleted : p.deletePoint i = .ok q) :
    q.WellFormed := by
  unfold Program.deletePoint at deleted
  split at deleted
  · obtain rfl := Except.ok.inj deleted
    exact h.withRoot .emptyBlock
  · split at deleted
    · next root same =>
      obtain rfl := Except.ok.inj deleted
      exact h.withRoot (h.root.delete? same)
    · simp at deleted

theorem replacePoint (h : p.WellFormed) {i : Nat} {new : Point} (good : new.WellFormed)
    (replaced : p.replacePoint i new = .ok q) : q.WellFormed := by
  unfold Program.replacePoint at replaced
  split at replaced
  · next root same =>
    obtain rfl := Except.ok.inj replaced
    exact h.withRoot (h.root.replace? good same)
  · simp at replaced

theorem appendUnused (h : p.WellFormed) {notes : List Footnote}
    (good : ∀ note ∈ notes, note.WellFormed) : (p.appendUnused notes).WellFormed := by
  refine ⟨h.root, fun note member => ?_⟩
  rcases List.mem_append.mp member with member | member
  · exact h.unused note member
  · exact good note member

theorem replaceWithText (h : p.WellFormed) {i : Nat} {text : String}
    (replaced : p.replaceWithText i text = .ok q) : q.WellFormed := by
  unfold Program.replaceWithText at replaced
  split at replaced
  · simp at replaced
  · next donor read =>
    have good : donor.WellFormed := wellFormed_of_read read
    cases edited : p.replacePoint i donor.root with
    | error e => simp [edited, Except.map] at replaced
    | ok p' =>
      simp only [edited, Except.map, Except.ok.injEq] at replaced
      exact replaced ▸ (h.replacePoint good.root edited).appendUnused good.unused

theorem blend {types : Registry} (sound : types.WellFormed) (hp : p.WellFormed) (hq : q.WellFormed) :
    (Program.blend types p q).Yields Program.WellFormed :=
  (hp.root.blend sound hq.root).bind fun _ good => .pure (hp.withRoot good)

theorem mapTexts {f : Footnote → Draw String}
    (sound : ∀ note : Footnote, note.WellFormed → (f note).Yields (IsBody ·.toList))
    (h : p.WellFormed) : (p.mapTexts f).Yields Program.WellFormed := by
  have unused : ∀ notes : List Footnote, (∀ note ∈ notes, note.WellFormed) →
      (notes.mapM fun note => return { note with text := ← f note }).Yields
        fun made => ∀ note ∈ made, note.WellFormed := by
    intro notes good
    induction notes with
    | nil => exact .pure (by simp)
    | cons note notes ih =>
      rw [List.forall_mem_cons] at good
      rw [List.mapM_cons]
      have first : (do return { note with text := ← f note } : Draw Footnote).Yields
          Footnote.WellFormed :=
        (sound note good.1).bind fun _ body => .pure ⟨good.1.tag, body⟩
      refine first.bind ?_
      intro _ made
      refine (ih good.2).bind ?_
      intro _ others
      apply Draw.Yields.pure
      exact List.forall_mem_cons.mpr ⟨made, others⟩
  refine (h.root.mapTexts sound).bind ?_
  intro root good
  exact (unused p.unused h.unused).bind fun _ made => .pure ⟨good, made⟩

theorem backbone (h : p.WellFormed) : ∀ slot ∈ p.backbone, slot.WellFormed := by
  have root := h.root
  unfold Program.backbone
  split
  · next inner same =>
    rw [same] at root
    exact Point.wellFormed_block.mp root
  · exact List.forall_mem_singleton.mpr root

end Program.WellFormed

namespace Program

variable {p : Program} {i : Nat}

theorem point_eq_ok_iff {q : Point} : p.point i = .ok q ↔ p.root.get? i = some q := by
  unfold point
  cases p.root.get? i <;> simp

theorem inside_of_point {u : Point} (found : p.point i = .ok u) : 1 ≤ i ∧ i ≤ p.size :=
  Point.isSome_get?_iff.mp (Option.isSome_iff_exists.mpr ⟨u, point_eq_ok_iff.mp found⟩)

theorem exists_point (pos : 0 < i) (within : i ≤ p.size) : ∃ q, p.point i = .ok q := by
  obtain ⟨q, found⟩ := Option.isSome_iff_exists.mp (Point.isSome_get?_iff.mpr ⟨pos, within⟩)
  exact ⟨q, by rw [point, found]⟩

theorem exists_replacePoint (q : Point) (pos : 0 < i) (within : i ≤ p.size) :
    ∃ edited, p.replacePoint i q = .ok edited := by
  have there := (Point.isSome_replace? q p.root i).trans (Point.isSome_get?_iff.mpr ⟨pos, within⟩)
  obtain ⟨root, replaced⟩ := Option.isSome_iff_exists.mp there
  exact ⟨{ p with root }, by rw [replacePoint, replaced]⟩

theorem exists_deletePoint (pos : 0 < i) (within : i ≤ p.size) :
    ∃ edited, p.deletePoint i = .ok edited := by
  unfold deletePoint
  split
  · exact ⟨_, rfl⟩
  · have inside : 1 < i ∧ i ≤ p.root.size := ⟨by omega, within⟩
    obtain ⟨root, deleted⟩ := Option.isSome_iff_exists.mp (Point.isSome_delete?_iff.mpr inside)
    exact ⟨{ p with root }, by rw [deleted]⟩

end Program

end Evolution
