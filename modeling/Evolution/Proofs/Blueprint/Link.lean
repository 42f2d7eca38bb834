import Evolution.Proofs.Blueprint.Code

/-! Linking footnotes to literals. The pool is dealt out without loss: what the literals take and
what is left over are together the pool. A tree takes its own footnotes when they come first. -/

namespace Evolution.Blueprint

theorem claim?_cons_self (note : Footnote) (pool : List Footnote) :
    claim? note.tag (note :: pool) = some (note, pool) := by
  simp [claim?]

theorem claim?_sound {tag : String} {pool left : List Footnote} {found : Footnote}
    (claimed : claim? tag pool = some (found, left)) :
    found.tag = tag ∧ (found :: left).Perm pool := by
  induction pool generalizing found left with
  | nil => simp [claim?] at claimed
  | cons note pool ih =>
    rw [claim?] at claimed
    split at claimed
    · next same =>
      obtain ⟨rfl, rfl⟩ := Prod.mk.inj (Option.some.inj claimed)
      exact ⟨same, .refl _⟩
    · obtain ⟨⟨other, rest⟩, further, same⟩ := Option.map_eq_some_iff.mp claimed
      obtain ⟨rfl, rfl⟩ := Prod.mk.inj same
      obtain ⟨tagged, perm⟩ := ih further
      exact ⟨tagged, (List.Perm.swap note other rest).trans (perm.cons note)⟩

theorem link_block_eq_ok_iff {inner : List Point} {pool left : List Footnote} {q : Point} :
    link (.block inner) pool = .ok (q, left) ↔
      ∃ linked, linkIn inner pool = .ok (linked, left) ∧ q = .block linked := by
  rw [link]
  cases linkIn inner pool with
  | error e => simp [Except.map]
  | ok found =>
    obtain ⟨linked, rest⟩ := found
    simp only [Except.map, Except.ok.injEq, Prod.mk.injEq]
    constructor
    · rintro ⟨rfl, rfl⟩
      exact ⟨linked, ⟨rfl, rfl⟩, rfl⟩
    · rintro ⟨_, ⟨rfl, rfl⟩, rfl⟩
      exact ⟨rfl, rfl⟩

theorem linkIn_cons_eq_ok_iff {p : Point} {ps qs : List Point} {pool left : List Footnote} :
    linkIn (p :: ps) pool = .ok (qs, left) ↔ ∃ q between others,
      link p pool = .ok (q, between) ∧ linkIn ps between = .ok (others, left) ∧
        qs = q :: others := by
  rw [linkIn]
  cases first : link p pool with
  | error e => simp [bind, Except.bind]
  | ok found =>
    obtain ⟨q, between⟩ := found
    cases second : linkIn ps between with
    | error e =>
      simp only [bind, Except.bind, second, reduceCtorEq, false_iff]
      rintro ⟨_, _, _, same, further, _⟩
      obtain ⟨rfl, rfl⟩ := Prod.mk.inj (Except.ok.inj same)
      simp [second] at further
    | ok found =>
      obtain ⟨others, rest⟩ := found
      simp only [bind, Except.bind, second, pure, Except.pure, Except.ok.injEq, Prod.mk.injEq]
      constructor
      · rintro ⟨rfl, rfl⟩
        exact ⟨q, between, others, ⟨rfl, rfl⟩, second, rfl⟩
      · rintro ⟨_, _, _, ⟨rfl, rfl⟩, further, rfl⟩
        obtain ⟨rfl, rfl⟩ := Prod.mk.inj (Except.ok.inj (second.symm.trans further))
        exact ⟨rfl, rfl⟩

/-- Linking changes the texts of literals only, and deals out the whole pool. -/
theorem link_sound {p q : Point} {pool left : List Footnote} (linked : link p pool = .ok (q, left)) :
    q.unlinked = p.unlinked ∧ (q.footnotes ++ left).Perm pool := by
  induction p generalizing q pool left with
  | block inner ih =>
    obtain ⟨qs, contents, rfl⟩ := link_block_eq_ok_iff.mp linked
    suffices qs.map Point.unlinked = inner.map Point.unlinked ∧
        (qs.flatMap Point.footnotes ++ left).Perm pool by
      rwa [Point.unlinked_block, Point.unlinked_block, Point.footnotes_block, Point.block.injEq]
    clear linked
    induction inner generalizing qs pool with
    | nil =>
      rw [linkIn] at contents
      obtain ⟨rfl, rfl⟩ := Prod.mk.inj (Except.ok.inj contents)
      exact ⟨rfl, .refl _⟩
    | cons p ps ihs =>
      obtain ⟨q, between, others, first, further, rfl⟩ := linkIn_cons_eq_ok_iff.mp contents
      obtain ⟨same, taken⟩ := ih p (by simp) first
      obtain ⟨sames, takens⟩ := ihs (fun p hp => ih p (List.mem_cons_of_mem _ hp)) _ further
      refine ⟨by rw [List.map_cons, List.map_cons, same, sames], ?_⟩
      rw [List.flatMap_cons, List.append_assoc]
      exact (takens.append_left q.footnotes).trans taken
  | instruction name =>
    obtain ⟨rfl, rfl⟩ := Prod.mk.inj (Except.ok.inj linked)
    exact ⟨rfl, .refl _⟩
  | reference name =>
    obtain ⟨rfl, rfl⟩ := Prod.mk.inj (Except.ok.inj linked)
    exact ⟨rfl, .refl _⟩
  | literal note =>
    rw [link] at linked
    split at linked
    · simp at linked
    · next found rest claimed =>
      obtain ⟨rfl, rfl⟩ := Prod.mk.inj (Except.ok.inj linked)
      obtain ⟨tagged, perm⟩ := claim?_sound claimed
      exact ⟨by simp [Point.unlinked, tagged], perm⟩

/-- The literals take back their own footnotes, in pre-order, when these lead the pool. -/
theorem link_footnotes (p : Point) (rest : List Footnote) :
    link p.unlinked (p.footnotes ++ rest) = .ok (p, rest) := by
  induction p generalizing rest with
  | block inner ih =>
    rw [Point.unlinked_block, Point.footnotes_block, link_block_eq_ok_iff]
    refine ⟨inner, ?_, rfl⟩
    induction inner with
    | nil => rfl
    | cons p ps ihs =>
      rw [List.map_cons, List.flatMap_cons, List.append_assoc, linkIn_cons_eq_ok_iff]
      exact ⟨p, _, ps, ih p (by simp) _, ihs fun p hp => ih p (List.mem_cons_of_mem _ hp), rfl⟩
  | instruction _ => rfl
  | reference _ => rfl
  | literal note => simp [Point.unlinked, link, claim?_cons_self note rest]

end Evolution.Blueprint
