import Evolution.Program.Blend
import Evolution.Proofs.Blueprint.Code
import Evolution.Proofs.Draw.Faults

/-! Blends of two trees, place by place. A place is a path of positions among the contents, from the root
down. What stands at a place of a blend stands at the same place of one of the two trees, or it is itself
a blend of what stands there in both. -/

namespace Evolution

namespace Point

/-- What a point is, apart from its contents and from the text of a literal. -/
inductive Label where
  | block
  | instruction (name : String)
  | reference (name : String)
  | literal (tag : String)
deriving DecidableEq

def label : Point → Label
  | .block _ => .block
  | .instruction name => .instruction name
  | .reference name => .reference name
  | .literal note => .literal note.tag

/-- The point at a place. -/
def at? (p : Point) : List Nat → Option Point
  | [] => some p
  | i :: path => p.contents[i]?.bind (·.at? path)

def labelAt? (p : Point) (path : List Nat) : Option Label := (p.at? path).map label

/-- Two points that are blended; of others one is picked. -/
def Alike : Point → Point → Prop
  | .block _, .block _ => True
  | .literal a, .literal b => a.tag = b.tag
  | _, _ => False

/-- Points in sequence that belong to two others in pairs, and beyond the second to the first alone. -/
inductive Alongside (related : Point → Point → Point → Prop) :
    List Point → List Point → List Point → Prop
  | none (qs : List Point) : Alongside related [] qs []
  | first (ps : List Point) : Alongside related ps [] ps
  | both {p q r : Point} {ps qs rs : List Point} (here : related p q r)
    (others : Alongside related ps qs rs) : Alongside related (p :: ps) (q :: qs) (r :: rs)

/-- What two trees can be blended to. -/
inductive Blended (types : Registry) : Point → Point → Point → Prop
  | blocks {ps qs rs : List Point} (contents : Alongside (Blended types) ps qs rs) :
    Blended types (.block ps) (.block qs) (.block rs)
  | texts {tag s t text : String} (drawn : (types.blend tag s t).Gives text) :
    Blended types (.literal ⟨tag, s⟩) (.literal ⟨tag, t⟩) (.literal ⟨tag, text⟩)
  | first {p q : Point} (apart : ¬p.Alike q) : Blended types p q p
  | second {p q : Point} (apart : ¬p.Alike q) : Blended types p q q

variable {types : Registry} {p q r : Point}

theorem yields_pick (apart : ¬p.Alike q) : (p.pick q).Yields (Blended types p q) := by
  apply Draw.Yields.afterAny
  intro heads
  apply Draw.Yields.pure
  cases heads
  · exact .second apart
  · exact .first apart

mutual

theorem yields_blended : ∀ p q : Point, (p.blend types q).Yields (Blended types p q)
  | .block ps, .block qs => (yields_alongside ps qs).bind fun _ made => .pure (.blocks made)
  | .literal ⟨tag, s⟩, .literal ⟨tag', t⟩ => by
    rw [Point.blend]
    split
    · next same =>
      obtain rfl : tag = tag' := same
      exact (Draw.yields_gives _).bind fun _ drawn => .pure (.texts drawn)
    · next other => exact yields_pick other
  | .block _, .instruction _ | .block _, .reference _ | .block _, .literal _ => yields_pick id
  | .instruction _, q | .reference _, q => by cases q <;> exact yields_pick id
  | .literal _, .block _ | .literal _, .instruction _ | .literal _, .reference _ => yields_pick id

theorem yields_alongside : ∀ ps qs : List Point,
    (blendIn types ps qs).Yields (Alongside (Blended types) ps qs)
  | [], qs => .pure (.none qs)
  | p :: ps, [] => .pure (.first (p :: ps))
  | p :: ps, q :: qs => by
    refine (yields_blended p q).bind fun r here => ?_
    exact (yields_alongside ps qs).bind fun rs others => .pure (.both here others)

end

/-- One of the blends of two texts fails on the words. -/
def TextFails (types : Registry) (words : Words) (cause : DrawFault) : Prop :=
  ∃ tag s t, (types.blend tag s t).Fails words cause

theorem failsOnly_pick (p q : Point) : (p.pick q).FailsOnly (TextFails types) :=
  Draw.failsOnly_even.bind fun _ _ => .pure _

mutual

theorem failsOnly_blend : ∀ p q : Point, (p.blend types q).FailsOnly (TextFails types)
  | .block ps, .block qs => (failsOnly_blendIn ps qs).bind fun _ _ => .pure _
  | .literal a, .literal b => by
    rw [Point.blend]
    split
    · refine .bind (fun words position cause run => ?_) fun _ _ => .pure _
      exact ⟨a.tag, a.text, b.text, position, run⟩
    · exact failsOnly_pick _ _
  | .block _, .instruction _ | .block _, .reference _ | .block _, .literal _ => failsOnly_pick _ _
  | .instruction _, q | .reference _, q => by cases q <;> exact failsOnly_pick _ _
  | .literal _, .block _ | .literal _, .instruction _ | .literal _, .reference _ => failsOnly_pick _ _

theorem failsOnly_blendIn : ∀ ps qs : List Point, (blendIn types ps qs).FailsOnly (TextFails types)
  | [], _ => .pure _
  | _ :: _, [] => .pure _
  | p :: ps, q :: qs =>
    (failsOnly_blend p q).bind fun _ _ => (failsOnly_blendIn ps qs).bind fun _ _ => .pure _

end

namespace Alongside

variable {related : Point → Point → Point → Prop} {ps qs rs : List Point}

theorem length_eq (h : Alongside related ps qs rs) : rs.length = ps.length := by
  induction h with
  | none | first => rfl
  | both _ _ ih => exact congrArg (· + 1) ih

theorem getElem? (h : Alongside related ps qs rs) {i : Nat} (found : rs[i]? = some r) :
    ps[i]? = some r ∨ ∃ p q, ps[i]? = some p ∧ qs[i]? = some q ∧ related p q r := by
  induction h generalizing i with
  | none => simp at found
  | first => exact .inl found
  | @both p q _ _ _ _ here _ ih =>
    cases i with
    | zero =>
      obtain rfl := Option.some.inj found
      exact .inr ⟨p, q, rfl, rfl, here⟩
    | succ i => exact ih found

theorem sizes_le (h : Alongside related ps qs rs)
    (each : ∀ p ∈ ps, ∀ q r, related p q r → r.size + 1 ≤ p.size + q.size) :
    sizes rs ≤ sizes ps + sizes qs := by
  induction h with
  | none => exact Nat.zero_le _
  | first => exact Nat.le_add_right _ _
  | both here _ ih =>
    rw [List.forall_mem_cons] at each
    have first := each.1 _ _ here
    have others := ih each.2
    simp only [sizes]
    omega

end Alongside

namespace Blended

/-- A point of a blend is that of one of the two trees, with all that is inside it, or a blend of both. -/
theorem at? (h : Blended types p q r) {path : List Nat} {s : Point} (found : r.at? path = some s) :
    p.at? path = some s ∨ q.at? path = some s ∨
      ∃ p' q', p.at? path = some p' ∧ q.at? path = some q' ∧ Blended types p' q' s := by
  induction path generalizing p q r with
  | nil =>
    obtain rfl := Option.some.inj found
    exact .inr (.inr ⟨p, q, rfl, rfl, h⟩)
  | cons i path ih =>
    cases h with
    | first => exact .inl found
    | second => exact .inr (.inl found)
    | texts => simp [Point.at?, contents] at found
    | blocks contents =>
      obtain ⟨r', here, found⟩ := Option.bind_eq_some_iff.mp found
      rcases contents.getElem? here with alone | ⟨p', q', first, second, blended⟩
      · exact .inl (Option.bind_eq_some_iff.mpr ⟨r', alone, found⟩)
      · simp only [Point.at?, Point.contents, first, second, Option.bind_some]
        exact ih blended found

theorem label (h : Blended types p q r) : r.label = p.label ∨ r.label = q.label := by
  cases h with
  | blocks | texts | first => exact .inl rfl
  | second => exact .inr rfl

theorem size_le (h : Blended types p q r) : r.size + 1 ≤ p.size + q.size := by
  have picked : ∀ p q : Point, p.size + 1 ≤ p.size + q.size ∧ q.size + 1 ≤ p.size + q.size := by
    intro p q
    have first := p.size_pos
    have second := q.size_pos
    omega
  induction p generalizing q r with
  | block ps ih =>
    cases h with
    | blocks contents =>
      have inner := contents.sizes_le fun p hp q r => ih p hp
      simp only [size]
      omega
    | first => exact (picked _ _).1
    | second => exact (picked _ _).2
  | literal _ =>
    cases h with
    | texts => exact le_rfl
    | first => exact (picked _ _).1
    | second => exact (picked _ _).2
  | instruction _ | reference _ =>
    cases h with
    | first => exact (picked _ _).1
    | second => exact (picked _ _).2

/-- Without its text a tree that is blended with itself is as before. -/
theorem own (h : Blended types p p r) : r.unlinked = p.unlinked ∧
    List.Forall₂ (fun note note' => note'.tag = note.tag ∧
      (types.blend note.tag note.text note.text).Gives note'.text) p.footnotes r.footnotes := by
  induction p generalizing r with
  | block ps ih =>
    cases h with
    | @blocks _ _ rs contents =>
      rw [unlinked_block, unlinked_block, block.injEq, footnotes_block, footnotes_block]
      induction ps generalizing rs with
      | nil =>
        cases contents
        all_goals exact ⟨rfl, .nil⟩
      | cons p ps ihs =>
        cases contents with
        | both here others =>
          obtain ⟨same, notes⟩ := ih p (by simp) here
          obtain ⟨sames, others⟩ := ihs (fun p hp => ih p (List.mem_cons_of_mem _ hp)) others
          refine ⟨by rw [List.map_cons, List.map_cons, same, sames], ?_⟩
          rw [List.flatMap_cons, List.flatMap_cons]
          exact List.rel_append notes others
    | first apart | second apart => exact absurd trivial apart
  | instruction _ | reference _ =>
    cases h with
    | first | second => exact ⟨rfl, .nil⟩
  | literal note =>
    cases h with
    | texts drawn => exact ⟨rfl, .cons ⟨rfl, drawn⟩ .nil⟩
    | first apart | second apart => exact absurd rfl apart

end Blended

end Point

end Evolution
