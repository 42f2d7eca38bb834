import Evolution.Program.Edit
import Evolution.Proofs.Literal.Integer
import Evolution.Proofs.Point.Blending

/-! Blends of two programs. -/

namespace Evolution

namespace Program

/-- The program `c` is a blend of `a` and `b`. -/
structure Blending (types : Registry) (a b c : Program) : Prop where
  labels : ∀ path label, c.root.labelAt? path = some label →
    a.root.labelAt? path = some label ∨ b.root.labelAt? path = some label
  /-- A literal is that of one of the two with its text, or of both with a text made of theirs by their
  type. -/
  texts : ∀ path note, c.root.at? path = some (.literal note) →
    a.root.at? path = some (.literal note) ∨ b.root.at? path = some (.literal note) ∨
      ∃ s t, a.root.at? path = some (.literal ⟨note.tag, s⟩) ∧
        b.root.at? path = some (.literal ⟨note.tag, t⟩) ∧
        types.contains note.tag = true ∧ (types.blend note.tag s t).Gives note.text
  size : c.size ≤ a.size + b.size - 1
  backbone : a.root.isBlock = true → b.root.isBlock = true → c.backbone.length = a.backbone.length
  unused : c.unused = a.unused

/-- The program `c` is the program `a` with other texts in literals. Each of these is made of the text
before it by the registered type; with the built-in integers all integers are the same. -/
structure SelfBlending (types : Registry) (a c : Program) : Prop where
  code : c.code = a.code
  footnotes : List.Forall₂ (fun note note' => note'.tag = note.tag ∧
    (note' = note ∨ types.contains note.tag = true ∧
      (types.blend note.tag note.text note.text).Gives note'.text) ∧
    (types.KeepsInts → note.tag = "int" →
      LiteralType.readInt? note'.text = LiteralType.readInt? note.text)) a.footnotes c.footnotes

variable {types : Registry} {a b : Program} {root : Point}

theorem eq_of_gives_blend {tag s t text : String} (unknown : types.contains tag = false)
    (drawn : (types.blend tag s t).Gives text) : text = s := by
  have kept : (types.blend tag s t).Yields (· = s) :=
    Registry.blend_of_not_contains unknown ▸ .pure rfl
  exact kept.of_gives drawn

theorem blending_of_blended (h : a.root.Blended types b.root root) :
    Blending types a b { a with root } := by
  refine ⟨fun path label found => ?_, fun path note found => ?_, ?_, fun block block' => ?_, rfl⟩
  · obtain ⟨s, there, rfl⟩ := Option.map_eq_some_iff.mp found
    rcases h.at? there with first | second | ⟨p, q, first, second, blended⟩
    · exact .inl (Option.map_eq_some_iff.mpr ⟨s, first, rfl⟩)
    · exact .inr (Option.map_eq_some_iff.mpr ⟨s, second, rfl⟩)
    · rcases blended.label with same | same
      · exact .inl (Option.map_eq_some_iff.mpr ⟨p, first, same.symm⟩)
      · exact .inr (Option.map_eq_some_iff.mpr ⟨q, second, same.symm⟩)
  · rcases h.at? found with first | second | ⟨p, q, first, second, blended⟩
    · exact .inl first
    · exact .inr (.inl second)
    · cases blended with
      | first => exact .inl first
      | second => exact .inr (.inl second)
      | @texts tag s t text drawn =>
        cases known : types.contains tag with
        | true => exact .inr (.inr ⟨s, t, first, second, rfl, drawn⟩)
        | false =>
          obtain rfl := eq_of_gives_blend known drawn
          exact .inl first
  · have bound : root.size + 1 ≤ a.root.size + b.root.size := h.size_le
    simp only [Program.size]
    omega
  · obtain ⟨p, unused⟩ := a
    obtain ⟨q, unused'⟩ := b
    cases p with
    | block ps =>
      cases q with
      | block qs =>
        cases h with
        | blocks contents => exact contents.length_eq
        | first apart | second apart => exact absurd trivial apart
      | instruction _ | reference _ | literal _ => cases block'
    | instruction _ | reference _ | literal _ => cases block

theorem selfBlending_of_blended (h : a.root.Blended types a.root root) :
    SelfBlending types a { a with root } := by
  obtain ⟨same, notes⟩ := h.own
  refine ⟨?_, List.rel_append (notes.imp ?_)
    (List.forall₂_same.mpr fun note _ => ⟨rfl, .inl rfl, fun _ _ => rfl⟩)⟩
  · rw [Program.code, ← Point.code_unlinked, same, Point.code_unlinked]
    rfl
  · rintro note ⟨tag, text⟩ ⟨same, drawn⟩
    obtain rfl : tag = note.tag := same
    refine ⟨rfl, ?_, fun keeps integer => ?_⟩
    · cases known : types.contains note.tag with
      | true => exact .inr ⟨rfl, drawn⟩
      | false =>
        obtain rfl : text = note.text := eq_of_gives_blend known drawn
        exact .inl rfl
    · rw [integer] at drawn
      exact (keeps.yields_blend_self note.text).of_gives drawn

/-- On any words two programs are blended place by place, or a type fails to blend two texts. -/
theorem blending_of_blend (types : Registry) (a b : Program) (words : Words) (position : Nat) :
    (∃ c next, (Program.blend types a b).runFrom words position = .ok (c, next) ∧
        Blending types a b c ∧ (a = b → SelfBlending types a c)) ∨
      ∃ cause, (Program.blend types a b).runFrom words position = .error cause ∧
        Point.TextFails types words cause := by
  have made : (Program.blend types a b).Yields fun c =>
      Blending types a b c ∧ (a = b → SelfBlending types a c) := by
    refine (Point.yields_blended a.root b.root).bind fun root h => .pure ⟨blending_of_blended h, ?_⟩
    rintro rfl
    exact selfBlending_of_blended h
  have fails : (Program.blend types a b).FailsOnly (Point.TextFails types) :=
    (Point.failsOnly_blend a.root b.root).bind fun _ _ => .pure _
  exact made.ok_or_error fails words position

/-- A literal of both, a block picked away, and a point behind the end of the second; blended with itself
the first program only loses a sign. -/
theorem blending_of_blend_uneven :
    let a : Program :=
      ⟨.block [.literal ⟨"int", "+4"⟩, .block [.reference "x"], .instruction "f"], [⟨"bool", "true"⟩]⟩
    let b : Program := ⟨.block [.literal ⟨"int", "9"⟩, .instruction "g"], [⟨"int", "1"⟩]⟩
    let c : Program :=
      ⟨.block [.literal ⟨"int", "6"⟩, .instruction "g", .instruction "f"], [⟨"bool", "true"⟩]⟩
    let a' : Program :=
      ⟨.block [.literal ⟨"int", "4"⟩, .block [.reference "x"], .instruction "f"], [⟨"bool", "true"⟩]⟩
    let words : Words :=
      ⟨fun k => if k = 0 then 0x7000000000000000 else 0x8000000000000000, 0⟩
    (blend .builtin a b).runFrom words 0 = .ok (c, 2) ∧ Blending .builtin a b c ∧
      (blend .builtin a a).runFrom words 0 = .ok (a', 3) ∧ SelfBlending .builtin a a' ∧
      Registry.builtin.KeepsInts := by
  intro a b c a' words
  have run : (blend .builtin a b).runFrom words 0 = .ok (c, 2) := by decide +kernel
  have run' : (blend .builtin a a).runFrom words 0 = .ok (a', 3) := by decide +kernel
  have keeps : Registry.builtin.KeepsInts := by
    rintro type ⟨⟩
    rfl
  refine ⟨run, ?_, run', ?_, keeps⟩
  · rcases blending_of_blend .builtin a b words 0 with ⟨_, _, made, good, -⟩ | ⟨_, failed, -⟩
    · obtain ⟨rfl, rfl⟩ := Prod.mk.inj (Except.ok.inj (run.symm.trans made))
      exact good
    · cases run.symm.trans failed
  · rcases blending_of_blend .builtin a a words 0 with ⟨_, _, made, -, own⟩ | ⟨_, failed, -⟩
    · obtain ⟨rfl, rfl⟩ := Prod.mk.inj (Except.ok.inj (run'.symm.trans made))
      exact own rfl
    · cases run'.symm.trans failed

/-- Another type in the place of the integers may turn three into seven. -/
theorem seven_of_blend_three_with_itself :
    let sevens : LiteralType := { LiteralType.int with blend := fun _ _ => return "7" }
    let types := Registry.builtin.register sevens
    let a : Program := .ofPoint (.literal ⟨"int", "3"⟩)
    let c : Program := .ofPoint (.literal ⟨"int", "7"⟩)
    types.contains "int" = true ∧ (∀ words, (blend types a a).runFrom words 0 = .ok (c, 0)) ∧
      LiteralType.readInt? "3" = some 3 ∧ LiteralType.readInt? "7" = some 7 :=
  ⟨by decide, fun _ => rfl, by decide +kernel, by decide +kernel⟩

end Program

end Evolution
