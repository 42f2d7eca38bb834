import Evolution.Proofs.Breeding.Descent
import Evolution.Proofs.Literal.Compact
import Evolution.Proofs.Literal.Integer
import Evolution.Proofs.Program.Texts

/-! New values for the literals of an answer. Texts are drawn by the types that are registered, one
after the other in the tree and then among the unused footnotes, and nothing but these texts changes. -/

namespace Evolution

namespace Registry

variable {types : Registry}

/-- A text is drawn exactly for a registered type, and by it. -/
theorem yields_random_gives (types : Registry) (tag : String) (o : GenerationOptions) :
    (types.random tag o).Yields fun found =>
      (types.types.get? tag = none → found = none) ∧
        ∀ type, types.types.get? tag = some type →
          ∃ text, found = some text ∧ (type.random o).Gives text := by
  unfold random
  cases held : types.types.get? tag with
  | none => exact .pure ⟨fun _ => rfl, nofun⟩
  | some type =>
    refine (Draw.yields_gives _).bind fun text given => .pure ⟨nofun, ?_⟩
    rintro _ ⟨⟩
    exact ⟨text, rfl, given⟩

/-- What is drawn under the name of a built-in type is drawn by it, where it is registered. -/
theorem OfBuiltins.yields_random (h : types.OfBuiltins) {type : LiteralType}
    (builtin : type ∈ LiteralType.builtins) {o : GenerationOptions} {good : String → Prop}
    (draws : (type.random o).Yields good) : (types.random type.name o).Yields fun found =>
      ∀ text ∈ found, types.types.get? type.name = some type ∧ good text := by
  refine (yields_random_gives types type.name o).mono ?_
  rintro _ ⟨none, drawn⟩ text ⟨⟩
  cases held : types.types.get? type.name with
  | none => cases none held
  | some found =>
    obtain ⟨_, ⟨⟩, given⟩ := drawn found held
    have known := h.get? builtin (Table.contains_of_get? held)
    obtain rfl := Option.some.inj (held.symm.trans known)
    exact ⟨rfl, draws.of_gives given⟩

theorem OfBuiltins.yields_random_int (h : types.OfBuiltins) (o : GenerationOptions) :
    (types.random "int" o).Yields fun found => ∀ text ∈ found,
      ∃ x, types.read "int" text = .ok (.int x) ∧
        min o.intRange.1 o.intRange.2 ≤ x ∧ x ≤ max o.intRange.1 o.intRange.2 := by
  have int : LiteralType.int ∈ LiteralType.builtins := by simp [LiteralType.builtins]
  have draws : (LiteralType.int.random o).Yields _ := LiteralType.yields_intBetween_readInt? _ _
  refine (h.yields_random int draws).mono fun found known text there => ?_
  obtain ⟨held, x, read, within⟩ := known text there
  rw [show LiteralType.int.name = "int" from rfl] at held
  exact ⟨x, by simp [Registry.read, held, LiteralType.int, read], within⟩

theorem OfBuiltins.yields_random_code (h : types.OfBuiltins) {o : GenerationOptions}
    (named : o.WellNamed) : (types.random "code" o).Yields fun found => ∀ text ∈ found,
      ∃ p, types.read "code" text = .ok (.code p) ∧ p.size = max 1 o.size := by
  have code : LiteralType.code ∈ LiteralType.builtins := by simp [LiteralType.builtins]
  refine (h.yields_random code (yields_codeText named)).mono fun found known text there => ?_
  obtain ⟨held, made⟩ := known text there
  obtain ⟨p, read, -, size⟩ := made.program
  rw [show LiteralType.code.name = "code" from rfl] at held
  exact ⟨p, by simp [Registry.read, held, read], size⟩

end Registry

namespace Breeding

variable {types : Registry} {o : BreedingOptions} {half : Nat} {note : Footnote}

/-- The literal `note'` in the place of `note` when the texts of an answer are drawn anew, `half`
being half the points of the answer. -/
structure Redrawn (types : Registry) (o : BreedingOptions) (half : Nat) (note note' : Footnote) :
    Prop where
  tag : note'.tag = note.tag
  kept : types.contains note.tag = false → note'.text = note.text
  /-- A text of a registered type can be drawn by this type, for some size of code. -/
  drawn : ∀ type, types.types.get? note.tag = some type →
    ∃ size, (type.random { o.generation {} with size }).Gives note'.text
  int : note.tag = "int" → types.contains "int" = true →
    let bounds := (o.generation {}).intRange
    ∃ x, types.read "int" note'.text = .ok (.int x) ∧
      min bounds.1 bounds.2 ≤ x ∧ x ≤ max bounds.1 bounds.2
  code : note.tag = "code" → types.contains "code" = true →
    ∃ p, types.read "code" note'.text = .ok (.code p) ∧
      (∀ size, o.size = some size → p.size = max 1 size) ∧ (o.size = none → p.size ≤ max 1 half)

theorem yields_literalSize : (literalSize o half).Yields fun size =>
    (∀ set, o.size = some set → size = set) ∧ (o.size = none → size ≤ half) := by
  unfold literalSize
  split
  · next size set => exact .pure ⟨fun other same => Option.some.inj (set.symm.trans same), by simp [set]⟩
  · next unset =>
    split
    · exact .afterAny fun k => .pure ⟨by simp [unset], fun _ => Nat.le_of_lt k.isLt⟩
    · exact .pure ⟨by simp [unset], fun _ => Nat.zero_le half⟩

theorem yields_redrawn (builtins : types.OfBuiltins) (named : o.WellNamed) :
    (resampled types o half note).Yields fun text =>
      Redrawn types o half note { note with text } := by
  refine yields_literalSize.bind fun size right => ?_
  let options := { o.generation {} with size }
  have int : (types.random note.tag options).Yields fun found => note.tag = "int" → ∀ text ∈ found,
      ∃ x, types.read "int" text = .ok (.int x) ∧
        min options.intRange.1 options.intRange.2 ≤ x ∧
        x ≤ max options.intRange.1 options.intRange.2 :=
    fun words position found next run tag =>
      builtins.yields_random_int options words position found next (tag ▸ run)
  have code : (types.random note.tag options).Yields fun found => note.tag = "code" → ∀ text ∈ found,
      ∃ p, types.read "code" text = .ok (.code p) ∧ p.size = max 1 size :=
    fun words position found next run tag =>
      builtins.yields_random_code (named.generation size) words position found next (tag ▸ run)
  refine ((types.yields_random_gives note.tag options).and (int.and code)).bind ?_
  rintro found ⟨⟨none, drawn⟩, int, code⟩
  have there : ∀ {name}, note.tag = name → types.contains name = true → ∃ text, found = some text := by
    rintro _ rfl registered
    obtain ⟨type, held⟩ := Table.exists_get?_of_contains registered
    obtain ⟨text, rfl, _⟩ := drawn type held
    exact ⟨text, rfl⟩
  refine .pure ⟨rfl, fun missing => ?_, fun type held => ?_, fun tag held => ?_, fun tag held => ?_⟩
  · rw [none (Table.get?_eq_none missing), Option.getD_none]
  · obtain ⟨text, rfl, given⟩ := drawn type held
    exact ⟨size, given⟩
  · obtain ⟨text, rfl⟩ := there tag held
    exact int tag text rfl
  · obtain ⟨text, rfl⟩ := there tag held
    obtain ⟨p, read, points⟩ := code tag text rfl
    refine ⟨p, read, fun set given => ?_, fun unset => ?_⟩
    · rw [points, right.1 set given]
    · rw [points]
      exact max_le_max le_rfl (right.2 unset)

/-- A sampler fails for a literal: no size can be drawn for it, or no text of its type. -/
inductive SampleFails (types : Registry) (o : BreedingOptions) (words : Words) (cause : DrawFault) :
    Prop
  | size {half : Nat} (positive : 0 < half)
    (failed : (Draw.below 64 half positive).Fails words cause)
  | text {tag : String} {size : Nat}
    (failed : (types.random tag { o.generation {} with size }).Fails words cause)

theorem failsOnly_resampled : (resampled types o half note).FailsOnly (SampleFails types o) := by
  refine .bind ?_ fun size _ => .bind ?_ fun found _ => .pure _
  · unfold literalSize
    split
    · exact .pure _
    · split
      · next positive =>
        exact .bind (fun words position cause run => .size positive ⟨position, run⟩) fun _ _ => .pure _
      · exact .pure _
  · exact fun words position cause run => .text ⟨position, run⟩

theorem failsOnly_resample (parent : Answer) :
    (resample types o parent).FailsOnly (SampleFails types o) :=
  .bind (parent.program.failsOnly_mapTexts fun _ => failsOnly_resampled) fun _ _ => .pure _

/-- The program is that of the answer with other texts of literals. -/
structure Revalued (types : Registry) (o : BreedingOptions) (parent : Answer) (q : Program) : Prop where
  code : q.code = parent.program.code
  texts : parent.program.Retexted (Redrawn types o (parent.size / 2)) q

theorem yields_revalued (builtins : types.OfBuiltins) (named : o.WellNamed) (parent : Answer) :
    (resample types o parent).Yields fun c => c.parents = [parent] ∧
      Revalued types o parent c.program := by
  have texts : (parent.program.mapTexts (resampled types o (parent.size / 2))).Yields
      (parent.program.Retexted (Redrawn types o (parent.size / 2))) :=
    parent.program.yields_mapTexts fun _ => yields_redrawn builtins named
  exact texts.bind fun q made => .pure ⟨rfl, made.code, made⟩

end Breeding

open Breeding

namespace Operator

/-- The operator that draws texts anew refuses no crowd, and on any words it gives every answer its
children in turn, which differ from it in the texts of their literals only, or a sampler fails on the
words. -/
theorem resampleValues_keeps_code {types : Registry} {defaults overrides : BreedingOptions}
    (builtins : types.OfBuiltins) (named : (defaults.merge overrides).WellNamed)
    (crowd : List Answer) (count : Option Nat) :
    let o := defaults.merge overrides
    let parents := crowd.flatMap (List.replicate (count.getD 1))
    ∃ draw, (resampleValues types defaults).breed crowd count overrides = .ok draw ∧
      ∀ words position,
        (∃ children next, draw.runFrom words position = .ok (children, next) ∧
          List.Forall₂ (fun parent c => c.parents = [parent] ∧ Revalued types o parent c.program)
            parents children ∧
          ∀ supply created later, Child.answers? supply children = some (created, later) →
            List.Forall₂ (fun parent a => a.ancestors = [parent.id] ∧
              Revalued types o parent a.program) parents created) ∨
        ∃ cause, draw.runFrom words position = .error cause ∧ SampleFails types o words cause := by
  intro o parents
  have accepted : (resampleValues types defaults).breed crowd count overrides = .ok _ :=
    breed_eq_ok_iff.mpr ⟨rfl, rfl⟩
  refine ⟨_, accepted, fun words position => ?_⟩
  have made : (Draw.forEach (resample types o) (count.getD 1) crowd).Yields
      (List.Forall₂ (fun parent c => c.parents = [parent] ∧ Revalued types o parent c.program)
        parents) :=
    .forEach_replicate (fun parent _ => yields_revalued builtins named parent) _
  have fails : (Draw.forEach (resample types o) (count.getD 1) crowd).FailsOnly
      (SampleFails types o) :=
    .forEach (fun parent _ => failsOnly_resample parent) _
  rcases made.ok_or_error fails words position with ⟨children, next, run, made⟩ | ⟨cause, failed, why⟩
  · refine .inl ⟨children, next, run, made, fun supply created later answers => ?_⟩
    refine (forall₂_comp made (Child.becomes_of_answers? answers)).imp ?_
    rintro parent a ⟨c, ⟨parents, revalued⟩, becomes⟩
    exact ⟨by rw [becomes.ancestors, parents, List.map_singleton], becomes.program ▸ revalued⟩
  · exact .inr ⟨cause, failed, why⟩

/-- An integer between bounds that stand in reverse, a text of a type that nobody registered, a program
of the size that is set, and an integer that no point uses. -/
theorem resampleValues_keeps_code_mixed :
    let tree (int code : String) : Point :=
      .block [.literal ⟨"int", int⟩, .literal ⟨"note", "stay"⟩, .literal ⟨"code", code⟩]
    let parent : Answer := .new ⟨1⟩ .epoch ⟨tree "3" "do b", [⟨"int", "70"⟩]⟩
    let child : Program := ⟨tree "0" "block \x7b do a \x7d", [⟨"int", "0"⟩]⟩
    let overrides : BreedingOptions :=
      { size := some 2, instructions := some ["a"], intRange := some (9, -9) }
    let o := BreedingOptions.merge {} overrides
    let words : Words := ⟨fun _ => 0x8000000000000000, 0⟩
    Registry.builtin.OfBuiltins ∧ o.WellNamed ∧
      (∃ draw, (resampleValues .builtin {}).breed [parent] none overrides = .ok draw ∧
        draw.runFrom words 0 = .ok ([⟨child, [parent]⟩], 4)) ∧
      Revalued .builtin o parent child := by
  intro tree parent child overrides o words
  have named : o.WellNamed := ⟨by decide, by decide⟩
  obtain ⟨draw, accepted, run⟩ :=
    resampleValues_keeps_code Registry.ofBuiltins_builtin named [parent] none
  have drawn : draw.runFrom words 0 = .ok ([⟨child, [parent]⟩], 4) := by
    rw [(breed_eq_ok_iff.mp accepted).2]
    decide +kernel
  refine ⟨Registry.ofBuiltins_builtin, named, ⟨draw, accepted, drawn⟩, ?_⟩
  rcases run words 0 with ⟨children, next, drawn', made, -⟩ | ⟨cause, failed, -⟩
  · obtain ⟨rfl, rfl⟩ := Prod.mk.inj (Except.ok.inj (drawn.symm.trans drawn'))
    obtain ⟨⟨-, revalued⟩, -⟩ := List.forall₂_cons.mp made
    exact revalued
  · cases drawn.symm.trans failed

end Operator

end Evolution
