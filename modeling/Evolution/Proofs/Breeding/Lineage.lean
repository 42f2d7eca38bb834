import Evolution.Proofs.Breeding.Children
import Evolution.Proofs.Literal.Builtin

/-! Programs that come of texts by editing and breeding, in any number of steps. All of them are well
formed, so each is read back from its blueprint. -/

namespace Evolution

/-- The built-in registry and its restrictions. -/
inductive Registry.Standard : Registry → Prop where
  | builtin : Standard builtin
  | restrict {types kept : Registry} {names : List String} (whole : Standard types)
    (restricted : types.restrict names = .ok kept) : Standard kept

theorem Registry.Standard.ofBuiltins {types : Registry} (h : types.Standard) : types.OfBuiltins := by
  induction h with
  | builtin => exact ofBuiltins_builtin
  | restrict _ restricted ih => exact ih.restrict restricted

theorem Registry.Standard.wellFormed {types : Registry} (h : types.Standard) : types.WellFormed :=
  h.ofBuiltins.wellFormed

namespace Operator

/-- An operator with built-in types only, and with names that code can hold in the settings of the
call. -/
def Standard (overrides : BreedingOptions) : Operator → Prop
  | randomGuess types defaults => types.Standard ∧ (defaults.merge overrides).WellNamed
  | resampleValues types defaults => types.Standard ∧ (defaults.merge overrides).WellNamed
  | pointMutation types defaults => types.Standard ∧ (defaults.merge overrides).WellNamed
  | blendingCrossover types => types.Standard
  | resampleAndClone => True
  | uniformBackboneCrossover _ => True
  | pointCrossover => True
  | pointDelete => True

theorem Standard.wellFormed {op : Operator} {overrides : BreedingOptions}
    (h : op.Standard overrides) : op.WellFormed overrides := by
  cases op with
  | randomGuess types defaults => exact ⟨h.1.wellFormed, h.2⟩
  | resampleValues types defaults => exact ⟨h.1.wellFormed, h.2⟩
  | pointMutation types defaults => exact ⟨h.1.wellFormed, h.2⟩
  | blendingCrossover types => exact Registry.Standard.wellFormed h
  | resampleAndClone => trivial
  | uniformBackboneCrossover defaults => trivial
  | pointCrossover => trivial
  | pointDelete => trivial

end Operator

namespace Program

/-- The programs that edits, blends and operators make out of texts that are read, on any random
words on which their draws end. -/
inductive Bred : Program → Prop where
  | parsed {text : String} {p : Program} (read : parse text = .ok p) : Bred p
  | deletePoint {p q : Program} {i : Nat} (base : Bred p) (made : p.deletePoint i = .ok q) : Bred q
  | replacePoint {p q donor : Program} {new : Point} {i j : Nat} (base : Bred p)
    (source : Bred donor) (taken : donor.point j = .ok new) (made : p.replacePoint i new = .ok q) :
    Bred q
  | replaceWithText {p q : Program} {i : Nat} {text : String} (base : Bred p)
    (made : p.replaceWithText i text = .ok q) : Bred q
  | subtree {p q : Program} {i : Nat} (base : Bred p) (made : p.subtree i = .ok q) : Bred q
  | appendUnused {p : Program} {notes : List Footnote} {donor : Footnote → Program} (base : Bred p)
    (sources : ∀ note ∈ notes, Bred (donor note))
    (taken : ∀ note ∈ notes, note ∈ (donor note).footnotes) : Bred (p.appendUnused notes)
  | blended {p q child : Program} {types : Registry} {words : Words} {position next : Nat}
    (first : Bred p) (second : Bred q) (standard : types.Standard)
    (drawn : (blend types p q).runFrom words position = .ok (child, next)) : Bred child
  | crossed {p q child : Program} {probability : Float} {words : Words} {position next : Nat}
    (first : Bred p) (second : Bred q)
    (drawn : (Breeding.crossBackbones probability p q).runFrom words position =
      .ok (child, next)) : Bred child
  | child {op : Operator} {crowd : List Answer} {count : Option Nat} {overrides : BreedingOptions}
    {draw : Draw (List Child)} {children : List Child} {c : Child} {words : Words}
    {position next : Nat} (parents : ∀ a ∈ crowd, Bred a.program) (standard : op.Standard overrides)
    (accepted : op.breed crowd count overrides = .ok draw)
    (drawn : draw.runFrom words position = .ok (children, next)) (member : c ∈ children) :
    Bred c.program

theorem Bred.wellFormed {p : Program} (h : p.Bred) : p.WellFormed := by
  induction h with
  | parsed read => exact wellFormed_of_read read
  | deletePoint _ made ih => exact ih.deletePoint made
  | replacePoint _ _ taken made ih donor => exact ih.replacePoint (donor.point taken) made
  | replaceWithText _ made ih => exact ih.replaceWithText made
  | subtree _ made ih => exact ih.subtree made
  | appendUnused _ _ taken ih donors =>
    exact ih.appendUnused fun note member =>
      (donors note member).footnotes note (taken note member)
  | blended _ _ standard drawn first second =>
    exact first.blend standard.wellFormed second _ _ _ _ drawn
  | crossed _ _ drawn first second =>
    exact Breeding.yields_crossBackbones first second _ _ _ _ drawn
  | child _ standard accepted drawn member parents =>
    exact Operator.yields_breed standard.wellFormed parents accepted _ _ _ _ drawn _ member

/-- Whatever is bred can be saved as a blueprint and read back; no footnote is ever missing. -/
theorem parse_blueprint_of_bred {p : Program} (h : p.Bred) :
    parse p.blueprint = .ok p ∧
      ∀ tag, parse p.blueprint ≠ .error (.missingFootnote tag) := by
  have read := parse_blueprint h.wellFormed
  refine ⟨read, fun tag missing => ?_⟩
  rw [read] at missing
  cases missing

/-- A literal is deleted at random while an unused footnote of its type stays behind. -/
theorem parse_blueprint_of_dropped_point :
    let child : Program := ⟨.block [.instruction "f"], [⟨"int", "4"⟩]⟩
    child.Bred ∧ parse child.blueprint = .ok child := by
  intro child
  let parent : Program := ⟨.block [.literal ⟨"int", "3"⟩, .instruction "f"], [⟨"int", "4"⟩]⟩
  let answer : Answer := .new ⟨1⟩ .epoch parent
  have read : parse "block \x7b value «int» do f \x7d\n«int» 3\n«int» 4" = .ok parent := by
    decide +kernel
  have accepted : Operator.pointDelete.breed [answer] none {} =
    .ok (Operator.pointDelete.children [answer] none {}) := rfl
  have drawn : (Operator.pointDelete.children [answer] none {}).runFrom
    ⟨fun _ => 0x8000000000000000, 0⟩ 0 = .ok ([⟨child, [answer]⟩], 1) := by decide +kernel
  have standard : Operator.pointDelete.Standard {} := trivial
  have parents : ∀ a ∈ [answer], a.program.Bred := List.forall_mem_singleton.mpr (.parsed read)
  have bred : child.Bred := .child parents standard accepted drawn (List.mem_singleton_self _)
  exact ⟨bred, (parse_blueprint_of_bred bred).1⟩

end Program

end Evolution
