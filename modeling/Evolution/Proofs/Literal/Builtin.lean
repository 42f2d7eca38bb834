import Evolution.Literal.Builtin
import Evolution.Proofs.Blueprint.Layout
import Evolution.Proofs.Decimal.Notation
import Evolution.Proofs.Generation.Code
import Evolution.Proofs.Literal.Body

/-! The built-in types make texts that a footnote can hold: numbers are plain, truth values are two
words, and random code is a line. -/

namespace Evolution

open Text

theorem Decimal.IsNumeral.isBody {text : List Char} (h : IsNumeral text) : IsBody text :=
  (isFramed_of_isPlain h.1 h.2).isBody

namespace LiteralType

theorem yields_intBetween (a b : Int64) : (intBetween a b).Yields (IsBody ·.toList) := by
  apply Draw.Yields.afterAny
  intro n
  apply Draw.Yields.pure
  rw [String.toList_ofList]
  exact (Decimal.isNumeral_writeInt n.toInt).isBody

theorem yields_either {a b : String} (first : IsBody a.toList) (second : IsBody b.toList) :
    (either a b).Yields (IsBody ·.toList) := by
  apply Draw.Yields.afterAny
  intro heads
  apply Draw.Yields.pure
  cases heads
  · exact second
  · exact first

theorem wellFormed_int : int.WellFormed where
  random o _ := yields_intBetween o.intRange.1 o.intRange.2
  blend a b first _ := by
    unfold int
    simp only
    split
    · exact yields_intBetween _ _
    · exact .pure first

theorem wellFormed_float : float.WellFormed where
  random o _ := .afterAny fun x => .pure (Decimal.isNumeral_write .literal x).isBody
  blend a b first _ := by
    unfold float
    simp only
    split
    · exact .afterAny fun part => .pure (Decimal.isNumeral_write .literal _).isBody
    · exact .pure first

theorem wellFormed_bool : bool.WellFormed where
  random o _ := by
    apply Draw.Yields.afterAny
    intro heads
    apply Draw.Yields.pure
    cases heads <;> decide
  blend _ _ first second := yields_either first second

theorem wellFormed_code : code.WellFormed where
  random o named := by
    have bare : GenerationOptions.WellNamed { o with types := [] } :=
      ⟨named.instructions, named.references⟩
    refine (yields_randomPoint Registry.wellFormed_empty bare _).bind ?_
    intro p good
    apply Draw.Yields.pure
    rw [String.toList_ofList]
    exact (Point.isFramed_compact good.spelled).isBody
  blend _ _ first second := yields_either first second

/-- The types that come with the system. -/
def builtins : List LiteralType := [int, float, bool, code]

end LiteralType

namespace Registry

/-- The registry has built-in types only, each under its own name. -/
def OfBuiltins (r : Registry) : Prop :=
  ∀ name type, r.types.get? name = some type → type.name = name ∧ type ∈ LiteralType.builtins

theorem ofBuiltins_empty : empty.OfBuiltins := by
  intro name type found
  cases found

theorem OfBuiltins.register {r : Registry} (h : r.OfBuiltins) {type : LiteralType}
    (builtin : type ∈ LiteralType.builtins) : (r.register type).OfBuiltins :=
  forall_register h ⟨rfl, builtin⟩

theorem OfBuiltins.restrict {r kept : Registry} (h : r.OfBuiltins) {names : List String}
    (restricted : r.restrict names = .ok kept) : kept.OfBuiltins :=
  forall_restrict h restricted

theorem ofBuiltins_builtin : builtin.OfBuiltins := by
  refine (((ofBuiltins_empty.register ?_).register ?_).register ?_).register ?_ <;>
    simp [LiteralType.builtins]

/-- The names of the built-in types are different, so a name that is registered stands for its type. -/
theorem OfBuiltins.get? {r : Registry} (h : r.OfBuiltins) {type : LiteralType}
    (builtin : type ∈ LiteralType.builtins) (registered : r.contains type.name = true) :
    r.types.get? type.name = some type := by
  obtain ⟨found, there⟩ := Table.exists_get?_of_contains registered
  obtain ⟨named, member⟩ := h type.name found there
  have different : (LiteralType.builtins.map (·.name)).Nodup := by decide
  rw [there, List.inj_on_of_nodup_map different member builtin named]

theorem OfBuiltins.wellFormed {r : Registry} (h : r.OfBuiltins) : r.WellFormed := by
  intro name type found
  obtain ⟨rfl, member⟩ := h name type found
  simp only [LiteralType.builtins, List.mem_cons, List.not_mem_nil, or_false] at member
  obtain rfl | rfl | rfl | rfl := member
  · exact ⟨by decide, LiteralType.wellFormed_int⟩
  · exact ⟨by decide, LiteralType.wellFormed_float⟩
  · exact ⟨by decide, LiteralType.wellFormed_bool⟩
  · exact ⟨by decide, LiteralType.wellFormed_code⟩

end Registry

end Evolution
