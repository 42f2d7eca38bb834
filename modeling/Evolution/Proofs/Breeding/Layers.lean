import Evolution.Breeding.Options
import Mathlib.Algebra.BigOperators.Group.List.Basic
import Mathlib.Data.List.Induction

/-! Layers of settings. Merging makes the settings of operators a monoid, and this monoid acts on
complete settings, so a stack of layers comes to the same however it is merged before it is laid over
the base: each setting is that of the last layer that makes it. -/

namespace Evolution

namespace BreedingOptions

theorem merge_assoc (a b c : BreedingOptions) : (a.merge b).merge c = a.merge (b.merge c) := by
  simp [merge, Option.or_assoc]

theorem empty_merge (a : BreedingOptions) : ({} : BreedingOptions).merge a = a := by
  simp [merge]

theorem merge_empty (a : BreedingOptions) : a.merge {} = a := by
  simp [merge]

/-- The product of two layers is the first under the second. -/
instance : Monoid BreedingOptions where
  mul := merge
  mul_assoc := merge_assoc
  one := {}
  one_mul := empty_merge
  mul_one := merge_empty

theorem generation_one (base : GenerationOptions) : (1 : BreedingOptions).generation base = base :=
  rfl

theorem generation_mul (a b : BreedingOptions) (base : GenerationOptions) :
    (a * b).generation base = b.generation (a.generation base) := by
  have later {α : Type} (x y : Option α) (z : α) : (y.or x).getD z = y.getD (x.getD z) := by
    cases y <;> rfl
  change (a.merge b).generation base = _
  simp only [generation, merge, later]

/-- Complete settings under one layer after the other, the first one lowest. -/
def laidOver (base : GenerationOptions) (layers : List BreedingOptions) : GenerationOptions :=
  layers.foldl (fun options layer => layer.generation options) base

theorem generation_prod (layers : List BreedingOptions) (base : GenerationOptions) :
    layers.prod.generation base = laidOver base layers := by
  induction layers generalizing base with
  | nil => exact generation_one base
  | cons layer rest ih => rw [List.prod_cons, generation_mul, ih, laidOver, laidOver, List.foldl_cons]

/-- Layers that are merged two by two, in some grouping. -/
inductive Grouping where
  | single (layer : BreedingOptions)
  | pair (below above : Grouping)

namespace Grouping

def merged : Grouping → BreedingOptions
  | single layer => layer
  | pair below above => below.merged.merge above.merged

/-- The layers of a grouping, the lowest first. -/
def layers : Grouping → List BreedingOptions
  | single layer => [layer]
  | pair below above => below.layers ++ above.layers

theorem merged_eq_prod (g : Grouping) : g.merged = g.layers.prod := by
  induction g with
  | single layer => exact List.prod_singleton.symm
  | pair below above first second =>
    rw [layers, List.prod_append, ← first, ← second]
    rfl

end Grouping

/-- Complete settings under a stack of layers of which some are merged before. -/
def resolve (base : GenerationOptions) (stack : List Grouping) : GenerationOptions :=
  stack.foldl (fun options group => group.merged.generation options) base

theorem resolve_eq_laidOver (base : GenerationOptions) (stack : List Grouping) :
    resolve base stack = laidOver base (stack.flatMap Grouping.layers) := by
  induction stack generalizing base with
  | nil => rfl
  | cons group rest ih =>
    have first : group.merged.generation base = laidOver base group.layers := by
      rw [group.merged_eq_prod, generation_prod]
    calc resolve base (group :: rest)
      _ = resolve (group.merged.generation base) rest := rfl
      _ = laidOver (laidOver base group.layers) (rest.flatMap Grouping.layers) := by rw [ih, first]
      _ = laidOver base (group.layers ++ rest.flatMap Grouping.layers) := List.foldl_append.symm

section Setting

variable {α : Type} {set? : BreedingOptions → Option α} {layers : List BreedingOptions}
  {base : α}

/-- The value of a setting is that of the last layer that makes it, or that of the base if no layer
does. -/
def LastSet (set? : BreedingOptions → Option α) (layers : List BreedingOptions) (base value : α) :
    Prop :=
  (∃ below layer above, layers = below ++ layer :: above ∧ set? layer = some value ∧
      ∀ l ∈ above, set? l = none) ∨
    (∀ l ∈ layers, set? l = none) ∧ value = base

theorem lastSet_nil_iff {value : α} : LastSet set? [] base value ↔ value = base := by
  simp [LastSet]

/-- The layer on top decides, unless it leaves the setting open. -/
theorem lastSet_append_singleton_iff {top : BreedingOptions} {value : α} :
    LastSet set? (layers ++ [top]) base value ↔
      set? top = some value ∨ set? top = none ∧ LastSet set? layers base value := by
  constructor
  · rintro (⟨below, layer, above, split, made, open'⟩ | ⟨open', rfl⟩)
    · rcases List.eq_nil_or_concat above with rfl | ⟨above, last, rfl⟩
      · obtain ⟨-, same⟩ := List.append_inj' split rfl
        obtain rfl : top = layer := by simpa using same
        exact .inl made
      · rw [List.concat_eq_append] at split open'
        rw [← List.cons_append, ← List.append_assoc] at split
        obtain ⟨rfl, same⟩ := List.append_inj' split rfl
        obtain rfl : top = last := by simpa using same
        exact .inr ⟨open' top (by simp), .inl ⟨below, layer, above, rfl, made,
          fun l member => open' l (by simp [member])⟩⟩
    · exact .inr ⟨open' top (by simp), .inr ⟨fun l member => open' l (by simp [member]), rfl⟩⟩
  · rintro (made | ⟨open', ⟨below, layer, above, rfl, made, others⟩ | ⟨others, rfl⟩⟩)
    · exact .inl ⟨layers, top, [], rfl, made, by simp⟩
    · refine .inl ⟨below, layer, above ++ [top], by simp, made, ?_⟩
      simpa [or_imp, forall_and, open'] using others
    · refine .inr ⟨?_, rfl⟩
      simpa [or_imp, forall_and, open'] using others

/-- A setting that every layer hands on or replaces ends as the last layer that makes it has it. -/
theorem lastSet_laidOver_iff (set? : BreedingOptions → Option α) (get : GenerationOptions → α)
    (each : ∀ (layer : BreedingOptions) options,
      get (layer.generation options) = (set? layer).getD (get options))
    (options : GenerationOptions) (layers : List BreedingOptions) (value : α) :
    LastSet set? layers (get options) value ↔ value = get (laidOver options layers) := by
  induction layers using List.reverseRecOn with
  | nil => exact lastSet_nil_iff
  | append_singleton layers top ih =>
    have last : laidOver options (layers ++ [top]) = top.generation (laidOver options layers) := by
      rw [laidOver, List.foldl_append]
      rfl
    rw [lastSet_append_singleton_iff, ih, last, each]
    cases set? top with
    | none => simp
    | some made => simp [eq_comm]

end Setting

/-- Every setting comes from the last layer that makes it. The chance of a truth value is in no
layer. -/
structure Resolved (layers : List BreedingOptions) (base result : GenerationOptions) : Prop where
  size : LastSet (·.size) layers base.size result.size
  instructions : LastSet (·.instructions) layers base.instructions result.instructions
  references : LastSet (·.references) layers base.references result.references
  types : LastSet (·.types) layers base.types result.types
  proportions : LastSet (·.proportions) layers base.proportions result.proportions
  intRange : LastSet (·.intRange) layers base.intRange result.intRange
  floatRange : LastSet (·.floatRange) layers base.floatRange result.floatRange
  trueChance : result.trueChance = base.trueChance

theorem trueChance_laidOver (base : GenerationOptions) (layers : List BreedingOptions) :
    (laidOver base layers).trueChance = base.trueChance := by
  induction layers generalizing base with
  | nil => rfl
  | cons layer rest ih => exact ih (layer.generation base)

theorem resolved_iff {layers : List BreedingOptions} {base result : GenerationOptions} :
    Resolved layers base result ↔ result = laidOver base layers := by
  have size := lastSet_laidOver_iff (·.size) (·.size) fun _ _ => rfl
  have instructions := lastSet_laidOver_iff (·.instructions) (·.instructions) fun _ _ => rfl
  have references := lastSet_laidOver_iff (·.references) (·.references) fun _ _ => rfl
  have types := lastSet_laidOver_iff (·.types) (·.types) fun _ _ => rfl
  have proportions := lastSet_laidOver_iff (·.proportions) (·.proportions) fun _ _ => rfl
  have intRange := lastSet_laidOver_iff (·.intRange) (·.intRange) fun _ _ => rfl
  have floatRange := lastSet_laidOver_iff (·.floatRange) (·.floatRange) fun _ _ => rfl
  have chance := trueChance_laidOver base layers
  constructor
  · intro h
    obtain ⟨_, _, _, _, _, _, _, _⟩ := result
    obtain rfl := (size base layers _).mp h.size
    obtain rfl := (instructions base layers _).mp h.instructions
    obtain rfl := (references base layers _).mp h.references
    obtain rfl := (types base layers _).mp h.types
    obtain rfl := (proportions base layers _).mp h.proportions
    obtain rfl := (intRange base layers _).mp h.intRange
    obtain rfl := (floatRange base layers _).mp h.floatRange
    obtain rfl := h.trueChance.trans chance.symm
    rfl
  · rintro rfl
    exact ⟨(size base layers _).mpr rfl, (instructions base layers _).mpr rfl,
      (references base layers _).mpr rfl, (types base layers _).mpr rfl,
      (proportions base layers _).mpr rfl, (intRange base layers _).mpr rfl,
      (floatRange base layers _).mpr rfl, chance⟩

/-- Merging is associative, the empty layer changes nothing, and laying a merge over complete settings
is laying its parts over them one by one. So a stack of layers gives the same settings in every
grouping, and of these each is that of the last layer that makes it, or of the base. -/
theorem merge_acts_and_last_layer_wins (a b c : BreedingOptions) (base : GenerationOptions)
    (stack : List Grouping) :
    (a.merge b).merge c = a.merge (b.merge c) ∧
      ({} : BreedingOptions).merge a = a ∧ a.merge {} = a ∧
      ({} : BreedingOptions).generation base = base ∧
      (a.merge b).generation base = b.generation (a.generation base) ∧
      resolve base stack = laidOver base (stack.flatMap Grouping.layers) ∧
      ∀ result, Resolved (stack.flatMap Grouping.layers) base result ↔ result = resolve base stack := by
  refine ⟨merge_assoc a b c, empty_merge a, merge_empty a, generation_one base,
    generation_mul a b base, resolve_eq_laidOver base stack, fun result => ?_⟩
  rw [resolved_iff, resolve_eq_laidOver]

end BreedingOptions

end Evolution
