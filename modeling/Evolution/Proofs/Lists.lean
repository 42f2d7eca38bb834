import Mathlib.Data.List.Forall2
import Mathlib.Data.List.Nodup
import Mathlib.Logic.Function.Basic

/-! Lists whose members belong to those of another list, and lists with each member a number of times
over. -/

namespace Evolution

variable {α β : Type}

theorem exists_getElem?_of_forall₂ {related : α → β → Prop} {xs : List α} {ys : List β}
    (h : List.Forall₂ related xs ys) {k : Nat} {y : β} (found : ys[k]? = some y) :
    ∃ x, xs[k]? = some x ∧ related x y := by
  obtain ⟨below, rfl⟩ := List.getElem?_eq_some_iff.mp found
  have below' : k < xs.length := h.length_eq ▸ below
  exact ⟨xs[k], List.getElem?_eq_getElem below', h.get below' below⟩

theorem forall₂_comp {γ : Type} {first : α → β → Prop} {second : β → γ → Prop} {xs : List α}
    {ys : List β} {zs : List γ} (h : List.Forall₂ first xs ys) (h' : List.Forall₂ second ys zs) :
    List.Forall₂ (fun x z => ∃ y, first x y ∧ second y z) xs zs := by
  induction h generalizing zs with
  | nil =>
    cases h'
    exact .nil
  | cons here _ ih =>
    cases h' with
    | cons next rest => exact .cons ⟨_, here, next⟩ (ih rest)

theorem countP_eq_of_forall₂ {related : α → β → Prop} {p : α → Bool} {q : β → Bool}
    {xs : List α} {ys : List β} (h : List.Forall₂ related xs ys)
    (same : ∀ x y, related x y → p x = q y) : xs.countP p = ys.countP q := by
  induction h with
  | nil => rfl
  | cons here _ ih => rw [List.countP_cons, List.countP_cons, ih, same _ _ here]

/-- Values that belong to different names, as a function of the names. -/
theorem exists_eq_map_of_forall₂ [DecidableEq β] {good : α → β → Prop} {values : List α}
    {names : List β} (h : List.Forall₂ good values names) (different : names.Nodup) (other : α) :
    ∃ f : β → α, values = names.map f ∧ ∀ name ∈ names, good (f name) name := by
  induction h with
  | nil => exact ⟨fun _ => other, rfl, List.forall_mem_nil _⟩
  | @cons value name _ names here _ ih =>
    obtain ⟨new, different⟩ := List.nodup_cons.mp different
    obtain ⟨f, rfl, all⟩ := ih different
    have away : ∀ old ∈ names, Function.update f name value old = f old := fun old filed =>
      Function.update_of_ne (fun same : old = name => new (same ▸ filed)) value f
    refine ⟨Function.update f name value, ?_, List.forall_mem_cons.mpr ⟨?_, fun old filed => ?_⟩⟩
    · rw [List.map_cons, Function.update_self, List.map_congr_left away]
    · rw [Function.update_self]
      exact here
    · rw [away old filed]
      exact all old filed

/-- A list with each member a number of times over. -/
theorem getElem?_flatMap_replicate (xs : List α) {n i j : Nat} (turn : j < n) :
    (xs.flatMap (List.replicate n))[i * n + j]? = xs[i]? := by
  induction xs generalizing i with
  | nil => simp
  | cons x xs ih =>
    rw [List.flatMap_cons]
    cases i with
    | zero => simp [List.getElem?_append, turn]
    | succ i =>
      have later : (i + 1) * n + j = n + (i * n + j) := by
        rw [Nat.succ_mul]
        omega
      rw [later, List.getElem?_append_right (by simp), List.length_replicate, Nat.add_sub_cancel_left,
        ih, List.getElem?_cons_succ]

theorem countP_flatMap_replicate (p : α → Bool) (xs : List α) (n : Nat) :
    (xs.flatMap (List.replicate n)).countP p = n * xs.countP p := by
  induction xs with
  | nil => rfl
  | cons x rest ih =>
    rw [List.flatMap_cons, List.countP_append, ih, List.countP_replicate, List.countP_cons]
    split <;> simp [Nat.mul_add, Nat.add_comm]

end Evolution
