import Evolution.Breeding.Crossover
import Evolution.Proofs.Draw.Fraction

/-! Crossing backbones. A word decides on each slot of the first backbone: it stays, or it gives way to
the slot of the second with the same number. A slot is only left out where the second backbone has ended,
so the slots before that keep their numbers. -/

namespace Evolution

namespace Breeding

/-- The slot with a number is kept on these words. -/
def kept (p : Float) (words : Words) (i : Nat) : Bool := Draw.fractionOf (words i) < p

theorem kept_of_certain {p : Float} (certain : 1 ≤ p) (words : Words) (i : Nat) :
    kept p words i = true :=
  decide_eq_true (Draw.fractionOf_lt (words i) certain)

theorem kept_of_impossible {p : Float} (impossible : p ≤ 0) (words : Words) (i : Nat) :
    kept p words i = false :=
  decide_eq_false (Draw.not_fractionOf_lt (words i) impossible)

/-- The slots of a first backbone that are kept, and those of a second in the place of the others. -/
def stitch (keep : Nat → Bool) : List Point → List Point → List Point
  | [], _ => []
  | slot :: rest, others =>
    (if keep 0 then [slot] else others.head?.toList) ++
      stitch (fun i => keep (i + 1)) rest others.tail

/-- Every slot takes one word. -/
theorem runFrom_crossSlots (p : Float) (words : Words) (mom dad : List Point) (position : Nat) :
    (crossSlots p mom dad).runFrom words position =
      .ok (stitch (fun i => kept p words (position + i)) mom dad, position + mom.length) := by
  induction mom generalizing dad position with
  | nil => rfl
  | cons slot rest ih =>
    refine Draw.runFrom_bind_eq_ok_iff.mpr ⟨_, _, Draw.runFrom_unit words position, ?_⟩
    refine Draw.runFrom_bind_eq_ok_iff.mpr ⟨_, _, ih dad.tail (position + 1), ?_⟩
    have next : ∀ i, position + 1 + i = position + (i + 1) := by omega
    simp only [next, stitch, List.length_cons, kept, Nat.add_zero, decide_eq_true_eq]
    split <;> rfl

theorem stitch_all {keep : Nat → Bool} (all : ∀ i, keep i = true) (mom dad : List Point) :
    stitch keep mom dad = mom := by
  induction mom generalizing keep dad with
  | nil => rfl
  | cons slot rest ih =>
    rw [stitch, all 0, if_pos rfl, ih fun i => all (i + 1)]
    rfl

theorem stitch_none {keep : Nat → Bool} (none : ∀ i, keep i = false) (mom dad : List Point) :
    stitch keep mom dad = dad.take mom.length := by
  induction mom generalizing keep dad with
  | nil => simp [stitch]
  | cons slot rest ih =>
    rw [stitch, none 0, ih fun i => none (i + 1)]
    cases dad <;> simp

theorem stitch_cons_cons (keep : Nat → Bool) (slot other : Point) (rest others : List Point) :
    stitch keep (slot :: rest) (other :: others) =
      (if keep 0 then slot else other) :: stitch (fun i => keep (i + 1)) rest others := by
  rw [stitch, List.tail_cons]
  split <;> rfl

/-- Up to the end of the shorter backbone the slots have the numbers that they had. -/
theorem getElem?_stitch (keep : Nat → Bool) (mom dad : List Point) (i : Nat)
    (within : i < min mom.length dad.length) :
    (stitch keep mom dad)[i]? = if keep i then mom[i]? else dad[i]? := by
  induction mom generalizing keep dad i with
  | nil => simp at within
  | cons slot rest ih =>
    cases dad with
    | nil => simp at within
    | cons other others =>
      rw [stitch_cons_cons]
      cases i with
      | zero =>
        rw [List.getElem?_cons_zero]
        split <;> rfl
      | succ i =>
        rw [List.getElem?_cons_succ, List.getElem?_cons_succ, List.getElem?_cons_succ]
        exact ih (fun i => keep (i + 1)) others i (by simpa using within)

theorem stitch_nil_sublist (keep : Nat → Bool) (mom : List Point) :
    (stitch keep mom []).Sublist mom := by
  induction mom generalizing keep with
  | nil => exact .slnil
  | cons slot rest ih =>
    rw [stitch]
    split
    · exact (ih _).cons_cons slot
    · exact (ih _).cons slot

/-- Behind the end of the shorter backbone only slots of the first follow, in order. -/
theorem drop_stitch_sublist (keep : Nat → Bool) (mom dad : List Point) :
    ((stitch keep mom dad).drop (min mom.length dad.length)).Sublist
      (mom.drop (min mom.length dad.length)) := by
  induction mom generalizing keep dad with
  | nil => exact .slnil
  | cons slot rest ih =>
    cases dad with
    | nil => exact stitch_nil_sublist keep (slot :: rest)
    | cons other others =>
      have shorter : min (slot :: rest).length (other :: others).length =
          min rest.length others.length + 1 := by simp
      rw [shorter, stitch_cons_cons, List.drop_succ_cons, List.drop_succ_cons]
      exact ih _ others

end Breeding

namespace Program

open Breeding

/-- A child of two backbones, where it is known of each slot of the first whether it is kept. -/
structure Crossing (keep : Nat → Bool) (mom dad child : Program) : Prop where
  block : child.root = .block child.backbone
  aligned : ∀ i < min mom.backbone.length dad.backbone.length,
    child.backbone[i]? = if keep i then mom.backbone[i]? else dad.backbone[i]?
  beyond : (child.backbone.drop (min mom.backbone.length dad.backbone.length)).Sublist
    (mom.backbone.drop (min mom.backbone.length dad.backbone.length))
  unused : child.unused = mom.unused

theorem crossing_stitch (keep : Nat → Bool) (mom dad : Program) :
    Crossing keep mom dad ⟨.block (stitch keep mom.backbone dad.backbone), mom.unused⟩ :=
  ⟨rfl, getElem?_stitch keep mom.backbone dad.backbone,
    drop_stitch_sublist keep mom.backbone dad.backbone, rfl⟩

theorem backbone_of_leaf {p : Program} (leaf : p.root.isBlock = false) : p.backbone = [p.root] := by
  unfold Program.backbone
  cases same : p.root with
  | block inner =>
    rw [same] at leaf
    cases leaf
  | instruction _ | reference _ | literal _ => rfl

/-- Two backbones always have a child. It takes as many words as the first has slots, and each word decides
on the slot with its number. -/
theorem crossing_of_crossBackbones (p : Float) (mom dad : Program) (words : Words) (position : Nat) :
    (∃ child,
      (crossBackbones p mom dad).runFrom words position =
        .ok (child, position + mom.backbone.length) ∧
      Crossing (fun i => kept p words (position + i)) mom dad child ∧
      (1 ≤ p → child.backbone = mom.backbone) ∧
      (p ≤ 0 → child.backbone =
        dad.backbone.take (min mom.backbone.length dad.backbone.length))) ∧
    ∀ parent ∈ [mom, dad], parent.root.isBlock = false → parent.backbone = [parent.root] := by
  refine ⟨⟨_, ?_, crossing_stitch _ mom dad, fun certain => ?_, fun impossible => ?_⟩,
    fun _ _ => backbone_of_leaf⟩
  · exact Draw.runFrom_bind_eq_ok_iff.mpr
      ⟨_, _, runFrom_crossSlots p words mom.backbone dad.backbone position, rfl⟩
  · exact stitch_all (fun i => kept_of_certain certain words (position + i)) _ _
  · rw [← List.take_take, List.take_length]
    exact stitch_none (fun i => kept_of_impossible impossible words (position + i)) _ _

/-- Three slots against a literal at the root, which is a slot of its own: it takes the first place, the
second stays, and the third has no partner. -/
theorem crossing_of_crossBackbones_leaf :
    let mom : Program :=
      ⟨.block [.instruction "a", .instruction "b", .instruction "c"], [⟨"int", "9"⟩]⟩
    let dad : Program := ⟨.literal ⟨"int", "1"⟩, []⟩
    let child : Program := ⟨.block [.literal ⟨"int", "1"⟩, .instruction "b"], [⟨"int", "9"⟩]⟩
    let words : Words := ⟨fun k => if k = 1 then 0 else 0xFFFFFFFFFFFFFFFF, 0⟩
    (crossBackbones 0.5 mom dad).runFrom words 0 = .ok (child, 3) ∧
      Crossing (kept 0.5 words) mom dad child ∧
      (∃ same, (crossBackbones 1 mom dad).runFrom words 0 = .ok (same, 3) ∧
        same.backbone = mom.backbone) ∧
      ∃ other, (crossBackbones 0 mom dad).runFrom words 0 = .ok (other, 3) ∧
        other.backbone = [dad.root] := by
  intro mom dad child words
  have run : (crossBackbones 0.5 mom dad).runFrom words 0 = .ok (child, 3) := by decide +kernel
  have leaf : dad.backbone = [dad.root] :=
    (crossing_of_crossBackbones 0.5 mom dad words 0).2 dad (by simp) rfl
  refine ⟨run, ?_, ?_, ?_⟩
  · obtain ⟨⟨_, made, crossing, -⟩, -⟩ := crossing_of_crossBackbones 0.5 mom dad words 0
    obtain ⟨rfl, -⟩ := Prod.mk.inj (Except.ok.inj (run.symm.trans made))
    simpa only [Nat.zero_add] using crossing
  · obtain ⟨⟨same, made, -, certain, -⟩, -⟩ := crossing_of_crossBackbones 1 mom dad words 0
    exact ⟨same, made, certain (by decide +kernel)⟩
  · obtain ⟨⟨other, made, -, -, impossible⟩, -⟩ := crossing_of_crossBackbones 0 mom dad words 0
    refine ⟨other, made, ?_⟩
    rw [impossible (by decide +kernel), leaf]
    rfl

end Program

end Evolution
