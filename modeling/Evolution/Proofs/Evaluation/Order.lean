import Evolution.Proofs.Binary.Whole
import Evolution.Proofs.Evaluation.Readings

/-! The order of the cases. A run depends on its program and its case alone, so cases in another order
give the same errors and readings in that order. The errors are added up from the first case to the
last, and that rounds: the score is the same in every order for two cases, and for more if the errors
are so small and coarse that no sum of them is rounded. -/

namespace Evolution.Evaluator

open Binary

variable {e : Evaluator} {cases others : List TestCase} {p : Program}

/-- The errors add up in every order to the same sum: there are at most two, or they are multiples of a
power of two that have room together in the 53 bits of a float. -/
def AddsUp (e : Evaluator) (cases : List TestCase) (p : Program) : Prop :=
  cases.length ≤ 2 ∨ ∃ (k : ℤ) (count : TestCase → ℤ), -1074 ≤ k ∧ k ≤ 970 ∧
    (∀ c ∈ cases, IsMultiple (e.errorIn p c) (count c) k) ∧
      (cases.map fun c => (count c).natAbs).sum ≤ 2 ^ 53

theorem foldl_add_perm_of_two {α : Type} (error : α → Float) {items others : List α}
    (few : items.length ≤ 2) (permuted : items.Perm others) :
    items.foldl (fun sum i => sum + error i) 0 = others.foldl (fun sum i => sum + error i) 0 := by
  match items, few with
  | [], _ => rw [permuted.nil_eq]
  | [i], _ => rw [List.singleton_perm.mp permuted]
  | [i, j], _ =>
    have pair : others = [i, j] ∨ others = [j, i] := by
      simpa [List.permutations] using List.mem_permutations.mpr permuted.symm
    rcases pair with rfl | rfl
    · rfl
    · exact zero_add_add_comm (error i) (error j)

theorem scoreOf_eq_of_perm (permuted : cases.Perm others) (adds : e.AddsUp cases p) :
    e.scoreOf others p = e.scoreOf cases p := by
  rw [scoreOf_eq, scoreOf_eq, permuted.length_eq]
  congr 1
  rcases adds with few | ⟨k, count, low, high, each, room⟩
  · exact (foldl_add_perm_of_two (e.errorIn p) few permuted).symm
  · exact (foldl_add_eq_of_perm low high permuted each room).symm

theorem check_eq_ok_of_perm (permuted : cases.Perm others) :
    e.check cases = .ok () ↔ e.check others = .ok () := by
  have given : cases = [] ↔ others = [] := by
    rw [← List.length_eq_zero_iff, permuted.length_eq, List.length_eq_zero_iff]
  simp only [check_eq_ok_iff, Covers, Ne, given, permuted.mem_iff]

theorem outcome_evaluateInPlace_eq_ok_iff {batch : List Answer} :
    (e.evaluateInPlace batch cases).outcome = .ok () ↔ e.check cases = .ok () := by
  cases checked : e.check cases with
  | error cause => simp [evaluateInPlace_of_error checked]
  | ok _ => simp [evaluateInPlace_of_ok checked]

/-- Cases in another order are refused or accepted as before. If they are accepted, every name has the
readings of the runs that read something under it: the answers in their order, and for each answer the
cases in the order in which they are given. An answer has the same score, if its errors add up to the
same in every order. -/
theorem evaluateInPlace_of_perm (e : Evaluator) (batch : List Answer)
    (permuted : cases.Perm others) :
    let done := e.evaluateInPlace batch cases
    let done' := e.evaluateInPlace batch others
    (done.outcome = .ok () ↔ done'.outcome = .ok ()) ∧
    (done.outcome = .ok () →
      (∀ name,
        done.evaluator.raw.get? name = listed (batch.flatMap fun a =>
          cases.filterMap fun c => (e.observe a.program c).get? name) ∧
        done'.evaluator.raw.get? name = listed (batch.flatMap fun a =>
          others.filterMap fun c => (e.observe a.program c).get? name)) ∧
      ∀ (i : ℕ) (a : Answer), batch[i]? = some a → e.AddsUp cases a.program →
        done'.batch[i]? = done.batch[i]?) := by
  intro done done'
  have same : done.outcome = .ok () ↔ done'.outcome = .ok () := by
    rw [outcome_evaluateInPlace_eq_ok_iff, outcome_evaluateInPlace_eq_ok_iff]
    exact check_eq_ok_of_perm permuted
  refine ⟨same, fun ended => ?_⟩
  have accepted : e.check cases = .ok () := outcome_evaluateInPlace_eq_ok_iff.mp ended
  have accepted' : e.check others = .ok () := (check_eq_ok_of_perm permuted).mp accepted
  have evaluated : done = _ := evaluateInPlace_of_ok accepted
  have evaluated' : done' = _ := evaluateInPlace_of_ok accepted'
  rw [evaluated, evaluated']
  refine ⟨fun name => ?_, fun i a there adds => ?_⟩
  · simp only [get?_readingsOf, List.flatMap_map, and_self]
  · simp only [List.getElem?_map, there, Option.map_some, scoreOf_eq_of_perm permuted adds]

/-- Distances of 3, 4 and 5 make the same mean from the last case to the first. -/
theorem evaluateInPlace_of_reversed_cases :
    let cases := [3, 4, 5].map fun n => caseReading (some (.int 0)) (.int n)
    let a := Answer.new ⟨1⟩ .epoch .empty
    let done cases := (byGauges.evaluateInPlace [a] cases).batch
    cases.Perm cases.reverse ∧ byGauges.AddsUp cases a.program ∧
      (done cases).map (·.score? "error") = [some 4] ∧
      (done cases.reverse)[0]? = (done cases)[0]? := by
  intro cases a done
  have permuted : cases.Perm cases.reverse := cases.reverse_perm.symm
  let count (c : TestCase) : ℤ :=
    ((c.expectations.get? "y").bind Value.toInt?).elim 0 Int64.toInt
  have errors : cases.map (byGauges.errorIn a.program) = cases.map fun c => Float.ofInt (count c) := by
    decide +kernel
  have small : ∀ c ∈ cases, (count c).natAbs < 2 ^ 53 := by decide +kernel
  have adds : byGauges.AddsUp cases a.program := by
    refine .inr ⟨0, count, by decide, by decide, fun c member => ?_, by decide +kernel⟩
    rw [IsMultiple, List.map_inj_left.mp errors c member, zpow_zero, mul_one]
    exact number?_ofInt_of_lt (small c member)
  have accepted : (byGauges.evaluateInPlace [a] cases).outcome = .ok () := by decide +kernel
  exact ⟨permuted, adds, by decide +kernel,
    ((evaluateInPlace_of_perm byGauges [a] permuted).2 accepted).2 0 a rfl adds⟩

/-- A long distance first and the two short ones are lost in it; they count if they come first. -/
theorem order_of_cases_changes_score :
    let long := caseReading (some (.int 0)) (.int 9007199254740992)
    let short := caseReading (some (.int 0)) (.int 1)
    let a := Answer.new ⟨1⟩ .epoch .empty
    let scores cases := (byGauges.evaluateInPlace [a] cases).batch.map (·.score? "error")
    [long, short, short].Perm [short, short, long] ∧
      scores [long, short, short] = [some 3002399751580330.5] ∧
      scores [short, short, long] = [some 3002399751580331.5] ∧
      (3002399751580330.5 : Float) ≠ 3002399751580331.5 := by
  intro long short a scores
  have permuted : ([long] ++ [short, short]).Perm ([short, short] ++ [long]) :=
    List.perm_append_comm
  exact ⟨permuted, by decide +kernel, by decide +kernel, by decide +kernel⟩

end Evolution.Evaluator
