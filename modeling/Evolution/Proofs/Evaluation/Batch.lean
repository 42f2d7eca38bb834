import Evolution.Evaluation.Evaluator
import Evolution.Proofs.SortedTable
import Evolution.Proofs.Table

/-! Evaluation of a batch as a whole. The key of the scores is checked when an evaluator is made, so
once the cases are accepted no answer is refused its score: a batch is scored as a whole or stays as
it was. A score comes of the program and the cases alone, so evaluating again changes nothing. -/

namespace Evolution

namespace Answer

theorem score?_withScore (a : Answer) (key : String) (x : Float) (other : String) :
    (a.withScore key x).score? other = if other = key then some x else a.score? other :=
  a.scores.get?_insert key other x

theorem withScore_withScore (a : Answer) (key : String) (old new : Float) :
    (a.withScore key old).withScore key new = a.withScore key new := by
  simp [withScore]

end Answer

namespace Evaluator

variable {e : Evaluator} {cases : List TestCase} {batch : List Answer}

/-- A gauge of its case or a sensor of the evaluator measures every expectation. -/
def Covers (e : Evaluator) (cases : List TestCase) : Prop :=
  ∀ c ∈ cases, ∀ output ∈ c.expectations.names,
    c.gauges.contains output = true ∨ e.sensors.contains output = true

theorem uncovered?_eq_none_iff {i : Nat} : e.uncovered? i cases = none ↔ e.Covers cases := by
  induction cases generalizing i with
  | nil => simp [uncovered?, Covers]
  | cons c rest ih =>
    have first : c.unmeasured.find? (!e.sensors.contains ·) = none ↔
        ∀ output ∈ c.expectations.names,
          c.gauges.contains output = true ∨ e.sensors.contains output = true := by
      simp [TestCase.unmeasured, List.find?_eq_none, or_iff_not_imp_left]
    rw [Covers, List.forall_mem_cons, ← first, uncovered?]
    cases c.unmeasured.find? (!e.sensors.contains ·) with
    | none => simpa [Covers] using ih
    | some output => simp

theorem check_eq_ok_iff : e.check cases = .ok () ↔
    cases ≠ [] ∧ (e.options.coverage = true → e.Covers cases) := by
  rw [check]
  by_cases empty : cases = []
  · simp [empty]
  by_cases coverage : e.options.coverage = true
  · rw [← uncovered?_eq_none_iff (i := 0)]
    cases e.uncovered? 0 cases <;> simp [empty, coverage]
  · simp [empty, coverage]

theorem check_ne_ok_iff : e.check cases ≠ .ok () ↔
    cases = [] ∨ (e.options.coverage = true ∧ ∃ c ∈ cases, ∃ output ∈ c.expectations.names,
      c.gauges.contains output = false ∧ e.sensors.contains output = false) := by
  rw [Ne, check_eq_ok_iff, not_and_or, not_not, Classical.not_imp]
  simp [Covers]

theorem file_eq_map {label : String} (valid : Text.isKey label.toList = true)
    (pairs : List (Answer × Float)) :
    file label pairs = (.ok (), pairs.map fun (a, x) => a.withScore label x) := by
  induction pairs with
  | nil => rfl
  | cons pair rest ih => simp [file, Answer.setScore, valid, ih]

/-- The score of a program. -/
def scoreOf (e : Evaluator) (cases : List TestCase) (p : Program) : Float :=
  e.score (e.observeAll p cases)

/-- What is read when the programs of a batch run. -/
def readingsOf (e : Evaluator) (cases : List TestCase) (programs : List Program) :
    Table (List (Option Value)) :=
  (programs.flatMap fun p => (e.observeAll p cases).map (·.2)).foldl record .empty

theorem evaluateInPlace_of_error {cause : ArgumentError} (refused : e.check cases = .error cause) :
    e.evaluateInPlace batch cases = ⟨e, batch, .error cause⟩ := by
  simp [evaluateInPlace, refused]

theorem evaluateInPlace_of_ok (accepted : e.check cases = .ok ()) :
    e.evaluateInPlace batch cases =
      ⟨{ e with raw := e.readingsOf cases (batch.map (·.program)) },
        batch.map fun a => a.withScore e.options.label (e.scoreOf cases a.program), .ok ()⟩ := by
  have pairs : batch.zip ((batch.map fun a => e.observeAll a.program cases).map e.score) =
      batch.map fun a => (a, e.scoreOf cases a.program) := by
    rw [List.map_map]
    exact List.map_prod_left_eq_zip.symm
  have read : ((batch.map fun a => e.observeAll a.program cases).flatMap (·.map (·.2))).foldl
      record .empty = e.readingsOf cases (batch.map (·.program)) := by
    rw [readingsOf, List.flatMap_map, List.flatMap_map]
  simp only [evaluateInPlace, accepted, pairs, file_eq_map e.label_valid, read]
  rw [List.map_map]
  rfl

theorem length_evaluateInPlace (e : Evaluator) (batch : List Answer) (cases : List TestCase) :
    (e.evaluateInPlace batch cases).batch.length = batch.length := by
  cases checked : e.check cases with
  | error cause => rw [evaluateInPlace_of_error checked]
  | ok _ => rw [evaluateInPlace_of_ok checked, List.length_map]

theorem unchanged_of_refused {cause : ArgumentError}
    (refused : (e.evaluateInPlace batch cases).outcome = .error cause) :
    e.evaluateInPlace batch cases = ⟨e, batch, .error cause⟩ := by
  cases checked : e.check cases with
  | error other =>
    rw [evaluateInPlace_of_error checked] at refused ⊢
    exact congrArg (Evaluated.mk e batch) refused
  | ok _ =>
    rw [evaluateInPlace_of_ok checked] at refused
    contradiction

/-- After an evaluation the same cases give the same result again. -/
theorem evaluateInPlace_again (accepted : e.check cases = .ok ()) :
    let done := e.evaluateInPlace batch cases
    done.evaluator.evaluateInPlace done.batch cases = done := by
  intro done
  let scored (a : Answer) := a.withScore e.options.label (e.scoreOf cases a.program)
  let e' : Evaluator := { e with raw := e.readingsOf cases (batch.map (·.program)) }
  have first : done = ⟨e', batch.map scored, .ok ()⟩ := evaluateInPlace_of_ok accepted
  have ⟨given, covered⟩ := check_eq_ok_iff.mp accepted
  have still : e'.check cases = .ok () := check_eq_ok_iff.mpr ⟨given, covered⟩
  -- The programs are the same, so `e'` reads and scores what `e` did.
  have programs : (batch.map scored).map (·.program) = batch.map (·.program) := List.map_map
  have twice : (batch.map scored).map scored = batch.map scored := by
    rw [List.map_map]
    exact List.map_congr_left fun a _ => a.withScore_withScore _ _ _
  rw [first, evaluateInPlace_of_ok still, programs]
  exact congrArg (Evaluated.mk e' · (.ok ())) twice

/-- An evaluation is refused exactly if there are no cases, or coverage is asked for and nothing
measures some expectation; then it changes nothing. Otherwise each answer, in its place, has the score
of its program under the key of the evaluator and is the same in all else; the score does not depend
on the rest of the batch or on earlier results. To evaluate again with the same cases changes nothing. -/
theorem evaluateInPlace_all_or_nothing (e : Evaluator) (cases : List TestCase) :
    ∃ score : Program → Float, ∀ (raw : Table (List (Option Value))) (batch : List Answer),
      let start := { e with raw }
      let done := start.evaluateInPlace batch cases
      ((∃ cause, done.outcome = .error cause) ↔
        cases = [] ∨ (e.options.coverage = true ∧ ∃ c ∈ cases, ∃ output ∈ c.expectations.names,
          c.gauges.contains output = false ∧ e.sensors.contains output = false)) ∧
      (∀ cause, done.outcome = .error cause → done.evaluator = start ∧ done.batch = batch) ∧
      (done.outcome = .ok () →
        List.Forall₂
          (fun before after => after = { before with scores := after.scores } ∧
            ∀ key, after.score? key =
              if key = e.options.label then some (score before.program) else before.score? key)
          batch done.batch) ∧
      done.evaluator.evaluateInPlace done.batch cases = done := by
  refine ⟨e.scoreOf cases, fun raw batch => ?_⟩
  intro start done
  have refuses : start.check cases ≠ .ok () ↔ _ := check_ne_ok_iff
  rw [← refuses]
  cases checked : start.check cases with
  | error cause =>
    have same : done = ⟨start, batch, .error cause⟩ := evaluateInPlace_of_error checked
    have again : done.evaluator.evaluateInPlace done.batch cases = done := by
      rw [same, evaluateInPlace_of_error checked]
    rw [again, same]
    simp
  | ok _ =>
    have again : done.evaluator.evaluateInPlace done.batch cases = done :=
      evaluateInPlace_again checked
    rw [again]
    have scored : done = _ := evaluateInPlace_of_ok checked
    rw [scored]
    refine ⟨by simp, nofun, fun _ => ?_, rfl⟩
    rw [List.forall₂_map_right_iff]
    exact List.forall₂_same.mpr fun a _ => ⟨rfl, a.score?_withScore _ _⟩

/-- Two answers, by cases of which the second expects what nothing measures, and by the first of them
alone. -/
theorem evaluateInPlace_all_or_nothing_of_two :
    let e : Evaluator := ⟨{ label := "error", coverage := true }, rfl, .builtin, .builtin,
      .ofList [("y", .top "int")], .empty⟩
    let answer (text : String) := Answer.new ⟨1⟩ .epoch (.ofPoint (.literal ⟨"int", text⟩))
    let batch := [answer "3", answer "5"]
    let measured : TestCase := ⟨.empty, .ofList [("y", .int 3)], .empty⟩
    let wide : TestCase := ⟨.empty, .ofList [("y", .int 3), ("z", .int 3)], .empty⟩
    let done := e.evaluateInPlace batch [measured]
    (e.evaluateInPlace batch [measured, wide]).batch = batch ∧
      done.batch.map (·.score? "error") = [some 0, some 2] ∧
      done.evaluator.evaluateInPlace done.batch [measured] = done := by
  intro e answer batch measured wide done
  obtain ⟨_, law⟩ := evaluateInPlace_all_or_nothing e [measured, wide]
  obtain ⟨refuses, unchanged, -⟩ := law .empty batch
  obtain ⟨cause, refused⟩ := refuses.mpr
    (.inr ⟨rfl, wide, by simp, "z", by decide, by decide, by decide⟩)
  obtain ⟨_, law⟩ := evaluateInPlace_all_or_nothing e [measured]
  obtain ⟨-, -, -, again⟩ := law .empty batch
  exact ⟨(unchanged cause refused).2, by decide +kernel, again⟩

end Evaluator

end Evolution
