import Evolution.Proofs.Evaluation.Readings

/-! What an evaluation measures. In every case the gauges of the case go over the sensors of the
evaluator; what this gives for a name decides alike what is recorded under it, what is refused as
uncovered and what is charged in the score. -/

namespace Evolution.Evaluator

variable {e : Evaluator} {c : TestCase} {cases : List TestCase} {p : Program} {name output : String}

/-- The sensor of a name in a case: the gauge of the case, or the sensor of the evaluator where the
case has no gauge. -/
def sensorIn (e : Evaluator) (c : TestCase) (name : String) : Option Sensor :=
  (c.gauges.get? name).or (e.sensors.get? name)

theorem get?_sensorsFor (e : Evaluator) (c : TestCase) (name : String) :
    (e.sensorsFor c).get? name = e.sensorIn c name :=
  Table.get?_foldl_insert c.gauges.distinct e.sensors name

/-- The run of a program in a case, at its end. -/
def ran (e : Evaluator) (p : Program) (c : TestCase) : Interpreter :=
  let x := Execution.new p e.library e.types e.options.limit
  Interpreter.run ⟨{ x with bindings := c.bindings }, e.sensorsFor c⟩

theorem get?_observe (e : Evaluator) (p : Program) (c : TestCase) (name : String) :
    (e.observe p c).get? name = (e.sensorIn c name).map (e.ran p c).readOne :=
  (Table.get?_map _ _ name).trans (congrArg (Option.map (e.ran p c).readOne) (e.get?_sensorsFor c name))

theorem isNone_sensorIn (e : Evaluator) (c : TestCase) (name : String) :
    (e.sensorIn c name).isNone = (!c.gauges.contains name && !e.sensors.contains name) := by
  rw [sensorIn, Table.contains_eq_isSome, Table.contains_eq_isSome]
  cases c.gauges.get? name <;> cases e.sensors.get? name <;> rfl

/-- The first expectation that has no sensor: in the order of the cases, and in a case in the order of
its expectations. -/
def FirstUnread (e : Evaluator) (cases : List TestCase) (i : Nat) (output : String) : Prop :=
  ∃ c others rest, cases[i]? = some c ∧ c.expectations.names = others ++ output :: rest ∧
    (∀ b ∈ cases.take i, ∀ name ∈ b.expectations.names, (e.sensorIn b name).isSome = true) ∧
    (∀ name ∈ others, (e.sensorIn c name).isSome = true) ∧ e.sensorIn c output = none

theorem find?_unmeasured (e : Evaluator) (c : TestCase) :
    c.unmeasured.find? (!e.sensors.contains ·) =
      c.expectations.names.find? fun name => (e.sensorIn c name).isNone := by
  rw [TestCase.unmeasured, List.find?_filter]
  congr
  funext name
  rw [isNone_sensorIn]
  simp

theorem find?_unmeasured_eq_some_iff : c.unmeasured.find? (!e.sensors.contains ·) = some output ↔
    ∃ others rest, c.expectations.names = others ++ output :: rest ∧
      (∀ name ∈ others, (e.sensorIn c name).isSome = true) ∧ e.sensorIn c output = none := by
  rw [find?_unmeasured, List.find?_eq_some_iff_append]
  simp [and_comm, and_left_comm]

theorem find?_unmeasured_eq_none_iff : c.unmeasured.find? (!e.sensors.contains ·) = none ↔
    ∀ name ∈ c.expectations.names, (e.sensorIn c name).isSome = true := by
  rw [find?_unmeasured, List.find?_eq_none]
  simp [Option.isSome_iff_ne_none]

theorem firstUnread_cons_zero {rest : List TestCase} : e.FirstUnread (c :: rest) 0 output ↔
    c.unmeasured.find? (!e.sensors.contains ·) = some output := by
  rw [find?_unmeasured_eq_some_iff]
  simp [FirstUnread]

theorem firstUnread_cons_succ {rest : List TestCase} {j : Nat} :
    e.FirstUnread (c :: rest) (j + 1) output ↔
      c.unmeasured.find? (!e.sensors.contains ·) = none ∧ e.FirstUnread rest j output := by
  rw [find?_unmeasured_eq_none_iff]
  simp only [FirstUnread, List.getElem?_cons_succ, List.take_succ_cons, List.forall_mem_cons]
  constructor
  · rintro ⟨d, others, more, there, order, ⟨first, earlier⟩, read⟩
    exact ⟨first, d, others, more, there, order, earlier, read⟩
  · rintro ⟨first, d, others, more, there, order, earlier, read⟩
    exact ⟨d, others, more, there, order, ⟨first, earlier⟩, read⟩

theorem uncovered?_eq_some_iff {k i : Nat} : e.uncovered? k cases = some (i, output) ↔
    ∃ j, i = k + j ∧ e.FirstUnread cases j output := by
  induction cases generalizing k with
  | nil => simp [uncovered?, FirstUnread]
  | cons c rest ih =>
    rw [uncovered?]
    cases found : c.unmeasured.find? (!e.sensors.contains ·) with
    | some first =>
      constructor
      · rintro ⟨⟩
        exact ⟨0, rfl, firstUnread_cons_zero.mpr found⟩
      · rintro ⟨_ | j, rfl, unread⟩
        · rw [firstUnread_cons_zero, found] at unread
          obtain rfl := Option.some.inj unread
          rfl
        · cases found.symm.trans (firstUnread_cons_succ.mp unread).1
    | none =>
      refine ih.trans ⟨?_, ?_⟩
      · rintro ⟨j, rfl, unread⟩
        exact ⟨j + 1, by omega, firstUnread_cons_succ.mpr ⟨found, unread⟩⟩
      · rintro ⟨_ | j, rfl, unread⟩
        · cases found.symm.trans (firstUnread_cons_zero.mp unread)
        · exact ⟨j, by omega, (firstUnread_cons_succ.mp unread).2⟩

theorem uncovered?_zero_eq_some_iff {i : Nat} :
    e.uncovered? 0 cases = some (i, output) ↔ e.FirstUnread cases i output := by
  rw [uncovered?_eq_some_iff]
  simp

theorem check_eq_error_iff {cause : ArgumentError} : e.check cases = .error cause ↔
    cases = [] ∧ cause = .noTestCases ∨
      cases ≠ [] ∧ e.options.coverage = true ∧
        ∃ i output, cause = .uncoveredExpectation i output ∧ e.FirstUnread cases i output := by
  simp only [← uncovered?_zero_eq_some_iff]
  rw [check]
  by_cases empty : cases = []
  · simpa [empty] using eq_comm
  by_cases coverage : e.options.coverage = true
  · cases e.uncovered? 0 cases with
    | none => simp [empty, coverage]
    | some place => simpa [empty, coverage, Prod.ext_iff] using eq_comm
  · simp [empty, coverage]

theorem evaluate_eq_error_iff {batch : List Answer} {cause : ArgumentError} :
    e.evaluate batch cases = .error cause ↔ e.check cases = .error cause := by
  cases checked : e.check cases with
  | error other => simp [evaluate, evaluateInPlace_of_error checked, Except.map]
  | ok _ => simp [evaluate, evaluateInPlace_of_ok checked, Except.map]

theorem evaluate_eq_ok_iff {e' : Evaluator} {batch batch' : List Answer} :
    e.evaluate batch cases = .ok (e', batch') ↔ e.check cases = .ok () ∧
      e' = { e with raw := e.readingsOf cases (batch.map (·.program)) } ∧
      batch' = batch.map fun a => a.withScore e.options.label (e.scoreOf cases a.program) := by
  cases checked : e.check cases with
  | error other => simp [evaluate, evaluateInPlace_of_error checked, Except.map]
  | ok _ => simp [evaluate, evaluateInPlace_of_ok checked, Except.map, eq_comm]

/-- What a reading costs where a value is expected: the penalty if there is none, the distance of two
numbers, and of other values nothing or one. The distance is squared where squares are added up. -/
def charge (e : Evaluator) (expected : Value) : Option Value → Float
  | none => e.options.penalty
  | some observed =>
    match observed.toFloat?, expected.toFloat? with
    | some x, some y =>
      if e.options.rule = .sumSquaredError then (x - y).abs * (x - y).abs else (x - y).abs
    | _, _ => if observed.agrees expected then 0 else 1

theorem charge_some (e : Evaluator) (expected observed : Value) :
    e.charge expected (some observed) = e.options.rule.weigh (deviation observed expected) := by
  -- Nothing and one are their own squares.
  have nothing : (0 : Float) = 0 * 0 := by decide +kernel
  have one : (1 : Float) = 1 * 1 := by decide +kernel
  have square : (if observed.agrees expected then (0 : Float) else 1) =
      (if observed.agrees expected then 0 else 1) * (if observed.agrees expected then 0 else 1) := by
    split
    · exact nothing
    · exact one
  rw [charge, deviation]
  cases e.options.rule with
  | meanAbsoluteError =>
    cases observed.toFloat? <;> cases expected.toFloat? <;> rfl
  | sumSquaredError =>
    cases observed.toFloat? with
    | none => exact square
    | some x =>
      cases expected.toFloat? with
      | none => exact square
      | some y => rfl

theorem conclude_eq (rule : ScoreRule) (total : Float) (n : Nat) :
    rule.conclude total n = if rule = .sumSquaredError then total else total / Float.ofNat n := by
  cases rule <;> rfl

theorem read_ran {sensor : Sensor} (found : e.sensorIn c name = some sensor) :
    (e.ran p c).read name = (e.ran p c).readOne sensor := by
  have there : (e.ran p c).sensors.get? name = some sensor :=
    (e.get?_sensorsFor c name).trans found
  rw [Interpreter.read, there, Option.bind_some]

theorem cost_eq_charge {expected : Value} (measured : (e.sensorIn c output).isSome = true) :
    e.cost (e.observe p c) output expected = some (e.charge expected ((e.ran p c).read output)) := by
  obtain ⟨sensor, found⟩ := Option.isSome_iff_exists.mp measured
  rw [cost, get?_observe, found, read_ran found, Option.map_some, Option.map_some]
  cases (e.ran p c).readOne sensor with
  | none => rfl
  | some observed => rw [charge_some]

/-- Where every expectation is measured, every one is charged. -/
theorem errorIn_eq_foldl (measured : ∀ name ∈ c.expectations.names, (e.sensorIn c name).isSome = true) :
    e.errorIn p c = c.expectations.entries.foldl
      (fun sum (output, expected) => sum + e.charge expected ((e.ran p c).read output)) 0 := by
  refine List.foldl_ext _ _ _ fun sum entry member => ?_
  obtain ⟨output, expected⟩ := entry
  simp only [cost_eq_charge (measured output (List.mem_map_of_mem member))]

/-- The evaluator and the batch after an evaluation. -/
structure Recorded (e : Evaluator) (batch : List Answer) (cases : List TestCase) (e' : Evaluator)
    (batch' : List Answer) : Prop where
  /-- Under a name there is the reading of every run that has one, answer by answer and case by case. -/
  readings : ∀ name, e'.raw.get? name = listed (batch.flatMap fun a => cases.filterMap fun c =>
    (e.sensorIn c name).map (e.ran a.program c).readOne)
  complete : ∀ name found, e'.raw.get? name = some found →
    found.length = batch.length * cases.countP fun c => (e.sensorIn c name).isSome
  absent : ∀ name, e'.raw.get? name = none ↔ ∀ a ∈ batch, ∀ c ∈ cases, e.sensorIn c name = none
  /-- Where coverage is asked for, every expectation has a reading in every run, and what this costs
  is part of the score. -/
  charged : e.options.coverage = true →
    (∀ p, ∀ c ∈ cases, ∀ output ∈ c.expectations.names,
      (e.observe p c).get? output = some ((e.ran p c).read output)) ∧
    List.Forall₂ (fun before after =>
      let error (c : TestCase) : Float := c.expectations.entries.foldl (fun sum (output, expected) =>
        sum + e.charge expected ((e.ran before.program c).read output)) 0
      let total := cases.foldl (fun sum c => sum + error c) 0
      after.score? e.options.label = some
        (if e.options.rule = .sumSquaredError then total else total / Float.ofNat cases.length))
      batch batch'

/-- How an evaluation ends, and what it records. -/
structure Account (e : Evaluator) (batch : List Answer) (cases : List TestCase) : Prop where
  /-- A run reads the gauges of its case and, where there is none of a name, the sensors of the
  evaluator; all of them look at its end. -/
  measured : ∀ p c name, (e.observe p c).get? name = (e.sensorIn c name).map (e.ran p c).readOne
  /-- The check of coverage finds the first expectation that has no reading, if there is one. -/
  uncovered : ∀ i output, e.uncovered? 0 cases = some (i, output) ↔ e.FirstUnread cases i output
  covered : e.uncovered? 0 cases = none ↔
    ∀ c ∈ cases, ∀ output ∈ c.expectations.names, e.sensorIn c output ≠ none
  refused : ∀ cause, e.evaluate batch cases = .error cause ↔
    cases = [] ∧ cause = .noTestCases ∨
      cases ≠ [] ∧ e.options.coverage = true ∧
        ∃ i output, cause = .uncoveredExpectation i output ∧ e.FirstUnread cases i output
  recorded : ∀ e' batch', e.evaluate batch cases = .ok (e', batch') →
    e.Recorded batch cases e' batch'

theorem covers_iff : e.Covers cases ↔
    ∀ c ∈ cases, ∀ output ∈ c.expectations.names, e.sensorIn c output ≠ none := by
  refine forall₂_congr fun c _ => forall₂_congr fun output _ => ?_
  rw [← Option.isSome_iff_ne_none, ← Option.not_isNone, isNone_sensorIn]
  cases c.gauges.contains output <;> simp

theorem length_readings (batch : List Answer) :
    (batch.flatMap fun a => cases.filterMap fun c =>
      (e.sensorIn c name).map (e.ran a.program c).readOne).length =
      batch.length * cases.countP fun c => (e.sensorIn c name).isSome := by
  have each : ∀ a : Answer, (cases.filterMap fun c =>
      (e.sensorIn c name).map (e.ran a.program c).readOne).length =
      cases.countP fun c => (e.sensorIn c name).isSome := by
    intro a
    rw [List.length_filterMap_eq_countP]
    simp
  simp [List.length_flatMap, each]

/-- Every reading of every run is recorded in its place, and what is not read is found by the check of
coverage or costs nothing. -/
theorem readings_recorded_and_charged (e : Evaluator) (batch : List Answer) (cases : List TestCase) :
    e.Account batch cases := by
  refine ⟨e.get?_observe, fun i output => uncovered?_zero_eq_some_iff, ?_, fun cause => ?_, ?_⟩
  · rw [uncovered?_eq_none_iff, covers_iff]
  · rw [evaluate_eq_error_iff, check_eq_error_iff]
  · intro e' batch' evaluated
    obtain ⟨accepted, rfl, rfl⟩ := evaluate_eq_ok_iff.mp evaluated
    have readings : ∀ name, (e.readingsOf cases (batch.map (·.program))).get? name =
        listed (batch.flatMap fun a => cases.filterMap fun c =>
          (e.sensorIn c name).map (e.ran a.program c).readOne) := by
      intro name
      rw [get?_readingsOf, List.flatMap_map]
      simp only [get?_observe]
    refine ⟨readings, fun name found recorded => ?_, fun name => ?_, fun coverage => ?_⟩
    · rw [readings, listed_eq_some_iff] at recorded
      rw [← recorded.1, length_readings]
    · rw [readings, listed_eq_none_iff]
      simp [List.flatMap_eq_nil_iff, List.filterMap_eq_nil_iff]
    · have measured : ∀ c ∈ cases, ∀ output ∈ c.expectations.names,
          (e.sensorIn c output).isSome = true := by
        simpa only [covers_iff, Option.isSome_iff_ne_none] using (check_eq_ok_iff.mp accepted).2 coverage
      refine ⟨fun p c there output filed => ?_, ?_⟩
      · obtain ⟨sensor, found⟩ := Option.isSome_iff_exists.mp (measured c there output filed)
        rw [get?_observe, found, read_ran found, Option.map_some]
      · rw [List.forall₂_map_right_iff, List.forall₂_same]
        intro a _
        have total : cases.foldl (fun sum c => sum + e.errorIn a.program c) 0 = cases.foldl (fun sum c =>
            sum + c.expectations.entries.foldl (fun sum (output, expected) =>
              sum + e.charge expected ((e.ran a.program c).read output)) 0) 0 :=
          List.foldl_ext _ _ _ fun sum c there => by rw [errorIn_eq_foldl (measured c there)]
        rw [Answer.score?_withScore, if_pos rfl, scoreOf_eq, conclude_eq, total]

/-- A gauge in the place of a sensor, in the second of two cases; and an expectation that neither
measures, in the second as well. -/
theorem readings_recorded_and_charged_of_gauge_over_sensor :
    let e : Evaluator := { byGauges with
      options := { label := "error", coverage := true }, sensors := .ofList [("y", .top "int")] }
    let a := Answer.new ⟨1⟩ .epoch (.ofPoint (.literal ⟨"int", "3"⟩))
    let plain : TestCase := ⟨.empty, .ofList [("y", .int 1)], .empty⟩
    let gauged := caseReading (some (.int 5)) (.int 2)
    let wide : TestCase := ⟨.empty, .ofList [("y", .int 1), ("z", .int 1)], .empty⟩
    (∃ e' batch', e.evaluate [a] [plain, gauged] = .ok (e', batch') ∧
        e.Recorded [a] [plain, gauged] e' batch' ∧
        e'.raw.get? "y" = some [some (.int 3), some (.int 5)] ∧ e'.raw.get? "z" = none ∧
        batch'.map (·.score? "error") = [some 2.5]) ∧
      e.evaluate [a] [plain, wide] = .error (.uncoveredExpectation 1 "z") := by
  intro e a plain gauged wide
  have accepted : e.check [plain, gauged] = .ok () := by rfl
  have evaluated : e.evaluate [a] [plain, gauged] = .ok _ :=
    evaluate_eq_ok_iff.mpr ⟨accepted, rfl, rfl⟩
  have recorded := (readings_recorded_and_charged e [a] [plain, gauged]).recorded _ _ evaluated
  obtain ⟨-, scored⟩ := recorded.charged rfl
  refine ⟨⟨_, _, evaluated, recorded, ?_, ?_, ?_⟩, ?_⟩
  · rw [recorded.readings]
    decide +kernel
  · rw [recorded.absent]
    decide
  · cases scored with
    | cons score _ =>
      refine (congrArg (fun found => [found]) score).trans ?_
      decide +kernel
  · refine ((readings_recorded_and_charged e [a] [plain, wide]).refused _).mpr (.inr ⟨by simp, rfl, 1, "z", rfl, ?_⟩)
    exact ⟨wide, ["y"], [], rfl, rfl, by decide, by decide, rfl⟩

end Evolution.Evaluator
