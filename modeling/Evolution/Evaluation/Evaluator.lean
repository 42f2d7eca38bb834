import Evolution.Answer.Basic
import Evolution.Evaluation.Rule

/-!
Evaluation of answers by test cases. Every program is run once for each case, from empty stacks,
with the bindings of the case. Sensors are those of the evaluator and the gauges of the case; a
gauge takes the place of a sensor of its name. An expectation that nothing measures costs nothing,
unless the settings ask for coverage: then it is refused. An output that is measured without a
reading costs a fixed penalty.
-/

namespace Evolution

/-- Inputs of a program and the outputs expected of it. -/
structure TestCase where
  bindings : Table Value
  expectations : Table Value
  gauges : Table Sensor

/-- The expected outputs that no gauge measures. -/
def TestCase.unmeasured (c : TestCase) : List String :=
  c.expectations.names.filter (!c.gauges.contains ·)

structure EvaluationOptions where
  /-- The key under which scores are filed. -/
  label : String := ""
  rule : ScoreRule := .meanAbsoluteError
  /-- What an output without a reading costs. -/
  penalty : Float := 100000
  /-- The limit of steps of a run. -/
  limit : Nat := Execution.defaultLimit
  /-- Whether every expectation has to be measured. -/
  coverage : Bool := false
deriving DecidableEq

/-- An evaluator, with the readings of its last batch. -/
structure Evaluator where
  options : EvaluationOptions
  label_valid : Text.isKey options.label.toList
  library : Library
  types : Registry
  sensors : Table Sensor
  /-- For each sensor, its readings over the answers and for each answer over the cases. -/
  raw : Table (List (Option Value))

namespace Evaluator

/-- An evaluator with all built-in instructions and types. It needs a key for its scores. -/
def new? (options : EvaluationOptions) : Except ArgumentError Evaluator :=
  if options.label.isEmpty then .error .missingScoreLabel
  else if h : Text.isKey options.label.toList then
    .ok ⟨options, h, .builtin, .builtin, .empty, .empty⟩
  else .error (.invalidKey options.label)

/-- Adds a sensor, or replaces the one of its name. -/
def register (e : Evaluator) (name : String) (sensor : Sensor) : Evaluator :=
  { e with sensors := e.sensors.insert name sensor }

def sensorsFor (e : Evaluator) (c : TestCase) : Table Sensor :=
  c.gauges.entries.foldl (fun t (name, gauge) => t.insert name gauge) e.sensors

def observe (e : Evaluator) (p : Program) (c : TestCase) : Readings :=
  let x := Execution.new p e.library e.types e.options.limit
  let i : Interpreter := ⟨{ x with bindings := c.bindings }, e.sensorsFor c⟩
  i.run.readings

/-- What an expectation costs, given the readings. -/
def cost (e : Evaluator) (readings : Readings) (output : String) (expected : Value) :
    Option Float :=
  (readings.get? output).map fun
    | some observed => e.options.rule.weigh (deviation observed expected)
    | none => e.options.penalty

/-- The error in a case: what its measured expectations cost, added up in order. -/
def caseError (e : Evaluator) (c : TestCase) (readings : Readings) : Float :=
  c.expectations.entries.foldl
    (fun sum (output, expected) =>
      match e.cost readings output expected with
      | some x => sum + x
      | none => sum) 0

def observeAll (e : Evaluator) (p : Program) (cases : List TestCase) : List (TestCase × Readings) :=
  cases.map fun c => (c, e.observe p c)

def score (e : Evaluator) (observed : List (TestCase × Readings)) : Float :=
  let total := observed.foldl (fun sum (c, readings) => sum + e.caseError c readings) 0
  e.options.rule.conclude total observed.length

def record (raw : Table (List (Option Value))) (readings : Readings) :
    Table (List (Option Value)) :=
  readings.entries.foldl
    (fun raw (name, value) => raw.insert name ((raw.get? name).getD [] ++ [value])) raw

/-- The first expectation in the order of the cases that nothing measures. -/
def uncovered? (e : Evaluator) : Nat → List TestCase → Option (Nat × String)
  | _, [] => none
  | i, c :: rest =>
    match c.unmeasured.find? (!e.sensors.contains ·) with
    | some output => some (i, output)
    | none => e.uncovered? (i + 1) rest

/-- Refuses an empty list of cases, and an uncovered expectation where coverage is asked for. -/
def check (e : Evaluator) (cases : List TestCase) : Except ArgumentError Unit :=
  if cases.isEmpty then .error .noTestCases
  else if e.options.coverage then
    match e.uncovered? 0 cases with
    | some (i, output) => .error (.uncoveredExpectation i output)
    | none => .ok ()
  else .ok ()

/-- Files scores, answer by answer. A refusal leaves the rest of the answers as they are. -/
def file (label : String) : List (Answer × Float) → Except ArgumentError Unit × List Answer
  | [] => (.ok (), [])
  | (a, x) :: rest =>
    match a.setScore label x with
    | .error cause => (.error cause, a :: rest.map (·.1))
    | .ok scored =>
      let (outcome, others) := file label rest
      (outcome, scored :: others)

/-- The evaluator and the batch after an evaluation, and how it ended. -/
structure Evaluated where
  evaluator : Evaluator
  batch : List Answer
  outcome : Except ArgumentError Unit

/-- Scores the answers of a batch in their places; the readings take the place of the old ones. -/
def evaluateInPlace (e : Evaluator) (batch : List Answer) (cases : List TestCase) : Evaluated :=
  match e.check cases with
  | .error cause => ⟨e, batch, .error cause⟩
  | .ok () =>
    let observed := batch.map fun a => e.observeAll a.program cases
    let (outcome, scored) := file e.options.label (batch.zip (observed.map e.score))
    match outcome with
    | .error cause => ⟨e, scored, .error cause⟩
    | .ok () =>
      let raw := (observed.flatMap (·.map (·.2))).foldl record .empty
      ⟨{ e with raw }, scored, .ok ()⟩

/-- Scores the answers of a batch, unless it is refused. -/
def evaluate (e : Evaluator) (batch : List Answer) (cases : List TestCase) :
    Except ArgumentError (Evaluator × List Answer) :=
  let done := e.evaluateInPlace batch cases
  done.outcome.map fun () => (done.evaluator, done.batch)

end Evaluator

end Evolution
