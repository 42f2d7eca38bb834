import Evolution.Evaluation.Evaluator
import Evolution.Json.Decode

/-!
Settings of runs and evaluators as JSON records. A field that is missing has its default; none may
be null.
-/

namespace Evolution

def Execution.limitOfJson? (json : Json) : Option Nat := do
  Json.defaulted? (← json.record? ["step_limit"]) "step_limit" Execution.defaultLimit Json.nat?

def ScoreRule.ofName? : String → Option ScoreRule
  | "mean_absolute_error" => some .meanAbsoluteError
  | "sum_squared_error" => some .sumSquaredError
  | _ => none

/-- Reads a scoring rule: its name, or an object with its name over null. -/
def ScoreRule.ofJson? : Json → Option ScoreRule
  | .text name => ofName? name
  | .object [(name, .null)] => ofName? name
  | _ => none

/-- Reads settings of an evaluator. The label is not checked. -/
def EvaluationOptions.ofJson? (json : Json) : Option EvaluationOptions := do
  let f ← json.record?
    ["score_label", "rule", "missing_penalty", "step_limit", "require_coverage"]
  let d : EvaluationOptions := {}
  return {
    label := ← Json.defaulted? f "score_label" d.label Json.text?
    rule := ← Json.defaulted? f "rule" d.rule ScoreRule.ofJson?
    penalty := ← Json.defaulted? f "missing_penalty" d.penalty Json.float?
    limit := ← Json.defaulted? f "step_limit" d.limit Json.nat?
    coverage := ← Json.defaulted? f "require_coverage" d.coverage Json.bool? }

end Evolution
