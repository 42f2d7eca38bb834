import Evolution.Execution.Interpreter

/-!
How far observed outputs are from expected ones, and how the misses add up to a score.
-/

namespace Evolution

inductive ScoreRule where
  /-- The mean over the cases of their added misses. -/
  | meanAbsoluteError
  /-- The sum over the cases of their added squares of misses. -/
  | sumSquaredError
deriving DecidableEq, Inhabited

namespace ScoreRule

/-- What a miss counts. -/
def weigh (rule : ScoreRule) (miss : Float) : Float :=
  match rule with
  | meanAbsoluteError => miss
  | sumSquaredError => miss * miss

/-- The score for the errors of all cases added up. -/
def conclude (rule : ScoreRule) (total : Float) (cases : Nat) : Float :=
  match rule with
  | meanAbsoluteError => total / Float.ofNat cases
  | sumSquaredError => total

end ScoreRule

/-- The distance of two numbers; of other values nothing if they agree and one if they do not. -/
def deviation (observed expected : Value) : Float :=
  match observed.toFloat?, expected.toFloat? with
  | some o, some e => (o - e).abs
  | _, _ => if observed.agrees expected then 0 else 1

end Evolution
