import Evolution.Breeding.Operator
import Evolution.Evaluation.Evaluator
import Evolution.Factory.Error

/-!
Stages, the work inside machines. A stage turns the answers that a machine took from its queue into
batches on named paths. It declares the paths it may emit on; it says which answers it left alone;
and it may change from run to run. Breeding sends its parents and its children on, evaluation sends
on the answers with their scores; when they fail they leave all answers alone.
-/

namespace Evolution

/-- What a stage did with its input. -/
structure StageRun (σ : Type) where
  /-- The stage as it is from now on. -/
  stage : σ
  supply : Supply
  /-- The answers that the stage neither sent on nor used up. -/
  left : List Answer
  /-- The batches under their paths. -/
  outcome : Except StageError (Table (List Answer))

/-- A kind of stage. -/
class Stage (σ : Type) where
  /-- The paths on which the stage may emit. -/
  paths : σ → List String
  process : σ → Supply → List Answer → StageRun σ

namespace Stage

/-- The path of answers that were bred from. -/
def parentsPath : String := "parents"

def createdPath : String := "created"

def scoredPath : String := "scored"

end Stage

/-- An operator at work, on a source of random words of its own. -/
structure BreedingStage where
  operator : Operator
  count : Option Nat
  overrides : BreedingOptions
  words : Words
  /-- The number of words taken so far. -/
  position : Nat
  /-- How many children memory can make room for at once. -/
  room : Nat

namespace BreedingStage

/-- Breeds from the input, which goes on as a whole. -/
def process (s : BreedingStage) (supply : Supply) (input : List Answer) : StageRun BreedingStage :=
  match s.operator.breedWithin s.room input s.count s.overrides with
  | .error cause => ⟨s, supply, input, .error (.argument cause)⟩
  | .ok draw =>
    match draw.runFrom s.words s.position with
    | .error fault => ⟨s, supply, input, .error (.draw fault)⟩
    | .ok (children, position) =>
      match Child.answers? supply children with
      | none => ⟨s, supply, input, .error .lastGeneration⟩
      | some (created, later) =>
        ⟨{ s with position }, later, [],
          .ok (.ofList [(Stage.parentsPath, input), (Stage.createdPath, created)])⟩

instance : Stage BreedingStage where
  paths _ := [Stage.parentsPath, Stage.createdPath]
  process := process

/-- Blends pairs of answers of one language, with a number of children for each pair. It makes room for
none of them in advance. -/
def blending (types : Registry) (children : Nat) (words : Words) : BreedingStage :=
  ⟨.blendingCrossover types, some children, {}, words, 0, 0⟩

end BreedingStage

/-- An evaluator at work on given cases. -/
structure EvaluationStage where
  evaluator : Evaluator
  cases : List TestCase

namespace EvaluationStage

def process (s : EvaluationStage) (supply : Supply) (input : List Answer) :
    StageRun EvaluationStage :=
  let done := s.evaluator.evaluateInPlace input s.cases
  let stage := { s with evaluator := done.evaluator }
  match done.outcome with
  | .error cause => ⟨stage, supply, done.batch, .error (.argument cause)⟩
  | .ok () => ⟨stage, supply, [], .ok (.ofList [(Stage.scoredPath, done.batch)])⟩

instance : Stage EvaluationStage where
  paths _ := [Stage.scoredPath]
  process := process

end EvaluationStage

end Evolution
