import Evolution.Factory.Stage

/-!
Stages given by a function, with some plain ones: passing a batch on, splitting it in two, refusing
work, emitting on a path that need not be declared, and doing nothing. Together with breeding and
evaluation they make up the stages of a factory.
-/

namespace Evolution

/-- A function as a stage: it gives the answers that it leaves alone, and its batches or the reason
of its failure. -/
structure CustomStage where
  paths : List String
  act : List Answer → List Answer × Except String (Table (List Answer))

namespace CustomStage

instance : Stage CustomStage where
  paths := paths
  process s supply input :=
    let (left, outcome) := s.act input
    ⟨s, supply, left, outcome.mapError .failed⟩

/-- The whole input on the first path and nothing on each path after it. -/
def pass (paths : List String) : CustomStage where
  paths
  act input :=
    match paths with
    | [] => (input, .ok .empty)
    | first :: rest => ([], .ok (.ofList ((first, input) :: rest.map (·, []))))

/-- A number of answers on the first path, the others on the second. -/
def split (paths : List String) (n : Nat) : CustomStage where
  paths
  act input :=
    match paths with
    | first :: second :: _ => ([], .ok (.ofList [(first, input.take n), (second, input.drop n)]))
    | _ => (input, .ok .empty)

/-- Uses up a number of answers and fails. -/
def refuse (paths : List String) (reason : String) (n : Nat) : CustomStage where
  paths
  act input := (input.drop n, .error reason)

/-- A number of answers, or all, on one path. -/
def emit (paths : List String) (path : String) (n : Option Nat) : CustomStage where
  paths
  act input :=
    let n := n.getD input.length
    (input.drop n, .ok (.ofList [(path, input.take n)]))

/-- Neither takes nor emits anything. -/
def hold (paths : List String) : CustomStage where
  paths
  act input := (input, .ok .empty)

end CustomStage

/-- The kinds of stages that a factory is built of. -/
inductive Work where
  | breeding (stage : BreedingStage)
  | evaluation (stage : EvaluationStage)
  | custom (stage : CustomStage)

namespace Work

/-- A run of one kind of stage as a run of any kind. -/
def lift {σ : Type} (wrap : σ → Work) (run : StageRun σ) : StageRun Work :=
  { run with stage := wrap run.stage }

instance : Stage Work where
  paths
    | breeding s => Stage.paths s
    | evaluation s => Stage.paths s
    | custom s => Stage.paths s
  process
    | breeding s, supply, input => lift breeding (Stage.process s supply input)
    | evaluation s, supply, input => lift evaluation (Stage.process s supply input)
    | custom s, supply, input => lift custom (Stage.process s supply input)

end Work

end Evolution
