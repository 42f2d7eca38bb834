import Evolution.Answer.Basic
import Evolution.Draw.Basic
import Evolution.Factory.State

/-!
Why a factory cannot be built or run: it is wired wrong, a stage fails, or a machine is asked to do
what its state does not allow.
-/

namespace Evolution

/-- A mistake in the wiring. -/
inductive ConfigurationError where
  | unknownWorkstation (name : String)
  | unknownMachine (workstation machine : String)
  /-- A stage emits on a path that has no destination. -/
  | unroutedPath (machine path : String)
  | duplicateName (name : String)
  /-- A library is restricted to a name that it does not have; `message` says which. -/
  | unknownLibraryEntry (message : String)
deriving DecidableEq, Inhabited

def ConfigurationError.name : ConfigurationError → String
  | unknownWorkstation .. => "UnknownWorkstation"
  | unknownMachine .. => "UnknownMachine"
  | unroutedPath .. => "UnroutedPath"
  | duplicateName .. => "DuplicateName"
  | unknownLibraryEntry .. => "UnknownLibraryEntry"

def ConfigurationError.message : ConfigurationError → String
  | unknownWorkstation name => s!"unknown workstation '{name}'"
  | unknownMachine workstation machine => s!"workstation '{workstation}' has no machine '{machine}'"
  | unroutedPath machine path => s!"machine '{machine}' emits on unrouted path '{path}'"
  | duplicateName name => s!"duplicate name '{name}'"
  | unknownLibraryEntry message => s!"library has no entry named '{message}'"

/-- Why a stage fails. -/
inductive StageError where
  /-- A rule of the operator or evaluator is broken. -/
  | argument (cause : ArgumentError)
  /-- The stage gives this reason. -/
  | failed (reason : String)
  /-- A random choice cannot be made. -/
  | draw (fault : DrawFault)
  /-- A child has a parent in the last generation that can be counted. -/
  | lastGeneration
deriving DecidableEq

namespace StageError

def name : StageError → String
  | argument cause => "Argument." ++ cause.name
  | failed _ => "Stage"
  | draw _ => "Draw"
  | lastGeneration => "Generation"

def message : StageError → String
  | argument cause => "argument error: " ++ cause.message
  | failed reason => "stage failed: " ++ reason
  | draw _ => "no random choice is possible"
  | lastGeneration => "no further generation can be counted"

/-- Whether the caller is at fault. -/
def isCallers : StageError → Bool
  | argument _ => true
  | failed _ => false
  | draw _ => false
  | lastGeneration => false

/-- Whether nothing can go on after the error, not even what has nothing to do with the stage. -/
def isFatal : StageError → Bool
  | argument _ => false
  | failed _ => false
  | draw _ => true
  | lastGeneration => true

end StageError

/-- Why a run fails. -/
inductive PipelineError where
  | configuration (cause : ConfigurationError)
  | stage (cause : StageError)
  | illegalTransition (cause : IllegalTransition)
deriving DecidableEq

namespace PipelineError

def name : PipelineError → String
  | configuration cause => "Configuration." ++ cause.name
  | stage cause => "Stage." ++ cause.name
  | illegalTransition _ => "IllegalTransition"

def message : PipelineError → String
  | configuration cause => "configuration error: " ++ cause.message
  | stage cause => "stage error: " ++ cause.message
  | illegalTransition cause => cause.message

/-- Whether the wiring is at fault. -/
def isConfiguration : PipelineError → Bool
  | configuration _ => true
  | stage _ => false
  | illegalTransition _ => false

def isFatal : PipelineError → Bool
  | configuration _ => false
  | stage cause => cause.isFatal
  | illegalTransition _ => false

end PipelineError

/-- Whether an outcome is an error after which nothing can go on. -/
def isFatalOutcome {α : Type} : Except PipelineError α → Bool
  | .ok _ => false
  | .error cause => cause.isFatal

end Evolution
