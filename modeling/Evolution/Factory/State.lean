/-!
What a machine is doing, and the changes between these states that are allowed. A run goes from idle
through processing and dispatched back to idle, or from processing straight back when it fails.
-/

namespace Evolution

inductive MachineState where
  | idle
  | processing
  | dispatched
deriving DecidableEq, Inhabited

/-- A change of state that is not allowed. -/
structure IllegalTransition where
  source : MachineState
  target : MachineState
deriving DecidableEq, Inhabited

namespace MachineState

def name : MachineState → String
  | idle => "Idle"
  | processing => "Processing"
  | dispatched => "Dispatched"

/-- The states that may come next. -/
def successors : MachineState → List MachineState
  | idle => [processing]
  | processing => [dispatched, idle]
  | dispatched => [idle]

/-- The new state, if it may come next. -/
def move (source target : MachineState) : Except IllegalTransition MachineState :=
  if target ∈ source.successors then .ok target else .error ⟨source, target⟩

end MachineState

def IllegalTransition.message (e : IllegalTransition) : String :=
  s!"illegal machine transition {e.source.name} -> {e.target.name}"

end Evolution
