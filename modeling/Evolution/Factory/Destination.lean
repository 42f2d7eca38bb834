import Evolution.Answer.Basic

/-!
Where answers go: to the queue of a machine, or to the inbox of a workstation.
-/

namespace Evolution

/-- A machine of a workstation, or without a machine the workstation's inbox. -/
structure Destination where
  workstation : String
  machine : Option String
deriving DecidableEq, Inhabited

def Destination.display (d : Destination) : String :=
  match d.machine with
  | some machine => d.workstation ++ "/" ++ machine
  | none => d.workstation

/-- Answers on their way, with the path on which they left their machine. -/
structure Delivery where
  path : String
  destination : Destination
  answers : List Answer

end Evolution
