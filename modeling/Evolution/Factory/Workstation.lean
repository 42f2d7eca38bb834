import Evolution.Factory.Machine

/-!
Workstations. A workstation has machines, a queue for each of them, and an inbox for the answers
that are addressed to the workstation itself. A run goes through the machines in the order in which
they were added. What is addressed to the own workstation is queued at once, so that a later machine
finds it; the rest goes out. A machine that fails puts what it has left back in front of its queue.
-/

namespace Evolution

/-- Machines with their queues. -/
structure Workstation (σ : Type) where
  name : String
  machines : Table (Machine σ)
  queues : Table (List Answer)
  inbox : List Answer

/-- What the run of one machine did. -/
structure StationStep (σ : Type) where
  workstation : Workstation σ
  supply : Supply
  outcome : Except PipelineError (List Delivery)

/-- What a run through the machines did. -/
structure StationRun (σ : Type) where
  workstation : Workstation σ
  supply : Supply
  /-- What is addressed elsewhere, also when the run failed later on. -/
  outbound : List Delivery
  outcome : Except PipelineError Unit

namespace Workstation

variable {σ : Type}

def new (name : String) : Workstation σ := ⟨name, .empty, .empty, []⟩

/-- The error of a machine that is not here. -/
def unknown (w : Workstation σ) (machine : String) : ConfigurationError :=
  .unknownMachine w.name machine

def hasMachine (w : Workstation σ) (machine : String) : Bool := w.machines.contains machine

def machine (w : Workstation σ) (name : String) : Except ConfigurationError (Machine σ) :=
  match w.machines.get? name with
  | some m => .ok m
  | none => .error (w.unknown name)

def add (w : Workstation σ) (m : Machine σ) : Except ConfigurationError (Workstation σ) :=
  if w.hasMachine m.name then .error (.duplicateName (w.name ++ "/" ++ m.name))
  else
    .ok { w with machines := w.machines.insert m.name m, queues := w.queues.insert m.name [] }

/-- The workstation with one more machine, made for it. -/
def build (w : Workstation σ) (name : String) (stage : σ) :
    Except ConfigurationError (Workstation σ) :=
  w.add (.new name w.name stage {})

def setPath (w : Workstation σ) (machine path : String) (d : Destination) :
    Except ConfigurationError (Workstation σ) := do
  let m ← w.machine machine
  return { w with machines := w.machines.insert machine (m.setPath path d) }

/-- The workstation with more answers in the queue of a machine, or in the inbox. -/
def receive (w : Workstation σ) (answers : List Answer) :
    Option String → Except ConfigurationError (Workstation σ)
  | none => .ok { w with inbox := w.inbox ++ answers }
  | some machine =>
    match w.queues.get? machine with
    | none => .error (w.unknown machine)
    | some queue => .ok { w with queues := w.queues.insert machine (queue ++ answers) }

/-- The queue of a machine; of a machine that is not here it is empty. -/
def queue (w : Workstation σ) (machine : String) : List Answer := (w.queues.get? machine).getD []

/-- The workstation with another queue for a machine that it has. -/
def setQueue (w : Workstation σ) (machine : String) (queue : List Answer) : Workstation σ :=
  if w.queues.contains machine then { w with queues := w.queues.insert machine queue } else w

def dump (w : Workstation σ) (machine : String) : List Answer × Workstation σ :=
  (w.queue machine, w.setQueue machine [])

def takeInbox (w : Workstation σ) : List Answer × Workstation σ :=
  (w.inbox, { w with inbox := [] })

/-- Whether a destination is here. A machine that is not here makes it a matter of the factory. -/
def isLocal (w : Workstation σ) (d : Destination) : Bool :=
  d.workstation == w.name &&
    match d.machine with
    | none => true
    | some machine => w.hasMachine machine

/-- Queues what is addressed here, one delivery after the other, and gives back the rest. -/
def settle (w : Workstation σ) :
    List Delivery → Workstation σ × List Delivery × Except ConfigurationError Unit
  | [] => (w, [], .ok ())
  | d :: rest =>
    if w.isLocal d.destination then
      match w.receive d.answers d.destination.machine with
      | .error cause => (w, [], .error cause)
      | .ok w => w.settle rest
    else
      let (w, others, outcome) := w.settle rest
      (w, d :: others, outcome)

/-- Takes a machine back after a run. What is left of a run that failed goes to the front of the
machine's queue. -/
def conclude (w : Workstation σ) (name : String) (run : MachineRun σ) : StationStep σ :=
  let w := { w with machines := w.machines.insert name run.machine }
  match run.outcome with
  | .ok deliveries => ⟨w, run.supply, .ok deliveries⟩
  | .error cause => ⟨w.setQueue name (run.left ++ w.queue name), run.supply, .error cause⟩

variable [Stage σ]

/-- Runs one machine on its queue. -/
def runMachine (w : Workstation σ) (supply : Supply) (name : String) : StationStep σ :=
  match w.machines.get? name with
  | none => ⟨w, supply, .error (.configuration (w.unknown name))⟩
  | some m =>
    let (input, emptied) := w.dump name
    emptied.conclude name (m.process supply input)

/-- Runs the named machines in turn, up to the first that fails. -/
def runEach (w : Workstation σ) (supply : Supply) : List String → StationRun σ
  | [] => ⟨w, supply, [], .ok ()⟩
  | name :: rest =>
    let step := w.runMachine supply name
    match step.outcome with
    | .error cause => ⟨step.workstation, step.supply, [], .error cause⟩
    | .ok deliveries =>
      match step.workstation.settle deliveries with
      | (w, others, .error cause) => ⟨w, step.supply, others, .error (.configuration cause)⟩
      | (w, others, .ok ()) =>
        let run := w.runEach step.supply rest
        { run with outbound := others ++ run.outbound }

/-- Runs every machine once. -/
def run (w : Workstation σ) (supply : Supply) : StationRun σ := w.runEach supply w.machines.names

end Workstation

end Evolution
