import Evolution.Factory.Destination
import Evolution.Factory.Stage
import Evolution.Json.Basic

/-!
Machines. A machine gives its stage a batch and addresses what comes out. Every path that the stage
declares must have a destination before it starts, and every path that it emits on must have one
before anything is sent; what was emitted otherwise joins the answers that are left. Only a run that
succeeds is counted.
-/

namespace Evolution

/-- The routes of a machine, and settings that are passed through. -/
structure MachineOptions where
  paths : Table Destination := .empty
  extras : Table Json := .empty

/-- The counters of a machine. -/
structure MachineStats where
  received : Nat := 0
  emitted : Table Nat := .empty
  runs : Nat := 0

namespace MachineStats

def emittedOn (s : MachineStats) (path : String) : Nat := (s.emitted.get? path).getD 0

/-- Answers sent on a path for each one taken in; zero before anything was taken in. -/
def gain (s : MachineStats) (path : String) : Float :=
  if s.received = 0 then 0 else Float.ofNat (s.emittedOn path) / Float.ofNat s.received

/-- The counters after one more run. -/
def count (s : MachineStats) (received : Nat) (deliveries : List Delivery) : MachineStats where
  received := s.received + received
  emitted :=
    deliveries.foldl
      (fun t d => t.insert d.path ((t.get? d.path).getD 0 + d.answers.length)) s.emitted
  runs := s.runs + 1

end MachineStats

/-- A stage with its routes. -/
structure Machine (σ : Type) where
  name : String
  /-- The name of the workstation for which the machine was made. -/
  workstation : String
  options : MachineOptions
  stage : σ
  state : MachineState
  stats : MachineStats

/-- What a machine did with a batch. -/
structure MachineRun (σ : Type) where
  machine : Machine σ
  supply : Supply
  /-- The answers that stay with the machine's queue if the run failed. -/
  left : List Answer
  outcome : Except PipelineError (List Delivery)

namespace Machine

variable {σ : Type}

def new (name workstation : String) (stage : σ) (options : MachineOptions) : Machine σ :=
  ⟨name, workstation, options, stage, .idle, {}⟩

/-- The machine with a route for a path, in the place of an earlier one. -/
def setPath (m : Machine σ) (path : String) (d : Destination) : Machine σ :=
  { m with options := { m.options with paths := m.options.paths.insert path d } }

def route? (m : Machine σ) (path : String) : Option Destination := m.options.paths.get? path

def unrouted? (m : Machine σ) (paths : List String) : Option String :=
  paths.find? (!m.options.paths.contains ·)

def unrouted (m : Machine σ) (path : String) : PipelineError :=
  .configuration (.unroutedPath m.name path)

/-- The machine in another state. -/
def moveTo (m : Machine σ) (target : MachineState) : Except PipelineError (Machine σ) :=
  match m.state.move target with
  | .ok state => .ok { m with state }
  | .error cause => .error (.illegalTransition cause)

/-- Ends a run that failed. -/
def giveUp (m : Machine σ) (supply : Supply) (left : List Answer) (cause : PipelineError) :
    MachineRun σ :=
  match m.moveTo .idle with
  | .ok idle => ⟨idle, supply, left, .error cause⟩
  | .error illegal => ⟨m, supply, left, .error illegal⟩

/-- Batches with their addresses. -/
def address (m : Machine σ) (output : Table (List Answer)) : List Delivery :=
  output.entries.filterMap fun (path, answers) => (m.route? path).map (⟨path, ·, answers⟩)

/-- Ends a run whose batches all have addresses, and counts it. -/
def dispatch (m : Machine σ) (supply : Supply) (received : Nat) (left : List Answer)
    (output : Table (List Answer)) : MachineRun σ :=
  match m.moveTo .dispatched with
  | .error illegal => ⟨m, supply, left, .error illegal⟩
  | .ok sent =>
    let deliveries := sent.address output
    let counted := { sent with stats := sent.stats.count received deliveries }
    match counted.moveTo .idle with
    | .error illegal => ⟨counted, supply, left, .error illegal⟩
    | .ok idle => ⟨idle, supply, left, .ok deliveries⟩

variable [Stage σ]

/-- The paths on which the machine may emit. -/
def outputPaths (m : Machine σ) : List String := Stage.paths m.stage

/-- Lets the stage work on a batch. -/
def work (m : Machine σ) (supply : Supply) (input : List Answer) : MachineRun σ :=
  let run := Stage.process m.stage supply input
  let m := { m with stage := run.stage }
  match run.outcome with
  | .error cause => m.giveUp run.supply run.left (.stage cause)
  | .ok output =>
    match m.unrouted? output.names with
    | some path =>
      m.giveUp run.supply (run.left ++ output.entries.flatMap (·.2)) (m.unrouted path)
    | none => m.dispatch run.supply input.length run.left output

/-- Works on a batch and addresses what comes out. -/
def process (m : Machine σ) (supply : Supply) (input : List Answer) : MachineRun σ :=
  match m.unrouted? m.outputPaths with
  | some path => ⟨m, supply, input, .error (m.unrouted path)⟩
  | none =>
    match m.moveTo .processing with
    | .error illegal => ⟨m, supply, input, .error illegal⟩
    | .ok busy => busy.work supply input

end Machine

end Evolution
