import Evolution.Factory.Workstation

/-!
Factories: workstations in the order in which they were built, and the libraries that their programs
may use. Before a run the routes are checked. After the run of a workstation everything that it
sends out is delivered, or nothing if one destination is missing. A cycle checks all routes and runs
the workstations in turn, up to the first that fails.
-/

namespace Evolution

/-- The settings of a factory. -/
structure FactoryConfig where
  name : String := "my_factory"
  /-- The instructions to which the library is restricted. -/
  instructions : Option (List String) := none
  /-- The types to which the registry is restricted. -/
  types : Option (List String) := none
  extras : Table Json := .empty

/-- Workstations with their libraries. -/
structure Factory (σ : Type) where
  config : FactoryConfig
  library : Library
  types : Registry
  workstations : Table (Workstation σ)

structure FlowRecord where
  workstation : String
  machine : String
  stats : MachineStats
  /-- The number of answers in the machine's queue. -/
  pending : Nat

/-- What a run did. -/
structure FactoryRun (σ : Type) where
  factory : Factory σ
  supply : Supply
  outcome : Except PipelineError Unit

namespace Factory

variable {σ : Type}

def libraryFor (c : FactoryConfig) : Except ConfigurationError Library :=
  match c.instructions with
  | none => .ok .builtin
  | some names => (Library.builtin.restrict names).mapError (.unknownLibraryEntry ·.message)

def registryFor (c : FactoryConfig) : Except ConfigurationError Registry :=
  match c.types with
  | none => .ok .builtin
  | some names => (Registry.builtin.restrict names).mapError (.unknownLibraryEntry ·.message)

def new (c : FactoryConfig) : Except ConfigurationError (Factory σ) := do
  return ⟨c, ← libraryFor c, ← registryFor c, .empty⟩

/-- Settings that let operators use all that the libraries have. -/
def breedingOptions (f : Factory σ) : BreedingOptions :=
  { instructions := some f.library.names, types := some f.types.names }

def workstation (f : Factory σ) (name : String) : Except ConfigurationError (Workstation σ) :=
  match f.workstations.get? name with
  | some w => .ok w
  | none => .error (.unknownWorkstation name)

def put (f : Factory σ) (name : String) (w : Workstation σ) : Factory σ :=
  { f with workstations := f.workstations.insert name w }

def build (f : Factory σ) (name : String) : Except ConfigurationError (Factory σ) :=
  if f.workstations.contains name then .error (.duplicateName name)
  else .ok (f.put name (.new name))

def modify (f : Factory σ) (name : String)
    (change : Workstation σ → Except ConfigurationError (Workstation σ)) :
    Except ConfigurationError (Factory σ) := do
  return f.put name (← change (← f.workstation name))

/-- Refuses a destination that does not exist. -/
def checkDestination (f : Factory σ) (d : Destination) : Except ConfigurationError Unit := do
  let w ← f.workstation d.workstation
  match d.machine with
  | none => return ()
  | some machine =>
    if w.hasMachine machine then return () else throw (.unknownMachine d.workstation machine)

def deliver (f : Factory σ) (answers : List Answer) (d : Destination) :
    Except ConfigurationError (Factory σ) :=
  f.modify d.workstation (·.receive answers d.machine)

/-- The factory with all deliveries made; if one destination does not exist, none is made. -/
def route (f : Factory σ) (deliveries : List Delivery) : Except ConfigurationError (Factory σ) := do
  deliveries.forM fun d => f.checkDestination d.destination
  deliveries.foldlM (fun f d => f.deliver d.answers d.destination) f

def flowReport (f : Factory σ) : List FlowRecord :=
  f.workstations.entries.flatMap fun (_, w) =>
    w.machines.entries.map fun (_, m) =>
      ⟨w.name, m.name, m.stats, (w.queue m.name).length⟩

variable [Stage σ]

/-- Refuses a machine that may emit on a path without an existing destination. -/
def checkMachine (f : Factory σ) (w : Workstation σ) (m : Machine σ) :
    Except ConfigurationError Unit :=
  m.outputPaths.forM fun path =>
    match m.route? path with
    | none => .error (.unroutedPath (w.name ++ "/" ++ m.name) path)
    | some d => f.checkDestination d

def checkWorkstation (f : Factory σ) (w : Workstation σ) : Except ConfigurationError Unit :=
  w.machines.entries.forM fun (_, m) => f.checkMachine w m

def validate (f : Factory σ) : Except ConfigurationError Unit :=
  f.workstations.entries.forM fun (_, w) => f.checkWorkstation w

/-- Runs a workstation and delivers what it sends out, also when a machine fails. A missing
destination is reported before the failure, unless nothing can go on after the failure. -/
def runChecked (f : Factory σ) (supply : Supply) (name : String) : FactoryRun σ :=
  match f.workstation name with
  | .error cause => ⟨f, supply, .error (.configuration cause)⟩
  | .ok w =>
    let run := w.run supply
    let f := f.put name run.workstation
    match f.route run.outbound with
    | .error cause =>
      ⟨f, run.supply,
        if isFatalOutcome run.outcome then run.outcome else .error (.configuration cause)⟩
    | .ok f => ⟨f, run.supply, run.outcome⟩

def runWorkstation (f : Factory σ) (supply : Supply) (name : String) : FactoryRun σ :=
  match f.workstation name >>= f.checkWorkstation with
  | .error cause => ⟨f, supply, .error (.configuration cause)⟩
  | .ok () => f.runChecked supply name

/-- Runs the named workstations in turn, up to the first that fails. -/
def runEach (f : Factory σ) (supply : Supply) : List String → FactoryRun σ
  | [] => ⟨f, supply, .ok ()⟩
  | name :: rest =>
    let run := f.runChecked supply name
    match run.outcome with
    | .error _ => run
    | .ok () => run.factory.runEach run.supply rest

def cycle (f : Factory σ) (supply : Supply) : FactoryRun σ :=
  match f.validate with
  | .error cause => ⟨f, supply, .error (.configuration cause)⟩
  | .ok () => f.runEach supply f.workstations.names

end Factory

end Evolution
