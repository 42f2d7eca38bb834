import Evolution.Execution.Library
import Evolution.Literal.Builtin

/-!
Running programs. The points still to run wait in a row; the first of them takes effect, and a block
puts its contents in front of the others. Every point counts as a step. When a point comes up and
the limit of steps is reached, the row is cleared and the run ends without notice. Names that are
not known and literals that cannot be read have no effect. Sensors look at the outcome.
-/

namespace Evolution

/-- A program with all that a run reads and changes. -/
structure Execution where
  program : Program
  library : Library
  types : Registry
  limit : Nat
  state : Stacks
  bindings : Table Value
  /-- The points that wait, the next one first. -/
  pending : List Point
  steps : Nat

namespace Execution

def defaultLimit : Nat := 3000

def new (program : Program) (library : Library) (types : Registry) (limit : Nat) : Execution where
  program
  library
  types
  limit
  state := .empty
  bindings := .empty
  pending := []
  steps := 0

/-- Forgets stacks, bindings, waiting points and steps. -/
def reset (x : Execution) : Execution :=
  { x with state := .empty, bindings := .empty, pending := [], steps := 0 }

def bind (x : Execution) (name : String) (v : Value) : Execution :=
  { x with bindings := x.bindings.insert name v }

def push (x : Execution) (v : Value) : Execution :=
  { x with state := x.state.push v }

def pop (x : Execution) (kind : String) : Option Value × Execution :=
  match x.state.pop? kind with
  | none => (none, x)
  | some (v, state) => (some v, { x with state })

/-- What a single point does to the stacks. A name that nothing is bound to is a value itself. -/
def effect (x : Execution) (p : Point) (s : Stacks) : Stacks :=
  match p with
  | .block _ => s
  | .instruction name =>
    match x.library.get? name with
    | some i => i.perform s
    | none => s
  | .reference name => s.push ((x.bindings.get? name).getD (.name name))
  | .literal note =>
    match x.types.read note.tag note.text with
    | .ok v => s.push v
    | .error _ => s

/-- What comes of the first waiting point and those behind it: at the limit the row is cleared,
otherwise the point counts as a step and takes effect. -/
def step (x : Execution) (p : Point) (rest : List Point) : Execution :=
  if x.limit ≤ x.steps then { x with pending := [] }
  else
    { x with
      pending := p.contents ++ rest
      state := x.effect p x.state
      steps := x.steps + 1 }

theorem sizes_pending_step (x : Execution) (p : Point) (rest : List Point) :
    Point.sizes (x.step p rest).pending < Point.sizes (p :: rest) := by
  rw [Point.sizes, Point.size_eq_succ_sizes]
  unfold step
  split
  · rw [Point.sizes]
    omega
  · rw [Point.sizes_append]
    omega

/-- Takes steps until no point waits. -/
def finish (x : Execution) : Execution :=
  match _ : x.pending with
  | [] => x
  | p :: rest => (x.step p rest).finish
termination_by Point.sizes x.pending
decreasing_by
  next waiting => exact waiting ▸ x.sizes_pending_step p rest

/-- Runs the program. The stacks go on from where they are. -/
def run (x : Execution) : Execution :=
  { x with pending := [x.program.root], steps := 0 }.finish

end Execution

/-- What a sensor has before it. -/
structure View where
  execution : Execution
  /-- The names of all sensors. -/
  names : List String
  /-- What the sensor of a name reads. -/
  reading : String → Option Value

/-- A sensor reads a value, or none, off what it has before it. -/
structure Sensor where
  read : View → Option Value
deriving Inhabited

namespace Sensor

def probe (read : Execution → Option Value) : Sensor := ⟨fun view => read view.execution⟩

/-- Reads what the sensor of a name reads. -/
def named (name : String) : Sensor := ⟨fun view => view.reading name⟩

/-- Reads the top of a stack. -/
def top (kind : String) : Sensor := probe (·.state.top? kind)

def bottom (kind : String) : Sensor := probe fun x => (x.state.get kind).getLast?

def depth (kind : String) : Sensor := probe fun x => some (.int (Int64.ofNat (x.state.depth kind)))

def binding (name : String) : Sensor := probe (·.bindings.get? name)

def steps : Sensor := probe fun x => some (.int (Int64.ofNat x.steps))

def points : Sensor := probe fun x => some (.int (Int64.ofNat x.program.size))

/-- Reads the same in every run. -/
def constant (reading : Option Value) : Sensor := probe fun _ => reading

end Sensor

/-- What the sensors read, under their names. -/
abbrev Readings := Table (Option Value)

/-- An execution under observation. -/
structure Interpreter where
  execution : Execution
  sensors : Table Sensor

namespace Interpreter

def new (program : Program) (library : Library) (types : Registry) (limit : Nat) : Interpreter :=
  ⟨.new program library types limit, .empty⟩

def register (i : Interpreter) (name : String) (sensor : Sensor) : Interpreter :=
  { i with sensors := i.sensors.insert name sensor }

/-- What a sensor reads, by way of as many others as given. -/
def readWithin (i : Interpreter) : Nat → Sensor → Option Value
  | 0, sensor => sensor.read ⟨i.execution, i.sensors.names, fun _ => none⟩
  | more + 1, sensor =>
    let reading name := (i.sensors.get? name).bind (i.readWithin more)
    sensor.read ⟨i.execution, i.sensors.names, reading⟩

/-- What a sensor reads. Sensors that stand for each other in a circle read nothing. -/
def readOne (i : Interpreter) (sensor : Sensor) : Option Value := i.readWithin i.sensors.size sensor

def read (i : Interpreter) (name : String) : Option Value := (i.sensors.get? name).bind i.readOne

def readings (i : Interpreter) : Readings := i.sensors.map fun _ sensor => i.readOne sensor

/-- Forgets what earlier calls left; the sensors stay. -/
def reset (i : Interpreter) : Interpreter := { i with execution := i.execution.reset }

def run (i : Interpreter) : Interpreter := { i with execution := i.execution.run }

end Interpreter

end Evolution
