import Evolution.Proofs.Execution.Run
import Evolution.Proofs.Table

/-! Runs with restricted libraries. Names that are not known and literals that cannot be read have no
effect, so taking instructions and types out of the libraries is putting the instruction that does
nothing in the place of the points that need them. Every such point still counts as a step. -/

namespace Evolution

namespace Point

/-- Whether a point by itself needs an instruction or a type that is not among the given ones. -/
def excluded (instructions types : List String) : Point → Bool
  | .instruction name => name ∉ instructions
  | .literal note => note.tag ∉ types
  | .block _ | .reference _ => false

variable {instructions types : List String}

mutual

/-- The tree with the instruction that does nothing in the place of every excluded point. -/
def erased (instructions types : List String) : Point → Point
  | .block inner => .block (erasedIn instructions types inner)
  | .instruction name => if name ∈ instructions then .instruction name else .instruction "exec_noop"
  | .reference name => .reference name
  | .literal note => if note.tag ∈ types then .literal note else .instruction "exec_noop"

def erasedIn (instructions types : List String) : List Point → List Point
  | [] => []
  | p :: rest => erased instructions types p :: erasedIn instructions types rest

end

theorem erasedIn_eq_map (ps : List Point) :
    erasedIn instructions types ps = ps.map (erased instructions types) := by
  induction ps with
  | nil => rfl
  | cons p rest ih => rw [erasedIn, ih, List.map_cons]

/-- Erasing goes point by point. -/
theorem preorder_erased (p : Point) :
    (p.erased instructions types).preorder = p.preorder.map (erased instructions types) := by
  induction p with
  | block inner ih =>
    simp only [erased, erasedIn_eq_map, preorder, preorders_eq_flatMap, List.map_cons,
      List.flatMap_map, List.map_flatMap]
    rw [List.flatMap_congr ih]
  | instruction name =>
    simp only [erased, preorder, List.map_cons, List.map_nil]
    split <;> rfl
  | reference name => rfl
  | literal note =>
    simp only [erased, preorder, List.map_cons, List.map_nil]
    split <;> rfl

theorem size_erased (p : Point) : (p.erased instructions types).size = p.size := by
  rw [← length_preorder, preorder_erased, List.length_map, length_preorder]

/-- A tree that needs no more than what is there stays as it is. -/
theorem erased_eq_self {p : Point} (needs : ∀ q ∈ p.preorder, q.excluded instructions types = false) :
    p.erased instructions types = p := by
  induction p with
  | block inner ih =>
    obtain ⟨_, inside⟩ := forall_preorder_block.mp needs
    rw [erased, erasedIn_eq_map, List.map_congr_left fun p member => ih p member (inside p member),
      List.map_id']
  | instruction name =>
    have known : name ∈ instructions := by simpa [preorder, excluded] using needs
    rw [erased, if_pos known]
  | reference name => rfl
  | literal note =>
    have known : note.tag ∈ types := by simpa [preorder, excluded] using needs
    rw [erased, if_pos known]

end Point

theorem Library.restrict_eq_ok_iff {l kept : Library} {names : List String} :
    l.restrict names = .ok kept ↔ l.instructions.restrict names = .ok kept.instructions := by
  obtain ⟨instructions⟩ := kept
  rw [Library.restrict]
  cases l.instructions.restrict names <;> simp

theorem Library.restrict_eq_error_iff {l : Library} {names : List String} {name : String} :
    l.restrict names = .error ⟨name⟩ ↔ Table.FirstUnknown l.names names name := by
  rw [Library.names, ← Table.restrict_eq_error_iff, Library.restrict]
  cases l.instructions.restrict names <;> simp

theorem Registry.restrict_eq_ok_iff {r kept : Registry} {names : List String} :
    r.restrict names = .ok kept ↔ r.types.restrict names = .ok kept.types := by
  obtain ⟨types⟩ := kept
  rw [Registry.restrict]
  cases r.types.restrict names <;> simp

theorem Registry.restrict_eq_error_iff {r : Registry} {names : List String} {e : LiteralError} :
    r.restrict names = .error e ↔
      ∃ name, e = .unknownType name ∧ Table.FirstUnknown r.names names name := by
  simp only [Registry.names, ← Table.restrict_eq_error_iff, Registry.restrict]
  cases r.types.restrict names with
  | ok types => simp
  | error name => simp [eq_comm]

theorem Library.get?_restrict {l kept : Library} {names : List String}
    (restricted : l.restrict names = .ok kept) (name : String) :
    kept.get? name = if name ∈ names then l.get? name else none :=
  Table.get?_restrict (Library.restrict_eq_ok_iff.mp restricted) name

theorem Registry.read_restrict {r kept : Registry} {names : List String}
    (restricted : r.restrict names = .ok kept) (type text : String) :
    kept.read type text = if type ∈ names then r.read type text else .error (.unknownType type) := by
  simp only [Registry.read, Table.get?_restrict (Registry.restrict_eq_ok_iff.mp restricted)]
  by_cases listed : type ∈ names <;> simp [listed]

namespace Execution

variable {x : Execution} {library : Library} {types : Registry} {N T : List String}

/-- The execution with other libraries. -/
def withLibraries (x : Execution) (library : Library) (types : Registry) : Execution :=
  { x with library, types }

/-- The execution with the built-in libraries and without the points that the given names exclude. -/
def erased (x : Execution) (instructions types : List String) : Execution :=
  { x.withLibraries .builtin .builtin with
    program := { x.program with root := x.program.root.erased instructions types } }

/-- A point has the effect under the restricted libraries that the point in its place has under all. -/
theorem effect_restricted (hl : Library.builtin.restrict N = .ok library)
    (hr : Registry.builtin.restrict T = .ok types) (p : Point) (s : Stacks) :
    (x.withLibraries library types).effect p s = (x.erased N T).effect (p.erased N T) s := by
  have noop : Library.builtin.get? "exec_noop" = some ⟨"exec_noop", id⟩ := rfl
  cases p with
  | block inner => rfl
  | instruction name =>
    by_cases kept : name ∈ N
    · simp [effect, Point.erased, erased, withLibraries, Library.get?_restrict hl, kept]
    · simp [effect, Point.erased, erased, withLibraries, Library.get?_restrict hl, kept, noop]
  | reference name => rfl
  | literal note =>
    by_cases kept : note.tag ∈ T
    · simp [effect, Point.erased, erased, withLibraries, Registry.read_restrict hr, kept]
    · simp [effect, Point.erased, erased, withLibraries, Registry.read_restrict hr, kept, noop]

theorem effects_restricted (hl : Library.builtin.restrict N = .ok library)
    (hr : Registry.builtin.restrict T = .ok types) (ps : List Point) :
    (x.withLibraries library types).effects ps = (x.erased N T).effects (ps.map (·.erased N T)) := by
  rw [effects, effects, List.foldl_map]
  exact List.foldl_ext _ _ _ fun s p _ => effect_restricted hl hr p s

/-- The run under the restricted libraries ends with the stacks of the other run and after as many
steps. -/
theorem run_withLibraries (hl : Library.builtin.restrict N = .ok library)
    (hr : Registry.builtin.restrict T = .ok types) :
    (x.withLibraries library types).run.state = (x.erased N T).run.state ∧
      (x.withLibraries library types).run.steps = (x.erased N T).run.steps := by
  have row : Point.preorders [x.program.root.erased N T] =
      (Point.preorders [x.program.root]).map (·.erased N T) := by
    simp [Point.preorders, Point.preorder_erased]
  have count : Point.sizes [x.program.root.erased N T] = Point.sizes [x.program.root] := by
    simp [Point.sizes, Point.size_erased]
  let restricted : Execution :=
    { x.withLibraries library types with pending := [x.program.root], steps := 0 }
  let whole : Execution :=
    { x.erased N T with pending := [x.program.root.erased N T], steps := 0 }
  have runs : (x.withLibraries library types).run = restricted.settled :=
    finish_eq_settled restricted
  have runs' : (x.erased N T).run = whole.settled := finish_eq_settled whole
  rw [runs, runs']
  constructor
  · change _ = whole.effects ((Point.preorders [x.program.root.erased N T]).take (x.limit - 0))
    rw [row, ← List.map_take]
    exact effects_restricted hl hr _
  · change _ = 0 + min (x.limit - 0) (Point.sizes [x.program.root.erased N T])
    rw [count]
    rfl

/-- A run changes nothing but stacks, waiting points and steps. -/
theorem run_eq (x : Execution) :
    x.run = { x with state := x.run.state, pending := [], steps := x.run.steps } := by
  rw [run, finish_eq_settled]
  rfl

end Execution

/-- The sensor looks at the stacks and at nothing else. -/
def Sensor.OnStacks (sensor : Sensor) : Prop :=
  ∀ v v' : View, v.execution.state = v'.execution.state → sensor.read v = sensor.read v'

namespace Interpreter

variable {N T : List String} {library : Library} {types : Registry}

def withLibraries (i : Interpreter) (library : Library) (types : Registry) : Interpreter :=
  { i with execution := i.execution.withLibraries library types }

def erased (i : Interpreter) (instructions types : List String) : Interpreter :=
  { i with execution := i.execution.erased instructions types }

theorem readOne_of_onStacks {i j : Interpreter} (same : i.execution.state = j.execution.state)
    {sensor : Sensor} (looks : sensor.OnStacks) : i.readOne sensor = j.readOne sensor := by
  have read : ∀ (k : Interpreter) (n : Nat), ∃ v : View, v.execution.state = k.execution.state ∧
      k.readWithin n sensor = sensor.read v := by
    rintro k (_ | n)
    · exact ⟨_, rfl, rfl⟩
    · exact ⟨_, rfl, rfl⟩
  obtain ⟨v, state, reads⟩ := read i i.sensors.size
  obtain ⟨v', state', reads'⟩ := read j j.sensors.size
  rw [readOne, readOne, reads, reads']
  exact looks v v' (state.trans (same.trans state'.symm))

theorem get?_readings {i : Interpreter} {name : String} {sensor : Sensor}
    (registered : i.sensors.get? name = some sensor) :
    i.readings.get? name = some (i.readOne sensor) := by
  rw [readings, Table.get?_map, registered, Option.map_some]

/-- Running with restricted libraries is running with all instructions and types what is left of the
program when every point that needs another one does nothing. Restricting to what the program needs
changes nothing. A restriction has the names that were given, in the order in which they first were,
and is refused at the first of them that is not known. -/
theorem run_restricted (hl : Library.builtin.restrict N = .ok library)
    (hr : Registry.builtin.restrict T = .ok types) (i : Interpreter) :
    let restricted := (i.withLibraries library types).run
    let erased := (i.erased N T).run
    let whole := (i.withLibraries .builtin .builtin).run
    (restricted.execution.state = erased.execution.state ∧
        restricted.execution.steps = erased.execution.steps ∧
        ∀ name sensor, i.sensors.get? name = some sensor → sensor.OnStacks →
          restricted.readings.get? name = erased.readings.get? name) ∧
      ((∀ q ∈ i.execution.program.root.preorder, q.excluded N T = false) →
        restricted = whole.withLibraries library types) ∧
      (library.names = N.eraseDups ∧ types.names = T.eraseDups) ∧
      (∀ (l : Library) (names : List String) (name : String),
        l.restrict names = .error ⟨name⟩ ↔ Table.FirstUnknown l.names names name) ∧
      ∀ (r : Registry) (names : List String) (e : LiteralError), r.restrict names = .error e ↔
        ∃ name, e = .unknownType name ∧ Table.FirstUnknown r.names names name := by
  intro restricted erased whole
  obtain ⟨state, steps⟩ := Execution.run_withLibraries (x := i.execution) hl hr
  refine ⟨⟨state, steps, ?_⟩, ?_,
    ⟨Table.names_restrict (Library.restrict_eq_ok_iff.mp hl),
      Table.names_restrict (Registry.restrict_eq_ok_iff.mp hr)⟩,
    fun _ _ _ => Library.restrict_eq_error_iff, fun _ _ _ => Registry.restrict_eq_error_iff⟩
  · intro name sensor registered looks
    rw [get?_readings (i := restricted) registered, get?_readings (i := erased) registered,
      readOne_of_onStacks (i := restricted) (j := erased) state looks]
  · intro needs
    have same : i.execution.erased N T = i.execution.withLibraries .builtin .builtin := by
      rw [Execution.erased, Point.erased_eq_self needs]
      rfl
    rw [same] at state steps
    have runs := (i.execution.withLibraries library types).run_eq
    have runs' := (i.execution.withLibraries .builtin .builtin).run_eq
    rw [state, steps] at runs
    change (⟨_, _⟩ : Interpreter) = ⟨_, _⟩
    rw [Interpreter.mk.injEq]
    refine ⟨runs.trans ?_, rfl⟩
    change _ = (i.execution.withLibraries .builtin .builtin).run.withLibraries library types
    rw [runs']
    rfl

/-- A sum with the literal on the stack; a float and a product that are excluded; and a name that is no
instruction at all. -/
def mixed : Interpreter :=
  let points : List Point := [.literal ⟨"int", "3"⟩, .instruction "int_add", .literal ⟨"float", "2.5"⟩,
    .instruction "int_multiply", .instruction "int_cube"]
  let i := new ⟨.block points, []⟩ .builtin .builtin 10
  { i with execution := i.execution.push (.int 1), sensors := .ofList [("total", .top "int")] }

theorem run_restricted_mixed :
    ∃ library types, Library.builtin.restrict ["int_add", "bool_not", "int_add"] = .ok library ∧
      Registry.builtin.restrict ["int"] = .ok types ∧
      let restricted := (mixed.withLibraries library types).run
      let erased := (mixed.erased ["int_add", "bool_not", "int_add"] ["int"]).run
      restricted.execution.state.get "int" = [.int 4] ∧ restricted.execution.steps = 6 ∧
        restricted.execution.state = erased.execution.state ∧
        restricted.readings.get? "total" = erased.readings.get? "total" ∧
        library.names = ["int_add", "bool_not"] := by
  have hl : Library.builtin.restrict ["int_add", "bool_not", "int_add"] = .ok _ := rfl
  have hr : Registry.builtin.restrict ["int"] = .ok _ := rfl
  obtain ⟨⟨state, _, reads⟩, _, ⟨names, _⟩, _⟩ := run_restricted hl hr mixed
  refine ⟨_, _, hl, hr, by decide +kernel, by decide +kernel, state, ?_, names⟩
  exact reads "total" (.top "int") rfl fun v v' same => by simp only [Sensor.top, Sensor.probe, same]

end Interpreter

end Evolution
