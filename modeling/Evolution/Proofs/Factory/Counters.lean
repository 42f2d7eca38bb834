import Evolution.Proofs.Evaluation.Batch
import Evolution.Proofs.Factory.Cycle

/-! What machines count. A turn of a machine whose paths lead somewhere adds to its counters what it
took in, unless it fails, and what it sent. Breeding and evaluation declare their paths, leave a batch
alone when they fail and otherwise pass on as many answers as they took. -/

namespace Evolution

open Delivery (addressed)

/-- What deliveries carry that left on a path. -/
def Delivery.onPath (path : String) (deliveries : List Delivery) : List Answer :=
  (deliveries.filter (·.path = path)).flatMap (·.answers)

open Delivery (onPath)

@[simp]
theorem Delivery.onPath_nil (path : String) : onPath path [] = [] := rfl

@[simp]
theorem Delivery.onPath_cons (path : String) (e : Delivery) (rest : List Delivery) :
    onPath path (e :: rest) = (if e.path = path then e.answers else []) ++ onPath path rest := by
  by_cases here : e.path = path <;> simp [onPath, here]

theorem MachineStats.emittedOn_count (s : MachineStats) (received : Nat) (sent : List Delivery)
    (path : String) :
    (s.count received sent).emittedOn path = s.emittedOn path + (onPath path sent).length := by
  unfold count emittedOn
  generalize s.emitted = counts
  induction sent generalizing counts with
  | nil => rfl
  | cons e rest ih =>
    rw [List.foldl_cons, ih, Table.get?_insert, Delivery.onPath_cons, List.length_append]
    by_cases here : path = e.path
    · simp [here, Nat.add_assoc]
    · simp [here, Ne.symm here]

namespace Machine

variable {σ : Type} {m : Machine σ}

/-- The number of answers sent so far on the paths that lead to a destination. -/
def sentTo (m : Machine σ) (d : Destination) : Nat :=
  (m.options.paths.entries.map fun (path, e) => if e = d then m.stats.emittedOn path else 0).sum

/-- What is sent on routed paths arrives where they lead. -/
theorem sum_onPath {sent : List Delivery} (routed : ∀ e ∈ sent, m.route? e.path = some e.destination)
    (d : Destination) :
    (m.options.paths.entries.map
      fun (path, e) => if e = d then (onPath path sent).length else 0).sum =
      (addressed d sent).length := by
  induction sent with
  | nil => simp
  | cons e rest ih =>
    obtain ⟨first, routed⟩ := List.forall_mem_cons.mp routed
    -- What `e` adds under each route: everything under that of its path, if that leads to `d`.
    let share : String × Destination → Nat := fun (path, e') =>
      if e' = d then if e.path = path then e.answers.length else 0 else 0
    have one : (m.options.paths.entries.map share).sum = share (e.path, e.destination) :=
      Table.sum_map_of_get? first share fun route _ other => by simp [share, Ne.symm other]
    rw [Delivery.addressed_cons, List.length_append, ← ih routed,
      show (if e.destination = d then e.answers else []).length = share (e.path, e.destination) by
        simp [share, apply_ite List.length],
      ← one, ← List.sum_map_add]
    congr 2
    funext ⟨path, e'⟩
    by_cases there : e' = d <;> simp [share, there, apply_ite List.length]

/-- Counting what was sent adds to each destination what is addressed to it. -/
theorem sentTo_count (m : Machine σ) (stage : σ) (received : Nat) {sent : List Delivery}
    (routed : ∀ e ∈ sent, m.route? e.path = some e.destination) (d : Destination) :
    ({ m with stage, stats := m.stats.count received sent } : Machine σ).sentTo d =
      m.sentTo d + (addressed d sent).length := by
  rw [← sum_onPath routed d, sentTo, sentTo, ← List.sum_map_add]
  congr 2
  funext ⟨path, e⟩
  by_cases there : e = d <;> simp [there, MachineStats.emittedOn_count]

/-- With a destination for each path, the batch under a path is what is sent on it. -/
theorem onPath_address {output : Table (List Answer)}
    (routed : ∀ path ∈ output.names, ∃ d, m.route? path = some d) (path : String) :
    onPath path (m.address output) = (output.get? path).getD [] := by
  obtain ⟨entries, distinct⟩ := output
  change ∀ path ∈ entries.map Prod.fst, ∃ d, m.route? path = some d at routed
  change onPath path (entries.filterMap fun entry => (m.route? entry.1).map (⟨entry.1, ·, entry.2⟩)) =
    (entries.lookup path).getD []
  induction entries with
  | nil => rfl
  | cons entry rest ih =>
    obtain ⟨key, answers⟩ := entry
    obtain ⟨absent, distinct⟩ := List.nodup_cons.mp distinct
    obtain ⟨⟨d, route⟩, routed⟩ := List.forall_mem_cons.mp routed
    rw [List.filterMap_cons]
    simp only [route, Option.map_some, Delivery.onPath_cons, ih distinct routed, Table.lookup_entry]
    by_cases here : path = key
    · subst here
      -- The names of a table are distinct, so no other batch left on this path.
      have none : rest.lookup path = none := by
        rw [List.lookup_eq_none_iff]
        intro other member
        have apart : ¬path = other.1 := fun same =>
          absent (List.mem_map.mpr ⟨other, member, same.symm⟩)
        simpa using apart
      simp [none]
    · simp [here, Ne.symm here]

end Machine

namespace Turn

variable {σ : Type} [Stage σ] {t : Turn σ} {reached : Destination → Bool}

/-- What a turn counts: what the machine took in but for what it keeps, what it sent, and its call if
the stage did not fail. -/
structure Booked (t : Turn σ) : Prop where
  received : t.kept.length + t.run.machine.stats.received =
    t.input.length + t.machine.stats.received
  sent : ∀ d, t.run.machine.sentTo d = t.machine.sentTo d + (addressed d t.sent).length
  runs : t.run.machine.stats.runs = t.machine.stats.runs + if t.call.run.outcome.isOk then 1 else 0

/-- The turn of a machine with routes, whose stage leaves its input alone when it fails. -/
theorem booked (idle : t.machine.state = .idle) (wired : t.machine.Wired reached)
    (declared : t.call.Declared)
    (leaves : ∀ cause, t.call.run.outcome = .error cause → t.call.run.left = t.input) :
    t.Booked := by
  have taken := taken idle wired declared
  generalize ran : t.run = run at taken
  cases taken with
  | failed outcome =>
    constructor
    · simp [kept, MachineRun.kept, ran, leaves _ outcome]
    · simp [Turn.sent, MachineRun.sent, ran, Machine.sentTo]
    · simp [ran, outcome, Except.isOk, Except.toBool]
  | sent outcome _ =>
    constructor
    · simp [kept, MachineRun.kept, ran, MachineStats.count, Nat.add_comm]
    · intro d
      simp only [Turn.sent, MachineRun.sent, ran]
      exact t.machine.sentTo_count _ _ (fun e sent => (Machine.mem_address sent).2) d
    · simp [ran, outcome, Except.isOk, Except.toBool, MachineStats.count]

end Turn

/-- The path on which a stage passes on as many answers as it takes in, if it is a built-in one. -/
def Work.passing? : Work → Option String
  | breeding _ => some Stage.parentsPath
  | evaluation _ => some Stage.scoredPath
  | custom _ => none

/-- What a built-in stage does: it leaves the batch alone when it fails, and otherwise emits on
declared paths, with as many answers as it took on the one that passes them on. -/
theorem StageCall.passes {c : StageCall Work} {path : String} (builtin : c.stage.passing? = some path) :
    c.run.stage.passing? = some path ∧ c.Declared ∧
      match c.run.outcome with
      | .error _ => c.run.left = c.input
      | .ok output => ∃ batch, output.get? path = some batch ∧ batch.length = c.input.length := by
  obtain ⟨stage, supply, input⟩ := c
  cases stage with
  | breeding s =>
    obtain rfl := Option.some.inj builtin
    simp only [run, Declared, Stage.process, Work.lift, BreedingStage.process]
    split
    · simp [Work.passing?]
    · split
      · simp [Work.passing?]
      · split
        · simp [Work.passing?]
        · refine ⟨rfl, by simp [Table.ofList, Table.names_insert, Stage.paths, Stage.parentsPath,
            Stage.createdPath], input, ?_, rfl⟩
          simp [Table.ofList, Table.get?_insert, Stage.parentsPath, Stage.createdPath]
  | evaluation s =>
    obtain rfl := Option.some.inj builtin
    simp only [run, Declared, Stage.process, Work.lift, EvaluationStage.process]
    split
    · next cause refused =>
      simp [Work.passing?, Evaluator.unchanged_of_refused refused]
    · refine ⟨rfl, by simp [Table.ofList, Table.names_insert, Stage.paths], _, ?_,
        Evaluator.length_evaluateInPlace s.evaluator input s.cases⟩
      simp [Table.ofList, Table.get?_insert]
  | custom s => cases builtin

/-- The machine has a built-in stage, and has passed on as many answers as it took in. -/
def Machine.PassesOn (m : Machine Work) : Prop :=
  ∃ path, m.stage.passing? = some path ∧ m.stats.emittedOn path = m.stats.received

theorem Machine.PassesOn.emittedOn_eq {m : Machine Work} (h : m.PassesOn) :
    match m.stage with
    | .breeding _ => m.stats.emittedOn Stage.parentsPath = m.stats.received
    | .evaluation _ => m.stats.emittedOn Stage.scoredPath = m.stats.received
    | .custom _ => False := by
  obtain ⟨path, passing, equal⟩ := h
  cases stage : m.stage with
  | breeding s | evaluation s =>
    rw [stage] at passing
    obtain rfl := Option.some.inj passing
    exact equal
  | custom s =>
    rw [stage] at passing
    cases passing

namespace Turn

variable {t : Turn Work} {reached : Destination → Bool}

theorem booked_of_passesOn (idle : t.machine.state = .idle) (wired : t.machine.Wired reached)
    (passes : t.machine.PassesOn) : t.Booked ∧ t.run.machine.PassesOn := by
  obtain ⟨path, passing, equal⟩ := passes
  obtain ⟨same, declared, works⟩ := StageCall.passes (c := t.call) passing
  constructor
  · refine booked idle wired declared fun cause failed => ?_
    rw [failed] at works
    exact works
  · have taken := taken idle wired declared
    generalize t.run = run at taken ⊢
    cases taken with
    | failed outcome => exact ⟨path, same, equal⟩
    | sent outcome within =>
      rw [outcome] at works
      obtain ⟨batch, found, whole⟩ := works
      have routed : ∀ path ∈ _, ∃ d, t.machine.route? path = some d := fun path member =>
        have ⟨d, route, _⟩ := wired path (within path member)
        ⟨d, route⟩
      refine ⟨path, same, ?_⟩
      rw [MachineStats.emittedOn_count, Machine.onPath_address routed, found, Option.getD_some, whole,
        equal]
      rfl

end Turn

end Evolution
