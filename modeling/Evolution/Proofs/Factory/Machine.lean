import Evolution.Factory.Machine
import Evolution.Proofs.Table
import Mathlib.Algebra.BigOperators.Group.List.Basic
import Mathlib.Algebra.Order.Group.Multiset
import Mathlib.Algebra.Order.Sub.Unbundled.Basic
import Mathlib.Tactic.Abel

/-! What a machine makes of a batch. Answers are followed by their identifiers. A machine at rest is
at rest again after every run, and if its stage is honest, the batch and what the stage created are
all addressed when the run succeeds and all left when it fails. -/

namespace Evolution

def Answer.ids (answers : List Answer) : Multiset AnswerId := ↑(answers.map (·.id))

namespace Answer

@[simp]
theorem ids_nil : ids [] = 0 := rfl

@[simp]
theorem ids_append (answers more : List Answer) : ids (answers ++ more) = ids answers + ids more := by
  simp [ids]

end Answer

open Answer (ids)

/-- The answers of several deliveries. -/
def Delivery.load (deliveries : List Delivery) : Multiset AnswerId :=
  ids (deliveries.flatMap (·.answers))

namespace Delivery

@[simp]
theorem load_nil : load [] = 0 := rfl

@[simp]
theorem load_cons (d : Delivery) (rest : List Delivery) : load (d :: rest) = ids d.answers + load rest := by
  simp [load]

@[simp]
theorem load_append (ds more : List Delivery) : load (ds ++ more) = load ds + load more := by
  simp [load]

theorem load_eq_zero_iff {ds : List Delivery} : load ds = 0 ↔ ∀ d ∈ ds, d.answers = [] := by
  simp [load, ids]

end Delivery

/-- A stage that is called on a batch. -/
structure StageCall (σ : Type) where
  stage : σ
  supply : Supply
  input : List Answer

namespace StageCall

variable {σ : Type} [Stage σ]

def run (c : StageCall σ) : StageRun σ := Stage.process c.stage c.supply c.input

/-- A call that fails leaves its input alone; one that succeeds passes every answer on, once. -/
def Honest (c : StageCall σ) : Prop :=
  match c.run.outcome with
  | .error _ => c.run.left = c.input
  | .ok output => c.run.left = [] ∧ ids c.input ≤ ids (output.entries.flatMap (·.2))

instance (c : StageCall σ) : Decidable c.Honest := by
  unfold Honest
  split <;> infer_instance

/-- The answers of a successful call that were not in its input. -/
def created (c : StageCall σ) : Multiset AnswerId :=
  match c.run.outcome with
  | .error _ => 0
  | .ok output => ids (output.entries.flatMap (·.2)) - ids c.input

variable {c : StageCall σ}

theorem Honest.failed (honest : c.Honest) {cause : StageError}
    (outcome : c.run.outcome = .error cause) : ids c.run.left = ids c.input + c.created := by
  rw [Honest, outcome] at honest
  rw [honest, created, outcome, add_zero]

theorem Honest.sent (honest : c.Honest) {output : Table (List Answer)}
    (outcome : c.run.outcome = .ok output) :
    c.run.left = [] ∧ ids (output.entries.flatMap (·.2)) = ids c.input + c.created := by
  rw [Honest, outcome] at honest
  rw [created, outcome]
  exact ⟨honest.1, (add_tsub_cancel_of_le honest.2).symm⟩

end StageCall

/-- What several calls created. -/
def StageCall.allCreated {σ : Type} [Stage σ] (calls : List (StageCall σ)) : Multiset AnswerId :=
  (calls.map created).sum

@[simp]
theorem StageCall.allCreated_append {σ : Type} [Stage σ] (calls more : List (StageCall σ)) :
    allCreated (calls ++ more) = allCreated calls + allCreated more := by
  simp [allCreated]

/-- The answers that come out of a run: on their way when it succeeds, left when it fails. -/
def MachineRun.returned {σ : Type} (run : MachineRun σ) : Multiset AnswerId :=
  match run.outcome with
  | .error _ => ids run.left
  | .ok deliveries => Delivery.load deliveries

namespace Machine

variable {σ : Type} {m : Machine σ}

theorem moveTo_of_mem {target : MachineState} (allowed : target ∈ m.state.successors) :
    m.moveTo target = .ok { m with state := target } := by
  simp [moveTo, MachineState.move, allowed]

/-- With a destination for each path, addressing loses no batch. -/
theorem load_address {output : Table (List Answer)} (routed : m.unrouted? output.names = none) :
    Delivery.load (m.address output) = ids (output.entries.flatMap (·.2)) := by
  have known : ∀ entry ∈ output.entries, m.options.paths.contains entry.1 = true := by
    intro entry member
    have := List.find?_eq_none.mp routed entry.1 (List.mem_map_of_mem member)
    simpa using this
  unfold address
  generalize output.entries = entries at known
  induction entries with
  | nil => rfl
  | cons entry rest ih =>
    obtain ⟨path, answers⟩ := entry
    rw [List.forall_mem_cons] at known
    obtain ⟨d, found⟩ := Table.exists_get?_of_contains known.1
    have routes : m.route? path = some d := found
    simp [routes, ih known.2]

theorem giveUp_of_processing (busy : m.state = .processing) (supply : Supply) (left : List Answer)
    (cause : PipelineError) :
    m.giveUp supply left cause = ⟨{ m with state := .idle }, supply, left, .error cause⟩ := by
  rw [giveUp, moveTo_of_mem (by simp [busy, MachineState.successors])]

theorem dispatch_of_processing (busy : m.state = .processing) (supply : Supply) (received : Nat)
    (left : List Answer) (output : Table (List Answer)) :
    m.dispatch supply received left output =
      ⟨{ m with state := .idle, stats := m.stats.count received (m.address output) }, supply, left,
        .ok (m.address output)⟩ := by
  rw [dispatch, moveTo_of_mem (by simp [busy, MachineState.successors])]
  simp only
  rw [moveTo_of_mem (by simp [MachineState.successors])]
  rfl

variable [Stage σ]

/-- The call of the stage that a run makes unless it is refused. -/
def call (m : Machine σ) (supply : Supply) (input : List Answer) : StageCall σ :=
  ⟨m.stage, supply, input⟩

/-- What the run of a machine at rest comes to. -/
inductive Processed (m : Machine σ) (supply : Supply) (input : List Answer) : MachineRun σ → Prop
  | refused {path : String} (unrouted : m.unrouted? m.outputPaths = some path) :
    Processed m supply input ⟨m, supply, input, .error (m.unrouted path)⟩
  | failed {run : StageRun σ} {cause : StageError} (routed : m.unrouted? m.outputPaths = none)
      (called : (m.call supply input).run = run) (outcome : run.outcome = .error cause) :
    Processed m supply input
      ⟨{ m with stage := run.stage }, run.supply, run.left, .error (.stage cause)⟩
  | strayed {run : StageRun σ} {output : Table (List Answer)} {path : String}
      (routed : m.unrouted? m.outputPaths = none) (called : (m.call supply input).run = run)
      (outcome : run.outcome = .ok output) (unrouted : m.unrouted? output.names = some path) :
    Processed m supply input
      ⟨{ m with stage := run.stage }, run.supply, run.left ++ output.entries.flatMap (·.2),
        .error (m.unrouted path)⟩
  | sent {run : StageRun σ} {output : Table (List Answer)}
      (routed : m.unrouted? m.outputPaths = none) (called : (m.call supply input).run = run)
      (outcome : run.outcome = .ok output) (addressed : m.unrouted? output.names = none) :
    Processed m supply input
      ⟨{ m with stage := run.stage, stats := m.stats.count input.length (m.address output) },
        run.supply, run.left, .ok (m.address output)⟩

theorem processed (idle : m.state = .idle) (supply : Supply) (input : List Answer) :
    Processed m supply input (m.process supply input) := by
  obtain ⟨name, station, options, stage, state, stats⟩ := m
  obtain rfl : state = .idle := idle
  unfold process
  split
  · next unrouted => exact .refused unrouted
  · next routed =>
    rw [moveTo_of_mem (by simp [MachineState.successors])]
    simp only [work]
    split
    · next cause outcome =>
      rw [giveUp_of_processing rfl]
      exact .failed routed rfl outcome
    · next output outcome =>
      split
      · next unrouted =>
        rw [giveUp_of_processing rfl]
        exact .strayed routed rfl outcome unrouted
      · next addressed =>
        rw [dispatch_of_processing rfl]
        exact .sent routed rfl outcome addressed

/-- The calls of the stage that a run makes: one, unless the run is refused before. -/
def stageCalls (m : Machine σ) (supply : Supply) (input : List Answer) : List (StageCall σ) :=
  match m.unrouted? m.outputPaths with
  | some _ => []
  | none =>
    match m.moveTo .processing with
    | .error _ => []
    | .ok busy => [⟨busy.stage, supply, input⟩]

theorem stageCalls_of_unrouted {path : String} (unrouted : m.unrouted? m.outputPaths = some path)
    (supply : Supply) (input : List Answer) : m.stageCalls supply input = [] := by
  rw [stageCalls, unrouted]

theorem stageCalls_of_routed (idle : m.state = .idle) (routed : m.unrouted? m.outputPaths = none)
    (supply : Supply) (input : List Answer) : m.stageCalls supply input = [m.call supply input] := by
  rw [stageCalls, routed, moveTo_of_mem (by simp [idle, MachineState.successors])]
  rfl

theorem eq_call_of_mem (idle : m.state = .idle) {supply : Supply} {input : List Answer}
    {c : StageCall σ} (called : c ∈ m.stageCalls supply input) : c = m.call supply input := by
  cases unrouted : m.unrouted? m.outputPaths with
  | none => simpa [stageCalls_of_routed idle unrouted] using called
  | some path => simp [stageCalls_of_unrouted unrouted] at called

theorem process_idle (idle : m.state = .idle) (supply : Supply) (input : List Answer) :
    (m.process supply input).machine.state = .idle := by
  have done := processed idle supply input
  generalize m.process supply input = run at done ⊢
  cases done <;> exact idle

theorem stats_of_error (idle : m.state = .idle) {supply : Supply} {input : List Answer}
    {cause : PipelineError} (failed : (m.process supply input).outcome = .error cause) :
    (m.process supply input).machine.stats = m.stats := by
  have done := processed idle supply input
  generalize m.process supply input = run at done failed ⊢
  cases done with
  | refused | failed | strayed => rfl
  | sent => cases failed

/-- Nothing gets lost in a machine, and nothing is doubled. -/
theorem process_keeps (idle : m.state = .idle) {supply : Supply} {input : List Answer}
    (honest : ∀ c ∈ m.stageCalls supply input, c.Honest) :
    (m.process supply input).returned =
      ids input + StageCall.allCreated (m.stageCalls supply input) := by
  have called : m.unrouted? m.outputPaths = none → (m.call supply input).Honest ∧
      StageCall.allCreated (m.stageCalls supply input) = (m.call supply input).created := by
    intro routed
    rw [stageCalls_of_routed idle routed] at honest ⊢
    exact ⟨honest _ (List.mem_singleton_self _), by simp [StageCall.allCreated]⟩
  have done := processed idle supply input
  generalize m.process supply input = run at done ⊢
  cases done with
  | refused unrouted =>
    simp [MachineRun.returned, stageCalls_of_unrouted unrouted, StageCall.allCreated]
  | failed routed same outcome =>
    subst same
    rw [(called routed).2]
    exact (called routed).1.failed outcome
  | strayed routed same outcome unrouted =>
    subst same
    obtain ⟨none, passed⟩ := (called routed).1.sent outcome
    rw [(called routed).2, MachineRun.returned, none]
    exact passed
  | sent routed same outcome addressed =>
    subst same
    rw [(called routed).2]
    exact (load_address addressed).trans ((called routed).1.sent outcome).2

end Machine

end Evolution
