import Evolution.Factory.Workstation
import Evolution.Proofs.Checks
import Evolution.Proofs.Factory.Machine

/-! What a workstation holds. Every operation moves answers between the queues, the inbox and the
deliveries on their way, and a run adds what the stages create. The machines and their queues have
the same names throughout, so nothing that is addressed to a machine finds no queue. -/

namespace Evolution

open Answer (ids)

/-- The answers that a run of one machine puts on their way. -/
def StationStep.load {σ : Type} (step : StationStep σ) : Multiset AnswerId :=
  match step.outcome with
  | .error _ => 0
  | .ok deliveries => Delivery.load deliveries

namespace Workstation

variable {σ : Type} {w : Workstation σ}

/-- All answers in the queues and in the inbox. -/
def held (w : Workstation σ) : Multiset AnswerId := w.queues.total ids + ids w.inbox

/-- There is a queue for each machine and for nothing else, and every machine is at rest. -/
structure Consistent (w : Workstation σ) : Prop where
  queues : w.queues.names = w.machines.names
  idle : ∀ name m, w.machines.get? name = some m → m.state = .idle

theorem Consistent.contains (h : w.Consistent) (machine : String) :
    w.queues.contains machine = w.hasMachine machine := by
  rw [hasMachine, Table.contains, Table.contains, h.queues]

theorem consistent_new (name : String) : (new name : Workstation σ).Consistent := by
  refine ⟨rfl, ?_⟩
  intro machine m found
  cases found

/-- Changing a queue changes no name. -/
theorem Consistent.withQueue (h : w.Consistent) {machine : String}
    (filed : w.queues.contains machine = true) (queue : List Answer) :
    ({ w with queues := w.queues.insert machine queue } : Workstation σ).Consistent :=
  ⟨(Table.names_insert_of_contains filed queue).trans h.queues, h.idle⟩

/-- Changing a machine changes no name. -/
theorem Consistent.withMachine (h : w.Consistent) {name : String}
    (filed : w.hasMachine name = true) {m : Machine σ} (idle : m.state = .idle) :
    ({ w with machines := w.machines.insert name m } : Workstation σ).Consistent := by
  refine ⟨h.queues.trans (Table.names_insert_of_contains filed m).symm, ?_⟩
  intro other found
  simp only [Table.get?_insert]
  split
  · rintro ⟨⟩
    exact idle
  · exact h.idle other found

theorem Consistent.add (h : w.Consistent) {m : Machine σ} (idle : m.state = .idle)
    {w' : Workstation σ} (added : w.add m = .ok w') : w'.Consistent ∧ w'.held = w.held := by
  unfold Workstation.add at added
  split at added
  · simp at added
  · next absent =>
    obtain rfl := Except.ok.inj added
    have noQueue : w.queues.contains m.name = false := by simpa [h.contains] using absent
    refine ⟨⟨?_, ?_⟩, ?_⟩
    · simp only [Table.names_insert, h.queues]
    · intro other found
      simp only [Table.get?_insert]
      split
      · rintro ⟨⟩
        exact idle
      · exact h.idle other found
    · have total := Table.total_insert_of_absent ids (Table.get?_eq_none noQueue) []
      simp only [held, total, Answer.ids_nil, add_zero]

theorem machine_eq_ok_iff {name : String} {m : Machine σ} :
    w.machine name = .ok m ↔ w.machines.get? name = some m := by
  unfold Workstation.machine
  cases w.machines.get? name <;> simp

theorem Consistent.setPath (h : w.Consistent) {machine path : String} {d : Destination}
    {w' : Workstation σ} (changed : w.setPath machine path d = .ok w') :
    w'.Consistent ∧ w'.held = w.held := by
  obtain ⟨m, named, made⟩ := bind_eq_ok_iff.mp changed
  obtain rfl := Except.ok.inj made
  have found := machine_eq_ok_iff.mp named
  have same : (m.setPath path d).state = .idle := h.idle machine m found
  exact ⟨h.withMachine (Table.contains_of_get? found) same, rfl⟩

/-- Answers are accepted unless they are for a machine that is not here. -/
theorem Consistent.receive (h : w.Consistent) {target : Option String}
    (here : ∀ machine ∈ target, w.hasMachine machine = true) (answers : List Answer) :
    ∃ w', w.receive answers target = .ok w' ∧ w'.Consistent ∧
      w'.machines = w.machines ∧ w'.held = w.held + ids answers := by
  cases target with
  | none =>
    refine ⟨_, rfl, ⟨h.queues, h.idle⟩, rfl, ?_⟩
    simp [held, add_assoc]
  | some machine =>
    have filed : w.queues.contains machine = true := (h.contains machine).trans (here machine rfl)
    obtain ⟨queue, found⟩ := Table.exists_get?_of_contains filed
    refine ⟨{ w with queues := w.queues.insert machine (queue ++ answers) }, ?_,
      h.withQueue filed _, rfl, ?_⟩
    · simp [Workstation.receive, found]
    · have total := Table.total_insert_of_get? ids found (queue ++ answers)
      rw [Answer.ids_append, add_comm (ids queue), ← add_assoc] at total
      simp only [held, add_right_cancel total]
      abel

theorem Consistent.of_receive (h : w.Consistent) {answers : List Answer} {target : Option String}
    {w' : Workstation σ} (received : w.receive answers target = .ok w') : w'.Consistent := by
  cases target with
  | none =>
    obtain rfl := Except.ok.inj received
    exact ⟨h.queues, h.idle⟩
  | some machine =>
    unfold Workstation.receive at received
    cases found : w.queues.get? machine with
    | none => simp [found] at received
    | some queue =>
      simp only [found] at received
      obtain rfl := Except.ok.inj received
      exact h.withQueue (Table.contains_of_get? found) _

/-- A queue that is set gives up what it held for what it gets. -/
theorem held_setQueue {machine : String} (filed : w.queues.contains machine = true)
    (queue : List Answer) :
    (w.setQueue machine queue).held + ids (w.queue machine) = w.held + ids queue := by
  obtain ⟨old, found⟩ := Table.exists_get?_of_contains filed
  have before : w.queue machine = old := by simp [Workstation.queue, found]
  have total := Table.total_insert_of_get? ids found queue
  rw [setQueue, if_pos filed, before, held, held]
  simp only [add_right_comm _ (ids w.inbox), total]

theorem Consistent.setQueue (h : w.Consistent) (machine : String) (queue : List Answer) :
    (w.setQueue machine queue).Consistent := by
  unfold Workstation.setQueue
  split
  · next filed => exact h.withQueue filed queue
  · exact h

theorem machines_setQueue (machine : String) (queue : List Answer) :
    (w.setQueue machine queue).machines = w.machines := by
  unfold setQueue
  split <;> rfl

/-- What is dumped is what the workstation holds no longer. -/
theorem held_dump (w : Workstation σ) (machine : String) :
    (w.dump machine).2.held + ids (w.dump machine).1 = w.held := by
  unfold dump
  by_cases filed : w.queues.contains machine = true
  · have emptied := held_setQueue filed []
    rwa [Answer.ids_nil, add_zero] at emptied
  · have absent := Table.get?_eq_none (Bool.eq_false_iff.mpr filed)
    simp [setQueue, filed, Workstation.queue, absent]

theorem held_takeInbox (w : Workstation σ) : w.takeInbox.2.held + ids w.takeInbox.1 = w.held := by
  simp [takeInbox, held]

/-- Deliveries that are addressed here are queued, the others are given back; none is refused. -/
theorem Consistent.settle (h : w.Consistent) (deliveries : List Delivery) :
    ∃ w' others, w.settle deliveries = (w', others, .ok ()) ∧ w'.Consistent ∧
      w'.machines = w.machines ∧
      w'.held + Delivery.load others = w.held + Delivery.load deliveries := by
  induction deliveries generalizing w with
  | nil => exact ⟨w, [], rfl, h, rfl, rfl⟩
  | cons d rest ih =>
    rw [Workstation.settle]
    by_cases here : w.isLocal d.destination = true
    · have machine : ∀ machine ∈ d.destination.machine, w.hasMachine machine = true := by
        intro machine target
        rw [isLocal, Option.mem_def.mp target] at here
        simpa using (Bool.and_eq_true_iff.mp here).2
      obtain ⟨w₁, received, consistent, machines, got⟩ := h.receive machine d.answers
      obtain ⟨w₂, others, settled, consistent', machines', kept⟩ := ih consistent
      refine ⟨w₂, others, ?_, consistent', machines'.trans machines, ?_⟩
      · simp [here, received, settled]
      · rw [kept, got, Delivery.load_cons, add_assoc]
    · obtain ⟨w₁, others, settled, consistent, machines, kept⟩ := ih h
      refine ⟨w₁, d :: others, ?_, consistent, machines, ?_⟩
      · simp [here, settled]
      · rw [Delivery.load_cons, Delivery.load_cons, add_left_comm, kept, add_left_comm]

/-- After a run nothing is gained or lost: what came back is on its way or in the queue again. -/
theorem Consistent.conclude (h : w.Consistent) {name : String} (filed : w.hasMachine name = true)
    {run : MachineRun σ} (idle : run.machine.state = .idle) :
    (w.conclude name run).workstation.Consistent ∧
      (w.conclude name run).workstation.machines.names = w.machines.names ∧
      (w.conclude name run).workstation.held + (w.conclude name run).load =
        w.held + run.returned := by
  let after : Workstation σ := { w with machines := w.machines.insert name run.machine }
  have consistent : after.Consistent := h.withMachine filed idle
  have names : after.machines.names = w.machines.names :=
    Table.names_insert_of_contains filed run.machine
  unfold Workstation.conclude StationStep.load MachineRun.returned
  cases outcome : run.outcome with
  | ok deliveries => exact ⟨consistent, names, rfl⟩
  | error cause =>
    let back := after.setQueue name (run.left ++ after.queue name)
    have same : back.machines = after.machines := machines_setQueue name _
    refine ⟨consistent.setQueue name _, (congrArg Table.names same).trans names, ?_⟩
    have queue : after.queues.contains name = true := (h.contains name).trans filed
    have put : back.held + ids (after.queue name) =
        after.held + (ids run.left + ids (after.queue name)) :=
      Answer.ids_append run.left _ ▸ held_setQueue queue (run.left ++ after.queue name)
    rw [← add_assoc] at put
    exact (add_zero _).trans (add_right_cancel put)

variable [Stage σ]

/-- The calls of stages that a run of one machine makes. -/
def machineCalls (w : Workstation σ) (supply : Supply) (name : String) : List (StageCall σ) :=
  match w.machines.get? name with
  | none => []
  | some m => m.stageCalls supply (w.queue name)

/-- The run of a machine changes no name, and puts in the place of its queue what comes back. -/
theorem Consistent.runMachine_of_get? (h : w.Consistent) {name : String} {m : Machine σ}
    (found : w.machines.get? name = some m) (supply : Supply) :
    (w.runMachine supply name).workstation.Consistent ∧
      (w.runMachine supply name).workstation.machines.names = w.machines.names ∧
      (w.runMachine supply name).workstation.held + (w.runMachine supply name).load =
        (w.dump name).2.held + (m.process supply (w.queue name)).returned := by
  have same : (w.dump name).2.machines = w.machines := machines_setQueue name []
  have filed : (w.dump name).2.hasMachine name = true := by
    rw [hasMachine, same]
    exact Table.contains_of_get? found
  have idle := Machine.process_idle (h.idle name m found) supply (w.queue name)
  obtain ⟨consistent, names, kept⟩ := (h.setQueue name []).conclude filed idle
  have step : w.runMachine supply name =
      (w.dump name).2.conclude name (m.process supply (w.queue name)) := by
    rw [Workstation.runMachine, found]
    rfl
  rw [step]
  exact ⟨consistent, names.trans (congrArg Table.names same), kept⟩

theorem Consistent.runMachine (h : w.Consistent) (supply : Supply) (name : String) :
    (w.runMachine supply name).workstation.Consistent ∧
      (w.runMachine supply name).workstation.machines.names = w.machines.names := by
  cases found : w.machines.get? name with
  | none =>
    rw [Workstation.runMachine, found]
    exact ⟨h, rfl⟩
  | some m =>
    obtain ⟨consistent, names, _⟩ := h.runMachine_of_get? found supply
    exact ⟨consistent, names⟩

theorem Consistent.held_runMachine (h : w.Consistent) {supply : Supply} {name : String}
    (honest : ∀ c ∈ w.machineCalls supply name, c.Honest) :
    (w.runMachine supply name).workstation.held + (w.runMachine supply name).load =
      w.held + StageCall.allCreated (w.machineCalls supply name) := by
  unfold machineCalls at honest ⊢
  cases found : w.machines.get? name with
  | none =>
    rw [Workstation.runMachine, found]
    rfl
  | some m =>
    simp only [found] at honest ⊢
    obtain ⟨_, _, kept⟩ := h.runMachine_of_get? found supply
    rw [kept, Machine.process_keeps (h.idle name m found) honest, ← add_assoc]
    exact congrArg (· + _) (w.held_dump name)

/-- The calls of stages that a run through machines makes. -/
def stageCalls (w : Workstation σ) (supply : Supply) : List String → List (StageCall σ)
  | [] => []
  | name :: rest =>
    let step := w.runMachine supply name
    w.machineCalls supply name ++
      match step.outcome with
      | .error _ => []
      | .ok deliveries =>
        match step.workstation.settle deliveries with
        | (_, _, .error _) => []
        | (w, _, .ok ()) => w.stageCalls step.supply rest

theorem Consistent.runEach (h : w.Consistent) (supply : Supply) (names : List String) :
    (w.runEach supply names).workstation.Consistent ∧
      (w.runEach supply names).workstation.machines.names = w.machines.names := by
  induction names generalizing w supply with
  | nil => exact ⟨h, rfl⟩
  | cons name rest ih =>
    unfold Workstation.runEach
    obtain ⟨consistent, same⟩ := h.runMachine supply name
    cases outcome : (w.runMachine supply name).outcome with
    | error cause =>
      simp only [outcome]
      exact ⟨consistent, same⟩
    | ok deliveries =>
      obtain ⟨w', others, settled, consistent', machines, _⟩ := consistent.settle deliveries
      obtain ⟨consistent'', names⟩ := ih consistent' (w.runMachine supply name).supply
      simp only [outcome, settled]
      exact ⟨consistent'', names.trans ((congrArg Table.names machines).trans same)⟩

/-- A run through machines keeps all answers, here or on their way, and adds the created ones. -/
theorem Consistent.held_runEach (h : w.Consistent) {supply : Supply} {names : List String}
    (honest : ∀ c ∈ w.stageCalls supply names, c.Honest) :
    (w.runEach supply names).workstation.held +
        Delivery.load (w.runEach supply names).outbound =
      w.held + StageCall.allCreated (w.stageCalls supply names) := by
  induction names generalizing w supply with
  | nil => rfl
  | cons name rest ih =>
    unfold stageCalls at honest ⊢
    unfold Workstation.runEach
    have kept := h.held_runMachine fun c hc => honest c (List.mem_append_left _ hc)
    unfold StationStep.load at kept
    cases outcome : (w.runMachine supply name).outcome with
    | error cause =>
      simp only [outcome] at kept ⊢
      simpa using kept
    | ok deliveries =>
      simp only [outcome] at honest kept ⊢
      obtain ⟨w', others, settled, consistent, _, queued⟩ :=
        (h.runMachine supply name).1.settle deliveries
      simp only [settled] at honest ⊢
      have held := ih consistent fun c hc => honest c (List.mem_append_right _ hc)
      rw [Delivery.load_append, StageCall.allCreated_append, add_comm (Delivery.load others),
        ← add_assoc, held, add_right_comm, queued, kept, add_assoc]

end Workstation

end Evolution
