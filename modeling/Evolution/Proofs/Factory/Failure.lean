import Evolution.Proofs.Evaluation.Readings
import Evolution.Proofs.Factory.Counters
import Evolution.Proofs.Factory.Requests

/-! What a failed run leaves behind. A machine gives up from every point of a run to the state and the
counters that it had, and its queue has again what the stage did not use up; breeding and evaluation
leave it just as it was. -/

namespace Evolution

/-- No machine was asked for what its state does not allow. -/
def LegalOutcome {α : Type} (outcome : Except PipelineError α) : Prop :=
  ∀ cause, outcome ≠ .error (.illegalTransition cause)

theorem legalOutcome_ok {α : Type} (a : α) : LegalOutcome (.ok a) := by
  intro cause same
  cases same

theorem legalOutcome_stage {α : Type} (cause : StageError) :
    LegalOutcome (.error (.stage cause) : Except PipelineError α) := by
  intro other same
  cases same

theorem legalOutcome_configuration {α : Type} (cause : ConfigurationError) :
    LegalOutcome (.error (.configuration cause) : Except PipelineError α) := by
  intro other same
  cases same

theorem LegalOutcome.of_error {α β : Type} {cause : PipelineError}
    (h : LegalOutcome (.error cause : Except PipelineError α)) :
    LegalOutcome (.error cause : Except PipelineError β) :=
  fun other same => h other (congrArg Except.error (Except.error.inj same))

theorem LegalOutcome.map {α β : Type} {outcome : Except PipelineError α} (h : LegalOutcome outcome)
    (f : α → β) : LegalOutcome (outcome.map f) := by
  cases outcome with
  | error cause => exact h.of_error
  | ok a => exact legalOutcome_ok (f a)

theorem Machine.legal_process {σ : Type} [Stage σ] {m : Machine σ} (idle : m.state = .idle)
    (supply : Supply) (input : List Answer) : LegalOutcome (m.process supply input).outcome := by
  have done := processed idle supply input
  generalize m.process supply input = run at done
  cases done with
  | refused | strayed => exact legalOutcome_configuration _
  | failed => exact legalOutcome_stage _
  | sent => exact legalOutcome_ok _

namespace Workstation

variable {σ : Type} {w : Workstation σ} {supply : Supply} {name : String}

theorem outcome_conclude (w : Workstation σ) (name : String) (run : MachineRun σ) :
    (w.conclude name run).outcome = run.outcome := by
  unfold conclude
  cases run.outcome <;> rfl

theorem Consistent.get?_queues (h : w.Consistent) {m : Machine σ}
    (found : w.machines.get? name = some m) : w.queues.get? name = some (w.queue name) := by
  have filed : w.queues.contains name = true :=
    (h.contains name).trans (Table.contains_of_get? found)
  obtain ⟨queue, there⟩ := Table.exists_get?_of_contains filed
  rw [Workstation.queue, there, Option.getD_some]

/-- A machine whose queue was taken comes back from a run that failed. -/
theorem Consistent.conclude_of_error (h : w.Consistent) {m : Machine σ}
    (found : w.machines.get? name = some m) {run : MachineRun σ} {cause : PipelineError}
    (failed : run.outcome = .error cause) :
    ((w.dump name).2.conclude name run).workstation =
      { w with
        machines := w.machines.insert name run.machine
        queues := w.queues.insert name run.left } := by
  have filed := Table.contains_of_get? (h.get?_queues found)
  have emptied : (w.dump name).2 = { w with queues := w.queues.insert name [] } := if_pos filed
  have filed' : (w.queues.insert name []).contains name = true :=
    Table.contains_of_get? ((Table.get?_insert ..).trans (if_pos rfl))
  rw [emptied, Workstation.conclude, failed]
  simp only [Workstation.setQueue, filed', if_true, Workstation.queue, Table.get?_insert,
    Option.getD_some, List.append_nil, Table.insert_insert]

variable [Stage σ]

theorem Consistent.legal_runMachine (h : w.Consistent) (supply : Supply) (name : String) :
    LegalOutcome (w.runMachine supply name).outcome := by
  unfold Workstation.runMachine
  cases found : w.machines.get? name with
  | none => exact legalOutcome_configuration _
  | some m =>
    simp only [outcome_conclude]
    exact Machine.legal_process (h.idle name m found) supply _

theorem Consistent.legal_runEach (h : w.Consistent) (supply : Supply) (names : List String) :
    LegalOutcome (w.runEach supply names).outcome := by
  induction names generalizing w supply with
  | nil => exact legalOutcome_ok ()
  | cons name rest ih =>
    have legal := h.legal_runMachine supply name
    unfold Workstation.runEach
    cases outcome : (w.runMachine supply name).outcome with
    | error cause =>
      rw [outcome] at legal
      simp only [outcome]
      exact legal.of_error
    | ok deliveries =>
      obtain ⟨w', others, settled, consistent, _⟩ := (h.runMachine supply name).1.settle deliveries
      simp only [outcome, settled]
      exact ih consistent _

/-- The workstation after the run of a machine that failed for a cause. Its other machines, its other
queues and its inbox are as they were. -/
inductive Restored (w : Workstation σ) (supply : Supply) (name : String) :
    PipelineError → Workstation σ → Prop
  | unknown (absent : w.machines.get? name = none) :
    Restored w supply name (.configuration (w.unknown name)) w
  /-- A path that the stage declares leads nowhere: nothing was done. -/
  | refused {m : Machine σ} {path : String} (found : w.machines.get? name = some m)
    (unrouted : m.unrouted? m.outputPaths = some path) : Restored w supply name (m.unrouted path) w
  /-- The stage failed: what it left of its input is in the queue. -/
  | failed {m : Machine σ} {run : StageRun σ} {cause : StageError}
    (found : w.machines.get? name = some m) (routed : m.unrouted? m.outputPaths = none)
    (called : Stage.process m.stage supply (w.queue name) = run) (outcome : run.outcome = .error cause) :
    Restored w supply name (.stage cause)
      { w with
        machines := w.machines.insert name { m with stage := run.stage }
        queues := w.queues.insert name run.left }
  /-- The stage emitted on a path that leads nowhere: what it emitted follows what it left. -/
  | strayed {m : Machine σ} {run : StageRun σ} {output : Table (List Answer)} {path : String}
    (found : w.machines.get? name = some m) (routed : m.unrouted? m.outputPaths = none)
    (called : Stage.process m.stage supply (w.queue name) = run) (outcome : run.outcome = .ok output)
    (unrouted : m.unrouted? output.names = some path) :
    Restored w supply name (m.unrouted path)
      { w with
        machines := w.machines.insert name { m with stage := run.stage }
        queues := w.queues.insert name (run.left ++ output.entries.flatMap (·.2)) }

theorem Consistent.restored (h : w.Consistent) {cause : PipelineError}
    (failed : (w.runMachine supply name).outcome = .error cause) :
    w.Restored supply name cause (w.runMachine supply name).workstation := by
  unfold Workstation.runMachine at failed ⊢
  cases found : w.machines.get? name with
  | none =>
    simp only [found] at failed ⊢
    obtain rfl := Except.error.inj failed
    exact .unknown found
  | some m =>
    simp only [found, outcome_conclude] at failed ⊢
    rw [h.conclude_of_error found failed]
    have done := Machine.processed (h.idle name m found) supply (w.queue name)
    change (m.process supply (w.queue name)).outcome = _ at failed
    change w.Restored _ _ _ { w with
      machines := w.machines.insert name (m.process supply (w.queue name)).machine
      queues := w.queues.insert name (m.process supply (w.queue name)).left }
    generalize m.process supply (w.queue name) = run at done failed ⊢
    cases done with
    | refused unrouted =>
      obtain rfl := Except.error.inj failed
      rw [Table.insert_of_get? found, Table.insert_of_get? (h.get?_queues found)]
      exact .refused found unrouted
    | failed routed called outcome =>
      obtain rfl := Except.error.inj failed
      exact .failed found routed called outcome
    | strayed routed called outcome unrouted =>
      obtain rfl := Except.error.inj failed
      exact .strayed found routed called outcome unrouted
    | sent => cases failed

/-- Around a machine everything is as it was, and the machine is at rest with the counters it had. -/
structure Spared (w : Workstation σ) (name : String) (w' : Workstation σ) : Prop where
  machine : ∀ m, w.machines.get? name = some m →
    ∃ m', w'.machines.get? name = some m' ∧ m'.state = .idle ∧ m'.stats = m.stats
  others : ∀ other, other ≠ name →
    w'.machines.get? other = w.machines.get? other ∧ w'.queues.get? other = w.queues.get? other
  inbox : w'.inbox = w.inbox

theorem Restored.spared {w' : Workstation σ} {cause : PipelineError}
    (restored : w.Restored supply name cause w') (h : w.Consistent) : w.Spared name w' := by
  have same : w.Spared name w :=
    ⟨fun m found => ⟨m, found, h.idle name m found, rfl⟩, fun _ _ => ⟨rfl, rfl⟩, rfl⟩
  have changed : ∀ {m : Machine σ} (stage : σ) (queue : List Answer),
      w.machines.get? name = some m → w.Spared name
        { w with
          machines := w.machines.insert name { m with stage }
          queues := w.queues.insert name queue } := by
    intro m stage queue found
    refine ⟨fun m' found' => ?_, fun other apart => ?_, rfl⟩
    · obtain rfl := Option.some.inj (found.symm.trans found')
      exact ⟨_, (Table.get?_insert ..).trans (if_pos rfl), h.idle name m found, rfl⟩
    · exact ⟨(Table.get?_insert ..).trans (if_neg apart), (Table.get?_insert ..).trans (if_neg apart)⟩
  cases restored with
  | unknown | refused => exact same
  | failed found | strayed found => exact changed _ _ found

/-- After a run of breeding or evaluation that failed, nothing but the stage can differ. -/
theorem Restored.of_passing {w w' : Workstation Work} {cause : PipelineError}
    (restored : w.Restored supply name cause w') (h : w.Consistent) {m : Machine Work}
    (there : w.machines.get? name = some m) {path : String} (builtin : m.stage.passing? = some path) :
    ∃ stage, w' = { w with machines := w.machines.insert name { m with stage } } := by
  obtain ⟨_, declared, works⟩ := StageCall.passes (c := ⟨m.stage, supply, w.queue name⟩) builtin
  have queues := Table.insert_of_get? (h.get?_queues there)
  cases restored with
  | unknown absent => cases absent.symm.trans there
  | refused => exact ⟨m.stage, by rw [Table.insert_of_get? there]⟩
  | failed found routed called outcome =>
    obtain rfl := Option.some.inj (there.symm.trans found)
    simp only [StageCall.run, called, outcome] at works
    exact ⟨_, by rw [works, queues]⟩
  | strayed found routed called outcome unrouted =>
    -- What it declares is routed, and it emits on nothing else.
    obtain rfl := Option.some.inj (there.symm.trans found)
    simp only [StageCall.Declared, StageCall.run, called, outcome] at declared
    have stray := List.find?_some unrouted
    have known := List.find?_eq_none.mp routed _ (declared _ (List.mem_of_find?_eq_some unrouted))
    exact absurd stray known

end Workstation

namespace Factory

variable {σ : Type} {f : Factory σ}

theorem legal_attempt (f : Factory σ) (changed : Except ConfigurationError (Factory σ)) :
    LegalOutcome (f.attempt changed).outcome := by
  cases changed with
  | error cause => exact legalOutcome_configuration cause
  | ok f' => exact legalOutcome_ok ()

theorem Sound.legal_within (h : f.Sound) (station : String)
    {act : Workstation σ → Workstation σ × Except PipelineError Unit}
    (legal : ∀ w : Workstation σ, w.Consistent → LegalOutcome (act w).2) :
    LegalOutcome (f.within station act).outcome := by
  unfold Factory.within
  cases found : f.workstations.get? station with
  | none => exact legalOutcome_ok ()
  | some w => exact legal w (h.consistent station w found)

variable [Stage σ]

theorem Sound.legal_runChecked (h : f.Sound) (supply : Supply) (station : String) :
    LegalOutcome (f.runChecked supply station).outcome := by
  unfold Factory.runChecked workstation
  cases found : f.workstations.get? station with
  | none => exact legalOutcome_configuration _
  | some w =>
    have legal : LegalOutcome (w.run supply).outcome :=
      (h.consistent station w found).legal_runEach supply _
    simp only
    split
    · split
      · exact legal
      · exact legalOutcome_configuration _
    · exact legal

theorem Sound.legal_runEach (h : f.Sound) (supply : Supply) (stations : List String) :
    LegalOutcome (f.runEach supply stations).outcome := by
  induction stations generalizing f supply with
  | nil => exact legalOutcome_ok ()
  | cons station rest ih =>
    rw [Factory.runEach]
    cases outcome : (f.runChecked supply station).outcome with
    | error cause => exact h.legal_runChecked supply station
    | ok _ => exact ih (h.runChecked supply station).1 _

/-- No request is refused because of the state of a machine. -/
theorem Sound.legal_request (h : f.Sound) (r : Request σ) : LegalOutcome (f.request r).outcome := by
  cases r with
  | build | add | setPath | deliver => exact f.legal_attempt _
  | run supply station =>
    rw [Factory.request, Factory.runWorkstation]
    split
    · exact legalOutcome_configuration _
    · exact h.legal_runChecked supply station
  | cycle supply =>
    rw [Factory.request, Factory.cycle]
    split
    · exact legalOutcome_configuration _
    · exact h.legal_runEach supply _
  | runStation supply station => exact h.legal_within station fun w good => good.legal_runEach supply _
  | runMachine supply station machine =>
    exact h.legal_within station fun w good => (good.legal_runMachine supply machine).map _
  | process supply station machine input =>
    refine h.legal_within station fun w good => ?_
    split
    · exact legalOutcome_ok ()
    · next m found => exact (Machine.legal_process (good.idle machine m found) supply input).map _
  | dump | takeInbox => exact h.legal_within _ fun _ _ => legalOutcome_ok ()

/-- What callers can rely on when a run fails. -/
structure FailureLaw (f : Factory σ) : Prop where
  idle : ∀ d m, f.machine? d = some m → m.state = .idle
  legal : ∀ r, LegalOutcome (f.request r).outcome
  /-- The queue of a machine whose run failed has what the stage left and, if it emitted on a path that
  leads nowhere, what it emitted. -/
  restored : ∀ station w, f.workstations.get? station = some w → ∀ supply name cause,
    (w.runMachine supply name).outcome = .error cause →
    w.Restored supply name cause (w.runMachine supply name).workstation ∧
      w.Spared name (w.runMachine supply name).workstation

/-- A run that fails leaves no trace but in the stage and in what the stage did with its input. Of a
machine that breeds or evaluates even the queue is the same. -/
theorem failed_run_leaves_no_trace :
    (∀ (σ : Type) [Stage σ] (f : Factory σ), f.Reached → f.FailureLaw) ∧
      (∀ (σ : Type) [Stage σ] (m : Machine σ), m.Made →
        m.state = .idle ∧ ∀ supply input, LegalOutcome (m.process supply input).outcome) ∧
      ∀ f : Factory Work, f.Reached → ∀ station w, f.workstations.get? station = some w →
        ∀ name m, w.machines.get? name = some m →
        ((∃ s, m.stage = .breeding s) ∨ ∃ s, m.stage = .evaluation s) →
        ∀ supply cause, (w.runMachine supply name).outcome = .error cause →
        ∃ stage, (w.runMachine supply name).workstation =
          { w with machines := w.machines.insert name { m with stage } } := by
  refine ⟨fun σ _ f reached => ?_, fun σ _ m made => ?_, ?_⟩
  · have sound := reached.sound
    refine ⟨fun d m => sound.idle, sound.legal_request, fun station w found supply name cause failed => ?_⟩
    have good := sound.consistent station w found
    exact ⟨good.restored failed, (good.restored failed).spared good⟩
  · exact ⟨made.idle, Machine.legal_process made.idle⟩
  · intro f reached station w found name m there builtin supply cause failed
    have good := reached.sound.consistent station w found
    have passing : ∃ path, m.stage.passing? = some path := by
      rcases builtin with ⟨s, stage⟩ | ⟨s, stage⟩ <;> exact ⟨_, by rw [stage, Work.passing?]⟩
    obtain ⟨path, passing⟩ := passing
    exact (good.restored failed).of_passing good there passing

/-- An evaluation without cases leaves its queue alone; a stage that emits the first of two answers on
a path that leads nowhere gets it back behind the other. -/
theorem failed_run_leaves_no_trace_in_two_queues :
    let a := Answer.new ⟨1⟩ .epoch .empty
    let b := Answer.new ⟨2⟩ .epoch .empty
    let paths := .ofList [("out", ⟨"w", none⟩), ("scored", ⟨"w", none⟩)]
    let judge : Machine Work := .new "judge" "w" (.evaluation ⟨Evaluator.byGauges, []⟩) { paths }
    let stray : Machine Work := .new "stray" "w" (.custom (.emit ["out"] "x" (some 1))) { paths }
    let requests : List (Request Work) :=
      [.build "w", .add "w" judge (.new ..), .add "w" stray (.new ..),
        .deliver [a, b] ⟨"w", some "judge"⟩, .deliver [a, b] ⟨"w", some "stray"⟩]
    let bare : Factory Work := ⟨{}, .builtin, .builtin, .empty⟩
    let f := requests.foldl (fun (f : Factory Work) r => (f.request r).factory) bare
    let supply : Supply := ⟨3, .epoch⟩
    f.FailureLaw ∧ ∃ w, f.workstations.get? "w" = some w ∧
      (w.runMachine supply "judge").outcome = .error (.stage (.argument .noTestCases)) ∧
      (w.runMachine supply "judge").workstation.queue "judge" = [a, b] ∧
      (w.runMachine supply "stray").outcome = .error (.configuration (.unroutedPath "stray" "x")) ∧
      (w.runMachine supply "stray").workstation.queue "stray" = [b, a] := by
  intro a b paths judge stray requests bare f supply
  obtain ⟨law, -, alone⟩ := failed_run_leaves_no_trace
  have reached : f.Reached := .request (.request (.request (.request (.request (.bare rfl) _) _) _) _) _
  have failed : ∃ w, f.workstations.get? "w" = some w ∧ w.machines.get? "judge" = some judge ∧
      w.queue "judge" = [a, b] ∧
      (w.runMachine supply "judge").outcome = .error (.stage (.argument .noTestCases)) := by
    refine ⟨_, rfl, rfl, rfl, rfl⟩
  obtain ⟨w, found, there, queued, failed⟩ := failed
  obtain ⟨stage, same⟩ :=
    alone f reached "w" w found "judge" judge there (.inr ⟨_, rfl⟩) supply _ failed
  refine ⟨law Work f reached, w, found, failed, ?_, ?_, ?_⟩
  · rw [same]
    exact queued
  · obtain rfl := Option.some.inj found
    rfl
  · obtain rfl := Option.some.inj found
    rfl

end Factory

end Evolution
