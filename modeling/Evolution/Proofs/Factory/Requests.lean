import Evolution.Proofs.Factory.Sound

/-! What callers can do. They build and wire factories, deliver and take answers, and set to work the
whole, a workstation or a single machine; machines they make themselves, and may try out before they
add them. Whatever they do, every factory stays sound and every machine is at rest. -/

namespace Evolution

/-- A machine that callers can have in their hands. -/
inductive Machine.Made {σ : Type} [Stage σ] : Machine σ → Prop
  | new (name workstation : String) (stage : σ) (options : MachineOptions) :
    Made (.new name workstation stage options)
  | withOptions {m : Machine σ} (made : Made m) (options : MachineOptions) : Made { m with options }
  | processed {m : Machine σ} (made : Made m) (supply : Supply) (input : List Answer) :
    Made (m.process supply input).machine

namespace Machine

variable {σ : Type} [Stage σ] {m : Machine σ}

theorem Made.idle (h : m.Made) : m.state = .idle := by
  induction h with
  | new => rfl
  | withOptions _ _ ih => exact ih
  | processed _ supply input ih => exact process_idle ih supply input

end Machine

namespace Workstation

variable {σ : Type}

theorem name_conclude (w : Workstation σ) (machine : String) (run : MachineRun σ) :
    (w.conclude machine run).workstation.name = w.name := by
  unfold conclude
  cases run.outcome with
  | ok deliveries => rfl
  | error cause => exact name_setQueue machine _

theorem name_runMachine [Stage σ] (w : Workstation σ) (supply : Supply) (machine : String) :
    (w.runMachine supply machine).workstation.name = w.name := by
  unfold runMachine
  split
  · rfl
  · exact (name_conclude _ machine _).trans (name_setQueue machine [])

end Workstation

namespace Factory

variable {σ : Type} {f : Factory σ}

/-- The factory after a request, and how the request ended. -/
structure Done (σ : Type) where
  factory : Factory σ
  outcome : Except PipelineError Unit

/-- A change that is made as a whole or refused. -/
def attempt (f : Factory σ) (changed : Except ConfigurationError (Factory σ)) : Done σ :=
  ⟨changed.toOption.getD f, (changed.map fun _ => ()).mapError .configuration⟩

/-- Something is done with a workstation. Callers who do not get hold of it do nothing. -/
def within (f : Factory σ) (station : String)
    (act : Workstation σ → Workstation σ × Except PipelineError Unit) : Done σ :=
  match f.workstations.get? station with
  | none => ⟨f, .ok ()⟩
  | some w =>
    let (w', outcome) := act w
    ⟨f.put station w', outcome⟩

theorem Sound.within (h : f.Sound) {station : String}
    {act : Workstation σ → Workstation σ × Except PipelineError Unit}
    (keeps : ∀ w : Workstation σ, w.Consistent → (act w).1.Consistent ∧ (act w).1.name = w.name) :
    (f.within station act).factory.Sound := by
  unfold Factory.within
  cases found : f.workstations.get? station with
  | none => exact h
  | some w =>
    obtain ⟨consistent, name⟩ := keeps w (h.consistent station w found)
    exact h.put consistent (name.trans (h.named station w found))

variable [Stage σ]

inductive Request (σ : Type) [Stage σ] where
  | build (station : String)
  | add (station : String) (m : Machine σ) (made : m.Made)
  | setPath (station machine path : String) (d : Destination)
  | deliver (answers : List Answer) (d : Destination)
  | run (supply : Supply) (station : String)
  | cycle (supply : Supply)
  /-- A run of a workstation by itself; the caller has what it sends out. -/
  | runStation (supply : Supply) (station : String)
  | runMachine (supply : Supply) (station machine : String)
  /-- A machine at its place is given a batch by hand. -/
  | process (supply : Supply) (station machine : String) (input : List Answer)
  | dump (station machine : String)
  | takeInbox (station : String)

def request (f : Factory σ) : Request σ → Done σ
  | .build station => f.attempt (f.build station)
  | .add station m _ => f.attempt (f.modify station (·.add m))
  | .setPath station machine path d => f.attempt (f.modify station (·.setPath machine path d))
  | .deliver answers d => f.attempt (f.deliver answers d)
  | .run supply station =>
    let run := f.runWorkstation supply station
    ⟨run.factory, run.outcome⟩
  | .cycle supply =>
    let run := f.cycle supply
    ⟨run.factory, run.outcome⟩
  | .runStation supply station => f.within station fun w =>
    let run := w.run supply
    (run.workstation, run.outcome)
  | .runMachine supply station machine => f.within station fun w =>
    let step := w.runMachine supply machine
    (step.workstation, step.outcome.map fun _ => ())
  | .process supply station machine input => f.within station fun w =>
    match w.machines.get? machine with
    | none => (w, .ok ())
    | some m =>
      let run := m.process supply input
      ({ w with machines := w.machines.insert machine run.machine }, run.outcome.map fun _ => ())
  | .dump station machine => f.within station fun w => ((w.dump machine).2, .ok ())
  | .takeInbox station => f.within station fun w => (w.takeInbox.2, .ok ())

/-- Callers can come to the factory by requests, starting with one that has no workstations. -/
inductive Reached : Factory σ → Prop
  | bare {f : Factory σ} (none : f.workstations = .empty) : Reached f
  | request {f : Factory σ} (before : Reached f) (r : Request σ) : Reached (f.request r).factory

/-- No request makes a factory unsound, whether it succeeds or fails and whatever the stages do. -/
theorem Sound.request (h : f.Sound) (r : Request σ) : (f.request r).factory.Sound := by
  cases r with
  | build station => exact h.after (.build station)
  | add station m made => exact h.after (.add station m made.idle)
  | setPath station machine path d => exact h.after (.setPath station machine path d)
  | deliver answers d => exact h.after (.deliver answers d)
  | run supply station => exact h.after (.run supply station)
  | cycle supply => exact h.after (.cycle supply)
  | runStation supply station =>
    rw [Factory.request, Factory.within]
    cases found : f.workstations.get? station with
    | none => exact h
    | some w => exact (h.run found supply).1
  | runMachine supply station machine =>
    exact h.within fun w good => ⟨(good.runMachine supply machine).1, w.name_runMachine supply machine⟩
  | process supply station machine input =>
    refine h.within fun w good => ?_
    split
    · exact ⟨good, rfl⟩
    · next m found =>
      have idle := Machine.process_idle (good.idle machine m found) supply input
      exact ⟨good.withMachine (Table.contains_of_get? found) idle, rfl⟩
  | dump station machine =>
    exact h.within fun w good => ⟨good.setQueue machine [], Workstation.name_setQueue machine []⟩
  | takeInbox station => exact h.within fun w good => ⟨⟨good.queues, good.idle⟩, rfl⟩

theorem Reached.sound (h : f.Reached) : f.Sound := by
  induction h with
  | bare none => exact sound_of_bare none
  | request _ r ih => exact ih.request r

end Factory

end Evolution
