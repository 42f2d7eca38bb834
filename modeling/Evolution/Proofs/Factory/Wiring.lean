import Evolution.Proofs.Factory.Balance

/-! The wiring check. It reports the first declared path that leads nowhere, in the order in which
everything was built, and a run that it refuses changes nothing. Once it passes it goes on passing,
because calls that let the factory work change neither routes nor places; so none of the checks that
are made within runs ever fails. -/

namespace Evolution

/-- A path on which a machine of a workstation may emit. -/
structure Way (σ : Type) where
  station : Workstation σ
  machine : Machine σ
  path : String

/-- The call keeps to the declared paths: it emits on no other, and declares no other from then on. -/
structure StageCall.KeepsPaths {σ : Type} [Stage σ] (c : StageCall σ) : Prop where
  declared : c.Declared
  fixed : ∀ path ∈ Stage.paths c.run.stage, path ∈ Stage.paths c.stage

/-- The stages that factories are built of declare the same paths all along. -/
theorem StageCall.keepsPaths_iff {c : StageCall Work} : c.KeepsPaths ↔ c.Declared := by
  have same : Stage.paths c.run.stage = Stage.paths c.stage := by
    obtain ⟨_ | _ | _, supply, input⟩ := c <;> rfl
  exact ⟨fun keeps => keeps.declared, fun declared => ⟨declared, fun _ member => same ▸ member⟩⟩

/-- The ways of all machines, in the order in which they were built. -/
def Workstation.ways {σ : Type} [Stage σ] (w : Workstation σ) : List (Way σ) :=
  w.machines.entries.flatMap fun (_, m) => m.outputPaths.map (⟨w, m, ·⟩)

namespace Factory

variable {σ : Type} {f g : Factory σ}

theorem hasMachine_iff {w : Workstation σ} {name : String} :
    w.hasMachine name = true ↔ ∃ m, w.machines.get? name = some m := by
  rw [Workstation.hasMachine, Table.contains_eq_isSome, Option.isSome_iff_exists]

theorem reaches_iff {d : Destination} : f.reaches d = true ↔
    ∃ w, f.workstations.get? d.workstation = some w ∧
      ∀ name ∈ d.machine, ∃ m, w.machines.get? name = some m := by
  unfold reaches
  cases f.workstations.get? d.workstation with
  | none => simp
  | some w =>
    cases d.machine with
    | none => simp
    | some name => simp [hasMachine_iff]

/-- A way with a route to a workstation that exists, and to a machine that exists there if the route
names one. -/
def Leads (f : Factory σ) (way : Way σ) : Prop :=
  ∃ d w, way.machine.route? way.path = some d ∧ f.workstations.get? d.workstation = some w ∧
    ∀ name ∈ d.machine, ∃ m, w.machines.get? name = some m

/-- What is wrong with a way that leads nowhere. -/
inductive Broken (f : Factory σ) (way : Way σ) : ConfigurationError → Prop
  | unrouted (absent : way.machine.route? way.path = none) :
    Broken f way (.unroutedPath (way.station.name ++ "/" ++ way.machine.name) way.path)
  | workstation {d : Destination} (routed : way.machine.route? way.path = some d)
    (absent : f.workstations.get? d.workstation = none) :
    Broken f way (.unknownWorkstation d.workstation)
  | machine {station name : String} {w : Workstation σ}
    (routed : way.machine.route? way.path = some ⟨station, some name⟩)
    (found : f.workstations.get? station = some w) (absent : w.machines.get? name = none) :
    Broken f way (.unknownMachine station name)

/-- The first way that leads nowhere is wrong in this way. -/
def BreaksFirst (f : Factory σ) (ways : List (Way σ)) (cause : ConfigurationError) : Prop :=
  ∃ before way after, ways = before ++ way :: after ∧ (∀ b ∈ before, f.Leads b) ∧ f.Broken way cause

def checkWay (f : Factory σ) (way : Way σ) : Except ConfigurationError Unit :=
  match way.machine.route? way.path with
  | none => .error (.unroutedPath (way.station.name ++ "/" ++ way.machine.name) way.path)
  | some d => f.checkDestination d

theorem checkWay_eq_ok_iff {way : Way σ} : f.checkWay way = .ok () ↔ f.Leads way := by
  unfold checkWay Leads
  cases way.machine.route? way.path with
  | none => simp
  | some d => simp [checkDestination_eq_ok_iff, reaches_iff]

theorem checkWay_eq_error_iff {way : Way σ} {cause : ConfigurationError} :
    f.checkWay way = .error cause ↔ f.Broken way cause := by
  constructor
  · intro refused
    unfold checkWay checkDestination workstation at refused
    cases routed : way.machine.route? way.path with
    | none =>
      simp only [routed, Except.error.injEq] at refused
      exact refused ▸ .unrouted routed
    | some d =>
      cases found : f.workstations.get? d.workstation with
      | none =>
        simp only [routed, found, bind, Except.bind, Except.error.injEq] at refused
        exact refused ▸ .workstation routed found
      | some w =>
        obtain ⟨station, _ | name⟩ := d
        · simp [routed, found, bind, Except.bind, pure, Except.pure] at refused
        · cases there : w.machines.get? name with
          | some m =>
            have filed : w.hasMachine name = true := hasMachine_iff.mpr ⟨m, there⟩
            simp [routed, found, filed, bind, Except.bind, pure, Except.pure] at refused
          | none =>
            have missing : w.hasMachine name = false := by
              simp [Workstation.hasMachine, Table.contains_eq_isSome, there]
            simp only [routed, found, missing, bind, Except.bind, throw, throwThe,
              MonadExceptOf.throw, Bool.false_eq_true, if_false, Except.error.injEq] at refused
            exact refused ▸ .machine routed found there
  · rintro (absent | ⟨routed, absent⟩ | ⟨routed, found, absent⟩)
    · simp [checkWay, absent]
    · simp [checkWay, routed, checkDestination, workstation, absent, bind, Except.bind]
    · simp [checkWay, routed, checkDestination, workstation, found, Workstation.hasMachine,
        Table.contains_eq_isSome, absent, bind, Except.bind, throw, throwThe, MonadExceptOf.throw]

theorem forM_checkWay_eq_ok_iff {ways : List (Way σ)} :
    ways.forM f.checkWay = .ok () ↔ ∀ way ∈ ways, f.Leads way :=
  forM_eq_ok_iff.trans (forall₂_congr fun _ _ => checkWay_eq_ok_iff)

theorem forM_checkWay_eq_error_iff {ways : List (Way σ)} {cause : ConfigurationError} :
    ways.forM f.checkWay = .error cause ↔ f.BreaksFirst ways cause := by
  simp only [forM_eq_error_iff, checkWay_eq_ok_iff, checkWay_eq_error_iff, BreaksFirst]

/-- The call lets the factory work, where it names something that exists. -/
def Call.Finds (f : Factory σ) : Call σ → Prop
  | .deliver _ d => f.reaches d = true
  | .run _ station => f.workstations.contains station = true
  | .cycle _ | .dump .. | .takeInbox _ => True
  | .build _ | .add .. | .setPath .. => False

instance (c : Call σ) : Decidable (c.Finds f) :=
  match c with
  | .deliver _ d => inferInstanceAs (Decidable (f.reaches d = true))
  | .run _ station => inferInstanceAs (Decidable (f.workstations.contains station = true))
  | .cycle _ | .dump .. | .takeInbox _ => inferInstanceAs (Decidable True)
  | .build _ | .add .. | .setPath .. => inferInstanceAs (Decidable False)

theorem Call.Finds.of_alike {c : Call σ} (finds : c.Finds f) (alike : f.Alike g) : c.Finds g := by
  cases c with
  | build | add | setPath => exact finds
  | deliver answers d => exact (alike.reaches d).trans finds
  | run supply station =>
    rw [Call.Finds, Table.contains_iff] at finds ⊢
    exact alike.stations ▸ finds
  | cycle | dump | takeInbox => trivial

variable [Stage σ]

/-- The ways of all workstations, in the order in which they were built. -/
def ways (f : Factory σ) : List (Way σ) := f.workstations.entries.flatMap fun (_, w) => w.ways

theorem checkWorkstation_eq_forM (f : Factory σ) (w : Workstation σ) :
    f.checkWorkstation w = w.ways.forM f.checkWay := by
  rw [checkWorkstation, Workstation.ways, forM_flatMap]
  refine congrArg (w.machines.entries.forM ·) (funext fun (_, m) => ?_)
  simp only [checkMachine, List.forM_eq_forM, List.forM_map]
  rfl

theorem validate_eq_forM (f : Factory σ) : f.validate = f.ways.forM f.checkWay := by
  rw [validate, ways, forM_flatMap]
  exact congrArg (f.workstations.entries.forM ·) (funext fun (_, w) => f.checkWorkstation_eq_forM w)

/-- Every machine only emits where something exists. -/
def WellWired (f : Factory σ) : Prop := ∀ d m, f.machine? d = some m → m.Wired f.reaches

theorem wellWired_iff_validate : f.WellWired ↔ f.validate = .ok () := by
  rw [validate_eq_ok_iff]
  exact ⟨fun wired d _ m there => wired d m there,
    fun wired d m there => wired d (mem_places_of_machine? there).2 m there⟩

end Factory

/-- The machine later on, with the same routes and no new path. -/
structure Machine.Becomes {σ : Type} [Stage σ] (m m' : Machine σ) : Prop where
  routes : m'.options = m.options
  paths : ∀ path ∈ m'.outputPaths, path ∈ m.outputPaths

theorem Machine.Wired.becomes {σ : Type} [Stage σ] {m m' : Machine σ} {reached : Destination → Bool}
    (wired : m.Wired reached) (later : m.Becomes m') : m'.Wired reached := by
  intro path member
  obtain ⟨d, routed, there⟩ := wired path (later.paths path member)
  exact ⟨d, by rw [route?, later.routes]; exact routed, there⟩

/-- A machine whose paths all lead somewhere fails only with its stage, and stays as it is wired. -/
theorem Turn.keeps_wiring {σ : Type} [Stage σ] {t : Turn σ} {reached : Destination → Bool}
    (idle : t.machine.state = .idle) (wired : t.machine.Wired reached) (keeps : t.call.KeepsPaths) :
    t.machine.Becomes t.run.machine ∧
      ∀ cause, t.run.outcome = .error cause → ∃ failure, cause = .stage failure := by
  have taken := Turn.taken idle wired keeps.declared
  generalize t.run = run at taken ⊢
  cases taken with
  | failed outcome =>
    refine ⟨⟨rfl, keeps.fixed⟩, ?_⟩
    rintro _ ⟨⟩
    exact ⟨_, rfl⟩
  | sent outcome within =>
    refine ⟨⟨rfl, keeps.fixed⟩, ?_⟩
    rintro _ ⟨⟩

namespace Factory

variable {σ : Type} [Stage σ] {f g : Factory σ}

/-- Later on the same workstations have the same machines with the same routes and no new paths. -/
structure Keeps (f g : Factory σ) : Prop where
  alike : f.Alike g
  machines : ∀ d m', g.machine? d = some m' → ∃ m, f.machine? d = some m ∧ m.Becomes m'

theorem WellWired.keeps (wired : f.WellWired) (later : f.Keeps g) : g.WellWired := by
  intro d m' there
  obtain ⟨m, before, becomes⟩ := later.machines d m' there
  rw [funext later.alike.reaches]
  exact (wired d m before).becomes becomes

theorem keeps_of_machine? (alike : f.Alike g) (same : g.machine? = f.machine?) : f.Keeps g :=
  ⟨alike, fun _ m there => ⟨m, same ▸ there, rfl, fun _ => id⟩⟩

theorem keeps_put {station : String} {w w' : Workstation σ}
    (found : f.workstations.get? station = some w) (machines : w'.machines = w.machines) :
    f.Keeps (f.put station w') := by
  refine keeps_of_machine? (alike_put found (congrArg Table.names machines)) (funext fun d => ?_)
  rw [machine?, machine?, put, Table.get?_insert]
  split
  · next here => rw [here, found, Option.bind_some, Option.bind_some, machines]
  · rfl

/-- What a call reports. -/
def reply (f : Factory σ) : Call σ → Except PipelineError Unit
  | .build station => reported (f.build station)
  | .add station m _ => reported (f.modify station (·.add m))
  | .setPath station machine path d => reported (f.modify station (·.setPath machine path d))
  | .deliver answers d => reported (f.deliver answers d)
  | .run supply station => (f.runWorkstation supply station).outcome
  | .cycle supply => (f.cycle supply).outcome
  | .dump .. | .takeInbox _ => .ok ()
where
  reported : Except ConfigurationError (Factory σ) → Except PipelineError Unit
    | .ok _ => .ok ()
    | .error cause => .error (.configuration cause)

/-- A turn in a well-wired factory fails only with its stage, and leaves its machine as it is wired. -/
theorem Sound.turn_keeps_wiring (h : f.Sound) (wired : f.WellWired) {stops : List Destination}
    (once : stops.Nodup) {supply : Supply} {t : Turn σ}
    (taken : t ∈ (f.floor.shift supply stops).turns) (keeps : ∀ c ∈ t.stageCalls, c.KeepsPaths) :
    (∃ before later, (f.floor.shift supply stops).turns = before ++ t :: later) ∧
      f.machine? t.place = some t.machine ∧ t.machine.Becomes t.run.machine ∧
      ∀ cause, t.run.outcome = .error cause → ∃ failure, cause = .stage failure := by
  obtain ⟨before, later, split⟩ := List.append_of_mem taken
  obtain ⟨found, _⟩ := Floor.shift_turn once split
  have called : t.stageCalls = [t.call] :=
    (h.turn_of_wired once (fun d _ m there => wired d m there) taken
      fun c member => (keeps c member).declared).1
  rw [called, List.forall_mem_singleton] at keeps
  exact ⟨⟨before, later, split⟩, found,
    Turn.keeps_wiring (h.idle found) (wired t.place t.machine found) keeps⟩

/-- A run that goes as a shift fails only with a stage, and leaves all as it is wired. -/
theorem Sound.keeps_of_matches (h : f.Sound) (wired : f.WellWired) {run : FactoryRun σ}
    {turns : List (Turn σ)} {stops : List Destination} {supply : Supply} (once : stops.Nodup)
    (alike : f.Alike run.factory) (keeps : ∀ t ∈ turns, ∀ c ∈ t.stageCalls, c.KeepsPaths)
    (same : Matches run turns (f.floor.shift supply stops)) :
    f.Keeps run.factory ∧ ∀ cause, run.outcome = .error cause → ∃ failure, cause = .stage failure := by
  rw [same.turns] at keeps
  have machine : run.factory.machine? = (f.floor.shift supply stops).floor.machine? :=
    congrArg Floor.machine? same.floor
  refine ⟨⟨alike, fun d m' there => ?_⟩, fun cause failed => ?_⟩
  · by_cases visited : ∃ t ∈ (f.floor.shift supply stops).turns, t.place = d
    · obtain ⟨t, taken, rfl⟩ := visited
      obtain ⟨⟨_, _, split⟩, found, becomes, _⟩ := h.turn_keeps_wiring wired once taken (keeps t taken)
      obtain ⟨_, _, final, _⟩ := Floor.shift_turn once split
      rw [machine, final] at there
      exact ⟨t.machine, found, Option.some.inj there ▸ becomes⟩
    · push Not at visited
      rw [machine, (Floor.shift_elsewhere visited).1] at there
      exact ⟨m', there, rfl, fun _ => id⟩
  · have ending := f.floor.shift_ending supply stops
    rw [same.outcome.symm.trans failed] at ending
    obtain ⟨before, t, split, _, failure⟩ := ending
    have taken : t ∈ (f.floor.shift supply stops).turns := split ▸ by simp
    exact (h.turn_keeps_wiring wired once taken (keeps t taken)).2.2.2 cause failure

theorem Sound.keeps_run (h : f.Sound) (wired : f.WellWired) {supply : Supply} {station : String}
    (known : f.workstations.contains station = true)
    (keeps : ∀ c ∈ f.stageCalls (.run supply station), c.KeepsPaths) :
    f.Keeps (f.runWorkstation supply station).factory ∧
      ∀ cause, (f.runWorkstation supply station).outcome = .error cause →
        ∃ failure, cause = .stage failure := by
  obtain ⟨w, found⟩ := Table.exists_get?_of_contains known
  have checked : f.workstation station >>= f.checkWorkstation = .ok () :=
    bind_eq_ok_iff.mpr ⟨w, workstation_eq_ok_iff.mpr found,
      (checkWorkstation_eq_ok_iff found).mpr fun d _ m there => wired d m there⟩
  have alike : f.Alike (f.runWorkstation supply station).factory := by
    rw [runWorkstation, checked]
    exact (h.runChecked supply station).2
  rw [stageCalls_eq_flatMap] at keeps
  have each : ∀ t ∈ f.turns (.run supply station), ∀ c ∈ t.stageCalls, c.KeepsPaths :=
    fun t taken c called => keeps c (List.mem_flatMap.mpr ⟨t, taken, called⟩)
  exact h.keeps_of_matches wired (f.nodup_placesOf station) alike each
    (h.run_matches checked fun t taken _ c called => (each t taken c called).declared)

theorem Sound.keeps_cycle (h : f.Sound) (wired : f.WellWired) {supply : Supply}
    (keeps : ∀ c ∈ f.stageCalls (.cycle supply), c.KeepsPaths) :
    f.Keeps (f.cycle supply).factory ∧
      ∀ cause, (f.cycle supply).outcome = .error cause → ∃ failure, cause = .stage failure := by
  have valid := wellWired_iff_validate.mp wired
  have alike : f.Alike (f.cycle supply).factory := by
    rw [cycle, valid]
    exact (h.runEach supply _).2
  rw [stageCalls_eq_flatMap] at keeps
  have each : ∀ t ∈ f.turns (.cycle supply), ∀ c ∈ t.stageCalls, c.KeepsPaths :=
    fun t taken c called => keeps c (List.mem_flatMap.mpr ⟨t, taken, called⟩)
  exact h.keeps_of_matches wired f.nodup_places alike each
    (h.cycle_matches valid fun t taken _ c called => (each t taken c called).declared)

/-- A call in a well-wired factory reports nothing but the failure of a stage, and leaves the factory
as it is wired. -/
theorem Sound.keeps_after (h : f.Sound) (wired : f.WellWired) {c : Call σ} (finds : c.Finds f)
    (keeps : ∀ s ∈ f.stageCalls c, s.KeepsPaths) :
    f.Keeps (f.after c) ∧ ∀ cause, f.reply c = .error cause → ∃ failure, cause = .stage failure := by
  cases c with
  | build | add | setPath => cases finds
  | run supply station => exact h.keeps_run wired finds keeps
  | cycle supply => exact h.keeps_cycle wired keeps
  | deliver answers d =>
    obtain ⟨f', made, _⟩ := h.consistent.deliver finds answers
    obtain ⟨_, alike, floor⟩ := h.deliver (d := ⟨"", d, answers⟩) made
    have now : f.after (.deliver answers d) = f' := by simp [Factory.after, made, Except.toOption]
    rw [now]
    refine ⟨keeps_of_machine? alike (congrArg Floor.machine? floor), ?_⟩
    simp [reply, reply.reported, made]
  | dump station machine =>
    refine ⟨?_, by simp [reply]⟩
    rw [Factory.after]
    split
    · exact keeps_of_machine? (.refl f) rfl
    · next w found => exact keeps_put found (Workstation.machines_setQueue machine [])
  | takeInbox station =>
    refine ⟨?_, by simp [reply]⟩
    rw [Factory.after]
    split
    · exact keeps_of_machine? (.refl f) rfl
    · next w found => exact keeps_put found rfl

/-- In a well-wired factory calls report nothing but failures of stages, and it stays well-wired. -/
theorem Sound.wellWired_visits (h : f.Sound) (wired : f.WellWired) {calls : List (Call σ)}
    (finds : ∀ c ∈ calls, c.Finds f)
    (keeps : ∀ visit ∈ f.visits calls, ∀ s ∈ visit.1.stageCalls visit.2, s.KeepsPaths) :
    ∀ visit ∈ f.visits calls, visit.1.WellWired ∧
      ∀ cause, visit.1.reply visit.2 = .error cause → ∃ failure, cause = .stage failure := by
  induction calls generalizing f with
  | nil => exact List.forall_mem_nil _
  | cons c rest ih =>
    obtain ⟨found, finds⟩ := List.forall_mem_cons.mp finds
    obtain ⟨now, keeps⟩ := List.forall_mem_cons.mp keeps
    obtain ⟨kept, reports⟩ := h.keeps_after wired found now
    refine List.forall_mem_cons.mpr ⟨⟨wired, reports⟩, ?_⟩
    exact ih (h.after c) (wired.keeps kept) (fun d member => (finds d member).of_alike kept.alike) keeps

/-- What the checks of the wiring are good for. -/
structure WiringLaw (f : Factory σ) : Prop where
  /-- The check passes exactly if every declared path leads somewhere. -/
  passes : f.validate = .ok () ↔ ∀ way ∈ f.ways, f.Leads way
  /-- It reports the first path that does not. -/
  reports : ∀ cause, f.validate = .error cause ↔ f.BreaksFirst f.ways cause
  /-- Once it passes it keeps passing, and every error is one of a stage. -/
  lasts : f.Reachable → f.validate = .ok () → ∀ calls : List (Call σ), (∀ c ∈ calls, c.Finds f) →
    (∀ visit ∈ f.visits calls, ∀ s ∈ visit.1.stageCalls visit.2, s.KeepsPaths) →
    ∀ visit ∈ f.visits calls, visit.1.validate = .ok () ∧
      ∀ cause, visit.1.reply visit.2 = .error cause → ∃ failure, cause = .stage failure
  /-- A cycle that the check refuses changes nothing. -/
  refusedCycle : ∀ supply cause, f.BreaksFirst f.ways cause →
    f.cycle supply = ⟨f, supply, .error (.configuration cause)⟩ ∧ f.stageCalls (.cycle supply) = []
  /-- So does the run of a workstation, for which only the paths of its own machines are checked. -/
  refusedRun : ∀ supply station w cause, f.workstations.get? station = some w →
    f.BreaksFirst w.ways cause →
    f.runWorkstation supply station = ⟨f, supply, .error (.configuration cause)⟩ ∧
      f.stageCalls (.run supply station) = []
  /-- A workstation that does not exist is not run either. -/
  unknownRun : ∀ supply station, f.workstations.get? station = none →
    f.runWorkstation supply station =
        ⟨f, supply, .error (.configuration (.unknownWorkstation station))⟩ ∧
      f.stageCalls (.run supply station) = []

theorem refused_run {supply : Supply} {station : String} {cause : ConfigurationError}
    (refused : f.workstation station >>= f.checkWorkstation = .error cause) :
    f.runWorkstation supply station = ⟨f, supply, .error (.configuration cause)⟩ ∧
      f.stageCalls (.run supply station) = [] := by
  simp [runWorkstation, stageCalls, runs, refused]

/-- The wiring is checked by looking at every declared path, and one check is enough for all runs. -/
theorem wiringLaw (f : Factory σ) : f.WiringLaw := by
  have reports : ∀ cause, f.validate = .error cause ↔ f.BreaksFirst f.ways cause := fun _ =>
    f.validate_eq_forM ▸ forM_checkWay_eq_error_iff
  refine ⟨f.validate_eq_forM ▸ forM_checkWay_eq_ok_iff, reports, ?_, ?_, ?_, ?_⟩
  · intro reachable valid calls finds keeps visit visited
    obtain ⟨wired, causes⟩ :=
      reachable.sound.wellWired_visits (wellWired_iff_validate.mpr valid) finds keeps visit visited
    exact ⟨wellWired_iff_validate.mp wired, causes⟩
  · intro supply cause broken
    have refused := (reports cause).mpr broken
    simp [cycle, stageCalls, runs, refused]
  · intro supply station w cause found broken
    refine refused_run ?_
    have refused := forM_checkWay_eq_error_iff.mpr broken
    rw [← checkWorkstation_eq_forM] at refused
    simpa [workstation_eq_ok_iff.mpr found, bind, Except.bind] using refused
  · intro supply station absent
    exact refused_run (by simp [workstation, absent, bind, Except.bind])

/-- Everything that is there is used, and the cycle and a run after it fail with a stage. -/
def milled : List (Call Work) :=
  let answer := fun n => Answer.new ⟨n⟩ .epoch .empty
  [.deliver [answer 1, answer 2] ⟨"v", some "b"⟩, .cycle ⟨4, .epoch⟩, .deliver [answer 3] ⟨"w", none⟩,
    .run ⟨7, .epoch⟩ "w"]

theorem wiringLaw_mill :
    let f := mill.foldl after ⟨{}, .builtin, .builtin, .empty⟩
    f.validate = .ok () ∧
      ((f.visits milled).map fun (g, c) => (g.reply c).toOption.isSome) = [true, false, true, false] ∧
      ∀ visit ∈ f.visits milled, visit.1.validate = .ok () ∧
        ∀ cause, visit.1.reply visit.2 = .error cause → ∃ failure, cause = .stage failure := by
  intro f
  have valid : f.validate = .ok () := by decide +kernel
  have finds : ∀ c ∈ milled, c.Finds f := by decide +kernel
  have declared : ∀ visit ∈ f.visits milled, ∀ s ∈ visit.1.stageCalls visit.2, s.Declared := by
    decide +kernel
  refine ⟨valid, by decide +kernel, ?_⟩
  exact (wiringLaw f).lasts ⟨_, mill, rfl, rfl⟩ valid milled finds fun visit visited s called =>
    StageCall.keepsPaths_iff.mpr (declared visit visited s called)

/-- A stage that emits nothing. Once it has run it declares a path. -/
inductive Opening where
  | closed
  | opened

instance : Stage Opening where
  paths
    | .closed => []
    | .opened => ["late"]
  process _ supply input := ⟨.opened, supply, input, .ok .empty⟩

def opening : Factory Opening :=
  let calls : List (Call Opening) := [.build "w", .add "w" (.new "m" "w" .closed {}) rfl]
  calls.foldl after ⟨{}, .builtin, .builtin, .empty⟩

/-- No answers at all go out, though on a path that is not declared. -/
def straying : Factory Work :=
  let calls : List (Call Work) :=
    [.build "w", .add "w" (.new "m" "w" (.custom (.emit ["out"] "x" (some 0))) {}) rfl,
      .setPath "w" "m" "out" ⟨"w", none⟩, .deliver [.new ⟨1⟩ .epoch .empty] ⟨"w", some "m"⟩]
  calls.foldl after ⟨{}, .builtin, .builtin, .empty⟩

/-- It is not enough that answers are emitted on declared paths only. A stage that declares a path
later makes the second cycle fail, and one that puts an empty batch on another path the first run. -/
theorem misconfigured_of_late_path :
    let cycles : List (Call Opening) := [.cycle ⟨4, .epoch⟩, .cycle ⟨4, .epoch⟩]
    let run : Call Work := .run ⟨4, .epoch⟩ "w"
    (opening.validate = .ok () ∧
        (∀ visit ∈ opening.visits cycles, ∀ s ∈ visit.1.stageCalls visit.2, s.Declared) ∧
        (opening.visits cycles).map (fun (g, c) => g.reply c) =
          [.ok (), .error (.configuration (.unroutedPath "w/m" "late"))]) ∧
      straying.validate = .ok () ∧
      (straying.stageCalls run).map (fun s => s.run.outcome.toOption.map (·.entries)) =
        [some [("x", [])]] ∧
      straying.reply run = .error (.configuration (.unroutedPath "m" "x")) := by
  intro cycles run
  refine ⟨⟨rfl, ?_, ?_⟩, ?_, ?_, ?_⟩
  all_goals decide +kernel

end Factory

end Evolution
