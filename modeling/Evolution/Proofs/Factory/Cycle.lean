import Evolution.Proofs.Factory.Sound

/-! What a cycle does. In a factory whose routes pass the check, every machine takes its turn in the
order in which it was built, as on a floor where every delivery is made at once. -/

namespace Evolution

open Delivery (addressed)

/-- A call that succeeds emits on paths that the stage declares. -/
def StageCall.Declared {σ : Type} [Stage σ] (c : StageCall σ) : Prop :=
  match c.run.outcome with
  | .error _ => True
  | .ok output => ∀ path ∈ output.names, path ∈ Stage.paths c.stage

instance {σ : Type} [Stage σ] (c : StageCall σ) : Decidable c.Declared :=
  decidable_of_iff (∀ output ∈ c.run.outcome.toOption, ∀ path ∈ output.names,
    path ∈ Stage.paths c.stage) <| by
    rw [StageCall.Declared]
    cases c.run.outcome <;> simp [Except.toOption]

namespace Machine

variable {σ : Type} {m : Machine σ}

theorem unrouted?_eq_none {paths : List String}
    (routed : ∀ path ∈ paths, m.options.paths.contains path = true) :
    m.unrouted? paths = none := by
  rw [unrouted?, List.find?_eq_none]
  simpa using routed

theorem mem_address {output : Table (List Answer)} {d : Delivery} (sent : d ∈ m.address output) :
    (d.path, d.answers) ∈ output.entries ∧ m.route? d.path = some d.destination := by
  obtain ⟨⟨path, answers⟩, member, addressed⟩ := List.mem_filterMap.mp sent
  obtain ⟨e, routed, rfl⟩ := Option.map_eq_some_iff.mp addressed
  exact ⟨member, routed⟩

variable [Stage σ]

/-- Each path on which the machine may emit leads somewhere that exists. -/
def Wired (m : Machine σ) (reached : Destination → Bool) : Prop :=
  ∀ path ∈ m.outputPaths, ∃ d, m.route? path = some d ∧ reached d = true

variable {reached : Destination → Bool}

theorem Wired.routed (wired : m.Wired reached) {paths : List String}
    (declared : ∀ path ∈ paths, path ∈ m.outputPaths) : m.unrouted? paths = none := by
  refine unrouted?_eq_none fun path member => ?_
  obtain ⟨d, routed, _⟩ := wired path (declared path member)
  exact Table.contains_of_get? routed

end Machine

namespace Turn

variable {σ : Type} [Stage σ] {t : Turn σ} {reached : Destination → Bool}

def call (t : Turn σ) : StageCall σ := t.machine.call t.supply t.input

/-- What comes of a turn of a machine whose paths all lead somewhere. -/
inductive Taken (t : Turn σ) : MachineRun σ → Prop
  | failed {cause : StageError} (outcome : t.call.run.outcome = .error cause) :
    Taken t ⟨{ t.machine with stage := t.call.run.stage }, t.call.run.supply, t.call.run.left,
      .error (.stage cause)⟩
  | sent {output : Table (List Answer)} (outcome : t.call.run.outcome = .ok output)
      (within : ∀ path ∈ output.names, path ∈ t.machine.outputPaths) :
    Taken t
      ⟨{ t.machine with
          stage := t.call.run.stage
          stats := t.machine.stats.count t.input.length (t.machine.address output) },
        t.call.run.supply, t.call.run.left, .ok (t.machine.address output)⟩

theorem taken (idle : t.machine.state = .idle) (wired : t.machine.Wired reached)
    (declared : t.call.Declared) : t.Taken t.run := by
  have routed : t.machine.unrouted? t.machine.outputPaths = none := wired.routed fun _ => id
  have within : ∀ output, t.call.run.outcome = .ok output →
      ∀ path ∈ output.names, path ∈ t.machine.outputPaths := by
    intro output outcome
    rw [StageCall.Declared, outcome] at declared
    exact declared
  have done : Machine.Processed t.machine t.supply t.input t.run :=
    Machine.processed idle t.supply t.input
  generalize t.run = run at done ⊢
  cases done with
  | refused unrouted => simp [routed] at unrouted
  | failed _ called outcome =>
    subst called
    exact .failed outcome
  | strayed _ called outcome unrouted =>
    subst called
    simp [wired.routed (within _ outcome)] at unrouted
  | sent _ called outcome _ =>
    subst called
    exact .sent outcome (within _ outcome)

/-- A machine whose paths all lead somewhere calls its stage, and then sends all that comes out to
where it is to go. -/
theorem of_wired (idle : t.machine.state = .idle) (wired : t.machine.Wired reached)
    (declared : ∀ c ∈ t.stageCalls, c.Declared) :
    t.stageCalls = [t.call] ∧
      (t.run.outcome =
        match t.call.run.outcome with
        | .error cause => .error (.stage cause)
        | .ok output => .ok (t.machine.address output)) ∧
      ∀ e ∈ t.sent, reached e.destination = true := by
  have calls : t.stageCalls = [t.call] :=
    Machine.stageCalls_of_routed idle (wired.routed fun _ => id) t.supply t.input
  rw [calls, List.forall_mem_singleton] at declared
  refine ⟨calls, ?_⟩
  have taken := taken idle wired declared
  unfold Turn.sent MachineRun.sent
  generalize t.run = run at taken ⊢
  cases taken with
  | failed outcome => simp [outcome]
  | sent outcome within =>
    refine ⟨by simp [outcome], fun e sent => ?_⟩
    obtain ⟨member, route⟩ := Machine.mem_address sent
    obtain ⟨d, route', there⟩ := wired e.path (within e.path (List.mem_map_of_mem member))
    rwa [← Option.some.inj (route'.symm.trans route)]

end Turn

namespace Factory

variable {σ : Type} [Stage σ] {f : Factory σ}

/-- The machine at a place, if there is one, only emits where something exists. -/
def Wired (f : Factory σ) (place : Destination) : Prop :=
  ∀ m ∈ f.machine? place, m.Wired f.reaches

/-- A run of a factory goes as the shift does, by the same turns. -/
structure Matches (run : FactoryRun σ) (turns : List (Turn σ)) (shift : FloorRun σ) : Prop where
  turns : turns = shift.turns
  floor : run.factory.floor = shift.floor
  supply : run.supply = shift.supply
  outcome : run.outcome = shift.outcome

/-- In a shift on the factory's floor every stage is called, and what it gives out can be delivered. -/
theorem Sound.turn_of_wired (h : f.Sound) {places : List Destination} (distinct : places.Nodup)
    (wired : ∀ d ∈ places, f.Wired d) {supply : Supply} {t : Turn σ}
    (taken : t ∈ (f.floor.shift supply places).turns) (declared : ∀ c ∈ t.stageCalls, c.Declared) :
    t.stageCalls = [t.call] ∧
      (t.run.outcome =
        match t.call.run.outcome with
        | .error cause => .error (.stage cause)
        | .ok output => .ok (t.machine.address output)) ∧
      ∀ e ∈ t.sent, f.reaches e.destination = true := by
  obtain ⟨before, later, split⟩ := List.append_of_mem taken
  obtain ⟨found, _⟩ := Floor.shift_turn distinct split
  exact Turn.of_wired (h.idle found) (wired t.place (Floor.place_mem taken) t.machine found) declared

theorem Sound.runChecked_matches (h : f.Sound) (supply : Supply) {station : String}
    (known : f.workstations.contains station = true) (wired : ∀ d ∈ f.placesOf station, f.Wired d)
    (declared : ∀ t ∈ (StationCall.mk f supply station).turns,
      t ∈ (f.floor.shift supply (f.placesOf station)).turns → ∀ c ∈ t.stageCalls, c.Declared) :
    Matches (f.runChecked supply station) (StationCall.mk f supply station).turns
      (f.floor.shift supply (f.placesOf station)) := by
  obtain ⟨w, found⟩ := Table.exists_get?_of_contains known
  obtain rfl := h.named station w found
  have places : f.placesOf w.name = w.machines.names.map w.place := by
    rw [placesOf, found]
    rfl
  have good := h.consistent w.name w found
  have known : ∀ name ∈ w.machines.names, w.hasMachine name = true := fun _ => Table.contains_iff.mpr
  obtain ⟨_, sends, turns, floor, later, outcome⟩ :=
    good.runEach_eq_shift f.floor supply known (List.forall_mem_nil _)
  rw [withStation_floor found rfl, Floor.deliver_nil, ← places] at sends turns floor later outcome
  have taken : (StationCall.mk f supply w.name).turns =
      (f.floor.shift supply (f.placesOf w.name)).turns := by
    simp only [StationCall.turns, found, turns]
  rw [taken] at declared
  obtain ⟨sound, alike, named⟩ := h.run found supply
  have all : ∀ d ∈ (w.run supply).outbound,
      (f.put w.name (w.run supply).workstation).reaches d.destination = true := by
    intro d member
    obtain ⟨t, taken, sent⟩ := sends d member
    rw [alike.reaches]
    exact (h.turn_of_wired (f.nodup_placesOf w.name) wired taken (declared t taken taken)).2.2 d sent
  obtain ⟨f', made⟩ := sound.exists_route all
  obtain ⟨_, _, floor'⟩ := sound.route made
  unfold Factory.runChecked
  simp only [workstation_eq_ok_iff.mpr found, made]
  refine ⟨taken, ?_, later.symm, outcome.symm⟩
  rw [floor, floor', floor_put named]
  rfl

theorem Matches.andThen {run run' : FactoryRun σ} {turns turns' : List (Turn σ)}
    {s : Floor σ} {supply : Supply} {places more : List Destination}
    (first : Matches run turns (s.shift supply places)) (ok : run.outcome = .ok ())
    (second : Matches run' turns' (run.factory.floor.shift run.supply more)) :
    Matches run' (turns ++ turns') (s.shift supply (places ++ more)) := by
  rw [first.floor, first.supply] at second
  have went : (s.shift supply places).outcome = .ok () := first.outcome.symm.trans ok
  rw [Floor.shift_append]
  simp only [FloorRun.andThen, went]
  exact ⟨congrArg₂ (· ++ ·) first.turns second.turns, second.floor, second.supply, second.outcome⟩

theorem Matches.andThen_of_error {run : FactoryRun σ} {turns : List (Turn σ)}
    {s : Floor σ} {supply : Supply} {places : List Destination}
    (first : Matches run turns (s.shift supply places)) {cause : PipelineError}
    (failed : run.outcome = .error cause) (more : List Destination) :
    Matches run turns (s.shift supply (places ++ more)) := by
  have stopped : (s.shift supply places).outcome = .error cause := first.outcome.symm.trans failed
  rw [Floor.shift_append]
  simp only [FloorRun.andThen, stopped]
  exact first

theorem Sound.runEach_matches (h : f.Sound) (supply : Supply) {stations : List String}
    (distinct : stations.Nodup)
    (known : ∀ station ∈ stations, station ∈ f.workstations.names)
    (wired : ∀ d ∈ stations.flatMap f.placesOf, f.Wired d)
    (declared : ∀ t ∈ (f.stationCalls supply stations).flatMap StationCall.turns,
      t ∈ (f.floor.shift supply (stations.flatMap f.placesOf)).turns →
        ∀ c ∈ t.stageCalls, c.Declared) :
    Matches (f.runEach supply stations)
      ((f.stationCalls supply stations).flatMap StationCall.turns)
      (f.floor.shift supply (stations.flatMap f.placesOf)) := by
  induction stations generalizing f supply with
  | nil => exact ⟨rfl, rfl, rfl, rfl⟩
  | cons station rest ih =>
    rw [List.forall_mem_cons] at known
    rw [Factory.stationCalls, List.flatMap_cons, List.flatMap_cons, List.forall_mem_append] at declared
    rw [List.flatMap_cons, List.forall_mem_append] at wired
    obtain ⟨notLater, distinct⟩ := List.nodup_cons.mp distinct
    have first := h.runChecked_matches supply (Table.contains_iff.mpr known.1) wired.1
      fun t taken taken' => declared.1 t taken (Floor.mem_turns_append taken' _)
    rw [Factory.runEach, Factory.stationCalls, List.flatMap_cons, List.flatMap_cons]
    cases outcome : (f.runChecked supply station).outcome with
    | error cause => simpa [outcome] using first.andThen_of_error outcome _
    | ok _ =>
      simp only [outcome] at declared ⊢
      obtain ⟨sound, alike⟩ := h.runChecked supply station
      have places : (f.runChecked supply station).factory.placesOf = f.placesOf :=
        funext alike.placesOf
      have reaches : (f.runChecked supply station).factory.reaches = f.reaches :=
        funext alike.reaches
      refine first.andThen outcome ?_
      rw [← places]
      refine ih sound _ distinct ?_ ?_ ?_
      · rw [alike.stations]
        exact known.2
      · rw [places]
        intro d member m found
        -- The machines still to run stand in other workstations, so they are as they were.
        have away : ∀ t ∈ (f.floor.shift supply (f.placesOf station)).turns, t.place ≠ d := by
          rintro t taken rfl
          obtain ⟨other, later, there⟩ := List.mem_flatMap.mp member
          have here := (mem_placesOf_iff.mp (Floor.place_mem taken)).1
          rw [← here, (mem_placesOf_iff.mp there).1] at notLater
          exact notLater later
        have untouched : (f.runChecked supply station).factory.machine? d = f.machine? d :=
          (congrArg (Floor.machine? · d) first.floor).trans (Floor.shift_elsewhere away).1
        rw [reaches]
        exact wired.2 d member m (untouched.symm.trans found)
      · intro t taken taken'
        refine declared.2 t taken ?_
        rw [places, first.floor, first.supply] at taken'
        exact Floor.mem_turns_append_of_ok (first.outcome.symm.trans outcome) taken'

theorem checkMachine_eq_ok_iff {w : Workstation σ} {m : Machine σ} :
    f.checkMachine w m = .ok () ↔ m.Wired f.reaches := by
  refine forM_eq_ok_iff.trans (forall₂_congr fun path _ => ?_)
  cases m.route? path with
  | none => simp
  | some d => simp [checkDestination_eq_ok_iff]

theorem checkWorkstation_eq_ok_iff {station : String} {w : Workstation σ}
    (found : f.workstations.get? station = some w) :
    f.checkWorkstation w = .ok () ↔ ∀ d ∈ f.placesOf station, f.Wired d := by
  refine forM_eq_ok_iff.trans ?_
  simp only [checkMachine_eq_ok_iff]
  constructor
  · intro wired d member m here
    obtain ⟨rfl, _⟩ := mem_placesOf_iff.mp member
    obtain ⟨w', name, found', _, there⟩ := machine?_eq_some_iff.mp here
    obtain rfl := Option.some.inj (found.symm.trans found')
    exact wired (name, m) (Table.mem_entries_of_get? there)
  · rintro wired ⟨name, m⟩ member
    have here : f.machine? ⟨station, some name⟩ = some m :=
      machine?_eq_some_iff.mpr ⟨w, name, found, rfl, Table.get?_of_mem_entries member⟩
    exact wired _ (mem_placesOf_iff.mpr ⟨rfl, m, here⟩) m here

/-- The check passes exactly if no machine may emit where nothing exists. -/
theorem validate_eq_ok_iff : f.validate = .ok () ↔ ∀ d ∈ f.places, f.Wired d := by
  refine forM_eq_ok_iff.trans ?_
  constructor
  · intro checked d member
    obtain ⟨station, filed, there⟩ := List.mem_flatMap.mp member
    obtain ⟨w, found⟩ := Table.exists_get?_of_contains (Table.contains_iff.mpr filed)
    exact (checkWorkstation_eq_ok_iff found).mp
      (checked (station, w) (Table.mem_entries_of_get? found)) d there
  · rintro wired ⟨station, w⟩ member
    refine (checkWorkstation_eq_ok_iff (Table.get?_of_mem_entries member)).mpr fun d there => ?_
    exact wired d (List.mem_flatMap.mpr ⟨station, List.mem_map_of_mem member, there⟩)

theorem Sound.cycle_matches (h : f.Sound) (valid : f.validate = .ok ()) {supply : Supply}
    (declared : ∀ t ∈ f.turns (.cycle supply), t ∈ (f.floor.shift supply f.places).turns →
      ∀ c ∈ t.stageCalls, c.Declared) :
    Matches (f.cycle supply) (f.turns (.cycle supply)) (f.floor.shift supply f.places) := by
  have runs : f.runs (.cycle supply) = f.stationCalls supply f.workstations.names := by
    simp only [Factory.runs, valid]
  rw [turns, runs] at declared ⊢
  rw [cycle, valid]
  exact h.runEach_matches supply f.workstations.distinct (fun _ => id)
    (validate_eq_ok_iff.mp valid) declared

theorem Sound.run_matches (h : f.Sound) {supply : Supply} {station : String}
    (checked : f.workstation station >>= f.checkWorkstation = .ok ())
    (declared : ∀ t ∈ f.turns (.run supply station),
      t ∈ (f.floor.shift supply (f.placesOf station)).turns → ∀ c ∈ t.stageCalls, c.Declared) :
    Matches (f.runWorkstation supply station) (f.turns (.run supply station))
      (f.floor.shift supply (f.placesOf station)) := by
  have turns : f.turns (.run supply station) = (StationCall.mk f supply station).turns := by
    simp [Factory.turns, Factory.runs, checked]
  rw [turns] at declared ⊢
  rw [runWorkstation, checked]
  obtain ⟨w, named, passed⟩ := bind_eq_ok_iff.mp checked
  have found := workstation_eq_ok_iff.mp named
  exact h.runChecked_matches supply (Table.contains_of_get? found)
    ((checkWorkstation_eq_ok_iff found).mp passed) declared

/-- The turns of a cycle, and what the cycle does by them. -/
structure CycleOf (f : Factory σ) (supply : Supply) (turns : List (Turn σ)) : Prop where
  /-- Every turn calls the stage of its machine once, and no other stage is called. -/
  calls : f.stageCalls (.cycle supply) = turns.map Turn.call
  /-- What comes out of a stage is sent where its paths lead. -/
  work : ∀ t ∈ turns, t.run.outcome =
    match t.call.run.outcome with
    | .error cause => .error (.stage cause)
    | .ok output => .ok (t.machine.address output)
  /-- The turns are taken in the order in which workstations and machines were built. -/
  order : turns.map Turn.place <+: f.places
  /-- A machine receives its queue as it was before the cycle, and then what the machines before it
  sent there. -/
  received : ∀ before t later, turns = before ++ t :: later →
    f.machine? t.place = some t.machine ∧
      t.input = f.contents t.place ++ addressed t.place (before.flatMap Turn.sent)
  /-- What it and the machines after it send there is its queue after the cycle, behind what it kept
  if it failed. -/
  left : ∀ before t later, turns = before ++ t :: later →
    (f.cycle supply).factory.machine? t.place = some t.run.machine ∧
      (f.cycle supply).factory.contents t.place =
        t.kept ++ addressed t.place ((t :: later).flatMap Turn.sent)
  /-- Inboxes, and machines after one that failed, get what was sent to them, and nothing else changes
  there. -/
  elsewhere : ∀ d, (∀ t ∈ turns, t.place ≠ d) →
    (f.cycle supply).factory.machine? d = f.machine? d ∧
      (f.cycle supply).factory.contents d = f.contents d ++ addressed d (turns.flatMap Turn.sent)
  /-- A cycle that succeeds has a turn for each machine, and all succeed. -/
  success : (f.cycle supply).outcome = .ok () →
    turns.map Turn.place = f.places ∧ ∀ t ∈ turns, t.Succeeds
  /-- A cycle that fails ends with the first turn that fails, and with its error. The counters of that
  machine do not change. -/
  failure : ∀ cause, (f.cycle supply).outcome = .error cause →
    ∃ before t, turns = before ++ [t] ∧ (∀ b ∈ before, b.Succeeds) ∧
      t.run.outcome = .error cause ∧ t.run.machine.stats = t.machine.stats

/-- A cycle in a factory that passes the check and whose stages emit on their declared paths: however
the machines are wired, it does what it would do if every delivery were made at once. -/
theorem cycleOf_turns (reachable : f.Reachable) (valid : f.validate = .ok ()) {supply : Supply}
    (declared : ∀ c ∈ f.stageCalls (.cycle supply), c.Declared) :
    f.CycleOf supply (f.turns (.cycle supply)) := by
  have sound := reachable.sound
  have calls := f.stageCalls_eq_flatMap (.cycle supply)
  have emits : ∀ t ∈ f.turns (.cycle supply), ∀ c ∈ t.stageCalls, c.Declared := by
    intro t taken c called
    exact declared c (calls ▸ List.mem_flatMap.mpr ⟨t, taken, called⟩)
  have same := sound.cycle_matches valid fun t taken _ => emits t taken
  rw [same.turns] at calls emits ⊢
  have machine : (f.cycle supply).factory.machine? = (f.floor.shift supply f.places).floor.machine? :=
    congrArg Floor.machine? same.floor
  have contents : (f.cycle supply).factory.contents = (f.floor.shift supply f.places).floor.contents :=
    congrArg Floor.contents same.floor
  have turn := fun t taken => sound.turn_of_wired f.nodup_places (validate_eq_ok_iff.mp valid) taken
    (emits t taken)
  have machines : ∀ d ∈ f.places, (f.floor.machine? d).isSome = true := fun d member =>
    Option.isSome_iff_exists.mpr (exists_machine?_of_mem_places member)
  obtain ⟨order, all⟩ := Floor.shift_places supply machines
  have ending := f.floor.shift_ending supply f.places
  refine ⟨?_, fun t taken => (turn t taken).2.1, order, ?_, ?_, ?_, ?_, ?_⟩
  · rw [calls, List.map_eq_flatMap]
    exact List.flatMap_congr fun t taken => (turn t taken).1
  · intro before t later split
    obtain ⟨found, input, _⟩ := Floor.shift_turn f.nodup_places split
    exact ⟨found, input⟩
  · intro before t later split
    rw [machine, contents]
    exact (Floor.shift_turn f.nodup_places split).2.2
  · intro d away
    rw [machine, contents]
    exact Floor.shift_elsewhere away
  · intro ok
    have went := same.outcome.symm.trans ok
    rw [went] at ending
    exact ⟨all went, ending⟩
  · intro cause failed
    rw [same.outcome.symm.trans failed] at ending
    obtain ⟨before, t, split, fine, failure⟩ := ending
    obtain ⟨found, _⟩ := Floor.shift_turn f.nodup_places split
    exact ⟨before, t, split, fine, failure, Machine.stats_of_error (sound.idle found) failure⟩

/-- Two machines of one workstation and one of another, each with two paths: there are routes forward,
back, to the machine itself and across. Answers wait for the first two. -/
def crossing : List (Call CustomStage) :=
  let machine := fun name station ways => Machine.new name station (.split ["x", "y"] 1)
    { paths := .ofList ways }
  let answer := fun n => Answer.new ⟨n⟩ .epoch .empty
  [.build "v", .build "w",
    .add "v" (machine "m" "v" [("x", ⟨"v", some "k"⟩), ("y", ⟨"w", some "n"⟩)]) rfl,
    .add "v" (machine "k" "v" [("x", ⟨"v", some "m"⟩), ("y", ⟨"v", some "k"⟩)]) rfl,
    .add "w" (machine "n" "w" [("x", ⟨"v", some "m"⟩), ("y", ⟨"w", none⟩)]) rfl,
    .deliver [answer 1, answer 2, answer 3] ⟨"v", some "m"⟩,
    .deliver [answer 4] ⟨"v", some "k"⟩]

theorem cycleOf_turns_crossing :
    let f := crossing.foldl after Ledger.bareFactory
    let ids := fun d => ((f.cycle ⟨5, .epoch⟩).factory.contents d).map (·.id.bits)
    f.validate = .ok () ∧ (f.cycle ⟨5, .epoch⟩).outcome = .ok () ∧
      f.places.map ids = [[4, 2], [1], []] ∧ ids ⟨"w", none⟩ = [3] ∧
      f.CycleOf ⟨5, .epoch⟩ (f.turns (.cycle ⟨5, .epoch⟩)) := by
  intro f ids
  have valid : f.validate = .ok () := by decide +kernel
  have declared : ∀ c ∈ f.stageCalls (.cycle ⟨5, .epoch⟩), c.Declared := by decide +kernel
  refine ⟨valid, by decide +kernel, by decide +kernel, by decide +kernel, ?_⟩
  exact cycleOf_turns ⟨Ledger.bareFactory, crossing, rfl, rfl⟩ valid declared

end Factory

end Evolution
