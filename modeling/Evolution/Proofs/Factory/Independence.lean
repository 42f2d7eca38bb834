import Evolution.Proofs.Factory.Cycle

/-! Workstations that send each other nothing. A shift sees no more than what stands and waits at its
places, and adds to the other destinations what it sends there. So two workstations without a route
between them run alike in either order; elsewhere only the order in which their batches come in can
differ. -/

namespace Evolution

open Delivery (addressed)

/-- The same work, with identifiers from any supply. -/
def StageRun.SameWork {σ : Type} (run run' : StageRun σ) : Prop :=
  run.stage = run'.stage ∧ run.left = run'.left ∧ run.outcome = run'.outcome

/-- The stage works by its own state and its input alone, and emits on the paths that it declares. -/
structure Stage.Steady {σ : Type} [Stage σ] (s : σ) : Prop where
  fixed : ∀ supply supply' input, (process s supply input).SameWork (process s supply' input)
  declared : ∀ supply input, (StageCall.mk s supply input).Declared

namespace CustomStage

/-- A stage that is given by a function is steady if the function keeps to the declared paths. -/
theorem steady {s : CustomStage} (declared : ∀ input output, (s.act input).2 = .ok output →
    ∀ path ∈ output.names, path ∈ s.paths) : Stage.Steady s where
  fixed _ _ _ := ⟨rfl, rfl, rfl⟩
  declared supply input := by
    have outcome : (StageCall.mk s supply input).run.outcome = (s.act input).2.mapError .failed := rfl
    rw [StageCall.Declared, outcome]
    cases made : (s.act input).2 with
    | error reason => trivial
    | ok output => exact declared input output made

theorem steady_pass (paths : List String) : Stage.Steady (pass paths) := by
  refine steady fun input output made path member => ?_
  cases paths with
  | nil =>
    obtain rfl := Except.ok.inj made
    cases member
  | cons first rest =>
    obtain rfl := Except.ok.inj made
    simpa [Table.mem_names_ofList, pass] using member

theorem steady_split (paths : List String) (n : Nat) : Stage.Steady (split paths n) := by
  refine steady fun input output made path member => ?_
  match paths with
  | [] | [_] =>
    obtain rfl := Except.ok.inj made
    cases member
  | first :: second :: rest =>
    obtain rfl := Except.ok.inj made
    have one : path = first ∨ path = second := by simpa [Table.mem_names_ofList] using member
    simp only [split, List.mem_cons]
    exact one.imp_right .inl

theorem steady_refuse (paths : List String) (reason : String) (n : Nat) :
    Stage.Steady (refuse paths reason n) :=
  steady nofun

theorem steady_hold (paths : List String) : Stage.Steady (hold paths) := by
  refine steady fun input output made path member => ?_
  obtain rfl := Except.ok.inj made
  cases member

end CustomStage

/-- The same end of a run, with another supply left. -/
def MachineRun.SameEnd {σ : Type} (run run' : MachineRun σ) : Prop :=
  run.machine = run'.machine ∧ run.left = run'.left ∧ run.outcome = run'.outcome

namespace Machine

variable {σ : Type} {m : Machine σ}

theorem giveUp_sameEnd (m : Machine σ) (supply supply' : Supply) (left : List Answer)
    (cause : PipelineError) : (m.giveUp supply left cause).SameEnd (m.giveUp supply' left cause) := by
  unfold giveUp
  split <;> exact ⟨rfl, rfl, rfl⟩

theorem dispatch_sameEnd (m : Machine σ) (supply supply' : Supply) (received : Nat)
    (left : List Answer) (output : Table (List Answer)) :
    (m.dispatch supply received left output).SameEnd (m.dispatch supply' received left output) := by
  unfold dispatch
  split
  · exact ⟨rfl, rfl, rfl⟩
  · dsimp only
    split <;> exact ⟨rfl, rfl, rfl⟩

variable [Stage σ]

theorem work_sameEnd (steady : Stage.Steady m.stage) (supply supply' : Supply)
    (input : List Answer) : (m.work supply input).SameEnd (m.work supply' input) := by
  have same := steady.fixed supply supply' input
  unfold work
  generalize Stage.process m.stage supply input = run at same ⊢
  generalize Stage.process m.stage supply' input = run' at same ⊢
  obtain ⟨stage, supply, left, outcome⟩ := run
  obtain ⟨stage', supply', left', outcome'⟩ := run'
  obtain ⟨rfl, rfl, rfl⟩ : stage = stage' ∧ left = left' ∧ outcome = outcome' := same
  cases outcome with
  | error cause => exact giveUp_sameEnd ..
  | ok output =>
    dsimp only
    split
    · exact giveUp_sameEnd ..
    · exact dispatch_sameEnd ..

theorem process_sameEnd (steady : Stage.Steady m.stage) (supply supply' : Supply)
    (input : List Answer) : (m.process supply input).SameEnd (m.process supply' input) := by
  unfold process
  split
  · exact ⟨rfl, rfl, rfl⟩
  · unfold moveTo
    cases m.state.move .processing with
    | error illegal => exact ⟨rfl, rfl, rfl⟩
    | ok state => exact work_sameEnd (m := { m with state }) steady supply supply' input

/-- Where the paths on which the machine may emit lead. -/
def targets (m : Machine σ) : List Destination := m.outputPaths.filterMap m.route?

end Machine

namespace Turn

variable {σ : Type} [Stage σ] {t t' : Turn σ}

theorem sameEnd (steady : Stage.Steady t.machine.stage) (machine : t.machine = t'.machine)
    (input : t.input = t'.input) :
    t.run.outcome = t'.run.outcome ∧ t.run.machine = t'.run.machine ∧ t.sent = t'.sent ∧
      t.kept = t'.kept := by
  obtain ⟨same, left, outcome⟩ : t.run.SameEnd t'.run := by
    unfold Turn.run
    rw [← machine, ← input]
    exact Machine.process_sameEnd steady t.supply t'.supply t.input
  refine ⟨outcome, same, ?_, ?_⟩
  · rw [Turn.sent, Turn.sent, MachineRun.sent, MachineRun.sent, outcome]
  · rw [kept, kept, MachineRun.kept, MachineRun.kept, outcome, left]

/-- What a machine sends goes where its routes lead. -/
theorem mem_targets_of_sent {reached : Destination → Bool} (idle : t.machine.state = .idle)
    (wired : t.machine.Wired reached) (declared : t.call.Declared) {e : Delivery}
    (sent : e ∈ t.sent) : e.destination ∈ t.machine.targets := by
  have taken := taken idle wired declared
  unfold Turn.sent MachineRun.sent at sent
  generalize t.run = run at taken sent
  cases taken with
  | failed => cases sent
  | sent _ within =>
    obtain ⟨member, route⟩ := Machine.mem_address sent
    exact List.mem_filterMap.mpr ⟨e.path, within e.path (List.mem_map_of_mem member), route⟩

end Turn

namespace Floor

variable {σ : Type} {s s' : Floor σ} {P : Destination → Prop} {places : List Destination}

/-- The same machines with the same answers before them, at some destinations. -/
def AgreeOn (P : Destination → Prop) (s s' : Floor σ) : Prop :=
  ∀ d, P d → s.machine? d = s'.machine? d ∧ s.contents d = s'.contents d

variable [Stage σ]

theorem AgreeOn.after (agree : s.AgreeOn P s') {t t' : Turn σ} (place : t.place = t'.place)
    (machine : t.run.machine = t'.run.machine) (sent : t.sent = t'.sent) (kept : t.kept = t'.kept) :
    (s.after t).AgreeOn P (s'.after t') := by
  intro d member
  by_cases here : t.place = d
  · obtain ⟨found, contents⟩ := s.after_place t
    obtain ⟨found', contents'⟩ := s'.after_place t'
    rw [← here, found, contents, place, found', contents', machine, sent, kept]
    exact ⟨rfl, rfl⟩
  · obtain ⟨found, contents⟩ := s.after_of_ne here
    obtain ⟨found', contents'⟩ := s'.after_of_ne (place ▸ here)
    rw [found, contents, found', contents', (agree d member).1, (agree d member).2, sent]
    exact ⟨rfl, rfl⟩

/-- A shift depends on what is found at its places and on nothing else. -/
theorem shift_agree (agree : s.AgreeOn P s') (covered : ∀ d ∈ places, P d)
    (distinct : places.Nodup)
    (steady : ∀ d ∈ places, ∀ m, s.machine? d = some m → Stage.Steady m.stage)
    (supply supply' : Supply) :
    (s.shift supply places).outcome = (s'.shift supply' places).outcome ∧
      (s.shift supply places).turns.flatMap Turn.sent =
        (s'.shift supply' places).turns.flatMap Turn.sent ∧
      (s.shift supply places).floor.AgreeOn P (s'.shift supply' places).floor := by
  induction places generalizing s s' supply supply' with
  | nil => exact ⟨rfl, rfl, agree⟩
  | cons place rest ih =>
    obtain ⟨here, covered⟩ := List.forall_mem_cons.mp covered
    obtain ⟨fixed, steady⟩ := List.forall_mem_cons.mp steady
    obtain ⟨new, distinct⟩ := List.nodup_cons.mp distinct
    obtain ⟨machine, contents⟩ := agree place here
    cases found : s.machine? place with
    | none =>
      have none : s.turn? supply place = none := by rw [turn?, found, Option.map_none]
      have none' : s'.turn? supply' place = Option.none := by
        rw [turn?, ← machine, found, Option.map_none]
      rw [shift_of_none none, shift_of_none none']
      exact ih agree covered distinct steady supply supply'
    | some m =>
      let t : Turn σ := ⟨place, m, supply, s.contents place⟩
      let t' : Turn σ := ⟨place, m, supply', s'.contents place⟩
      have next : s.turn? supply place = some t := by rw [turn?, found, Option.map_some]
      have next' : s'.turn? supply' place = some t' := by
        rw [turn?, ← machine, found, Option.map_some]
      have sameMachine : t.machine = t'.machine := rfl
      have samePlace : t.place = t'.place := rfl
      obtain ⟨outcome, left, sent, kept⟩ := Turn.sameEnd (fixed m found) sameMachine contents
      have after := agree.after samePlace left sent kept
      cases ended : t.run.outcome with
      | error cause =>
        rw [shift_of_error next ended, shift_of_error next' (outcome.symm.trans ended)]
        exact ⟨rfl, by simp [sent], after⟩
      | ok deliveries =>
        rw [shift_of_ok next ended, shift_of_ok next' (outcome.symm.trans ended)]
        -- The places that follow are others, so their machines are still as they were.
        have still : ∀ d ∈ rest, ∀ m, (s.after t).machine? d = some m → Stage.Steady m.stage := by
          intro d member m there
          have away : t.place ≠ d := by
            rintro rfl
            exact new member
          rw [(s.after_of_ne away).1] at there
          exact steady d member m there
        obtain ⟨same, sends, floors⟩ :=
          ih after covered distinct still t.run.supply t'.run.supply
        refine ⟨same, ?_, floors⟩
        simp only [FloorRun.precededBy, List.flatMap_cons, sent, sends]

end Floor

namespace Factory

variable {σ : Type} [Stage σ] {f : Factory σ} {a b : String}

/-- Where the machines of a workstation may send answers. -/
def targets (f : Factory σ) (station : String) : List Destination :=
  (f.placesOf station).flatMap fun d => (f.machine? d).toList.flatMap Machine.targets

/-- What a workstation would send if it ran now. -/
def sends (f : Factory σ) (supply : Supply) (station : String) : List Delivery :=
  (f.floor.shift supply (f.placesOf station)).turns.flatMap Turn.sent

/-- The routes of the workstation pass the check, and its stages are steady. -/
structure Steady (f : Factory σ) (station : String) : Prop where
  sound : f.Sound
  known : f.workstations.contains station = true
  wired : ∀ d m, d.workstation = station → f.machine? d = some m → m.Wired f.reaches
  stages : ∀ d m, d.workstation = station → f.machine? d = some m → Stage.Steady m.stage

theorem steady_of_validate (sound : f.Sound) (valid : f.validate = .ok ())
    (stages : ∀ d m, f.machine? d = some m → Stage.Steady m.stage)
    (known : f.workstations.contains a = true) : f.Steady a where
  sound
  known
  wired d m _ there :=
    validate_eq_ok_iff.mp valid d (mem_places_of_machine? there).2 m there
  stages d m _ there := stages d m there

theorem turn_of_shift {supply : Supply} {t : Turn σ}
    (taken : t ∈ (f.floor.shift supply (f.placesOf a)).turns) :
    t.place.workstation = a ∧ f.machine? t.place = some t.machine := by
  obtain ⟨before, later, split⟩ := List.append_of_mem taken
  obtain ⟨there, _⟩ := Floor.shift_turn (f.nodup_placesOf a) split
  exact ⟨(mem_placesOf_iff.mp (Floor.place_mem taken)).1, there⟩

/-- A run of a workstation is a shift through its places. -/
theorem Steady.run (h : f.Steady a) (supply : Supply) :
    let run := f.runWorkstation supply a
    let shift := f.floor.shift supply (f.placesOf a)
    run.outcome = shift.outcome ∧ run.factory.floor = shift.floor ∧ run.factory.Sound ∧
      f.Alike run.factory := by
  obtain ⟨w, found⟩ := Table.exists_get?_of_contains h.known
  have passes : f.checkWorkstation w = .ok () :=
    (checkWorkstation_eq_ok_iff found).mpr fun d member m => h.wired d m (mem_placesOf_iff.mp member).1
  have checked : f.workstation a >>= f.checkWorkstation = .ok () :=
    bind_eq_ok_iff.mpr ⟨w, workstation_eq_ok_iff.mpr found, passes⟩
  have declared : ∀ t ∈ (f.floor.shift supply (f.placesOf a)).turns,
      ∀ c ∈ t.stageCalls, c.Declared := by
    intro t taken c called
    obtain ⟨here, there⟩ := turn_of_shift taken
    rw [Machine.eq_call_of_mem (h.sound.idle there) called]
    exact (h.stages _ _ here there).declared _ _
  have same := h.sound.run_matches checked fun t _ => declared t
  refine ⟨same.outcome, same.floor, ?_⟩
  rw [runWorkstation, checked]
  exact h.sound.runChecked supply a

/-- Other workstations keep their machines and get what is sent to them. -/
theorem Steady.run_elsewhere (h : f.Steady a) (supply : Supply) {d : Destination}
    (away : d.workstation ≠ a) :
    (f.runWorkstation supply a).factory.machine? d = f.machine? d ∧
      (f.runWorkstation supply a).factory.contents d =
        f.contents d ++ addressed d (f.sends supply a) := by
  obtain ⟨_, floor, _⟩ := h.run supply
  have elsewhere : ∀ t ∈ (f.floor.shift supply (f.placesOf a)).turns, t.place ≠ d := by
    rintro t taken rfl
    exact away (turn_of_shift taken).1
  obtain ⟨machine, contents⟩ := Floor.shift_elsewhere elsewhere
  rw [← floor] at machine contents
  exact ⟨machine, contents⟩

theorem Steady.mem_targets_of_sends (h : f.Steady a) {supply : Supply} {e : Delivery}
    (sent : e ∈ f.sends supply a) : e.destination ∈ f.targets a := by
  obtain ⟨t, taken, sent⟩ := List.mem_flatMap.mp sent
  obtain ⟨here, there⟩ := turn_of_shift taken
  have routed := Turn.mem_targets_of_sent (h.sound.idle there) (h.wired _ _ here there)
    ((h.stages _ _ here there).declared _ _) sent
  refine List.mem_flatMap.mpr ⟨t.place, Floor.place_mem taken, ?_⟩
  rw [there, Option.toList_some, List.flatMap_singleton]
  exact routed

theorem Steady.addressed_sends (h : f.Steady a) (supply : Supply) {d : Destination}
    (unrouted : d ∉ f.targets a) : addressed d (f.sends supply a) = [] :=
  Delivery.addressed_eq_nil fun _ sent here => unrouted (here ▸ h.mem_targets_of_sends sent)

theorem Steady.after_run (h : f.Steady a) (h' : f.Steady b) (different : a ≠ b) (supply : Supply) :
    (f.runWorkstation supply a).factory.Steady b := by
  obtain ⟨_, _, sound, alike⟩ := h.run supply
  have same : ∀ d, d.workstation = b →
      (f.runWorkstation supply a).factory.machine? d = f.machine? d :=
    fun d here => (h.run_elsewhere supply (here.trans_ne different.symm)).1
  constructor
  · exact sound
  · exact Table.contains_iff.mpr (alike.stations ▸ Table.contains_iff.mp h'.known)
  · intro d m here there
    rw [funext alike.reaches]
    exact h'.wired d m here (same d here ▸ there)
  · intro d m here there
    exact h'.stages d m here (same d here ▸ there)

/-- A workstation that runs after one that sends it nothing does what it would do alone. -/
theorem Steady.run_after (h : f.Steady a) (h' : f.Steady b) (different : a ≠ b)
    (apart : ∀ d ∈ f.targets a, d.workstation ≠ b) (supply later alone : Supply) :
    let second := (f.runWorkstation supply a).factory.runWorkstation later b
    let first := f.runWorkstation alone b
    second.outcome = first.outcome ∧
      (f.runWorkstation supply a).factory.sends later b = f.sends alone b ∧
      ∀ d, d.workstation = b → second.factory.machine? d = first.factory.machine? d ∧
        second.factory.contents d = first.factory.contents d := by
  obtain ⟨outcome, floor, _⟩ := h'.run alone
  obtain ⟨outcome', floor', _⟩ := (h.after_run h' different supply).run later
  obtain ⟨_, _, _, alike⟩ := h.run supply
  have agree : f.floor.AgreeOn (·.workstation = b) (f.runWorkstation supply a).factory.floor := by
    intro d here
    obtain ⟨machine, contents⟩ := h.run_elsewhere supply (here.trans_ne different.symm)
    rw [h.addressed_sends supply fun routed => apart d routed here, List.append_nil] at contents
    exact ⟨machine.symm, contents.symm⟩
  have covered : ∀ d ∈ f.placesOf b, d.workstation = b := fun _ member =>
    (mem_placesOf_iff.mp member).1
  obtain ⟨same, sends, floors⟩ := Floor.shift_agree agree covered (f.nodup_placesOf b)
    (fun d member m => h'.stages d m (covered d member)) alone later
  rw [alike.placesOf] at outcome' floor'
  rw [← floor', ← floor] at floors
  refine ⟨outcome'.trans (same.symm.trans outcome.symm), ?_, fun d here => ?_⟩
  · rw [Factory.sends, alike.placesOf]
    exact sends.symm
  · exact ⟨(floors d here).1.symm, (floors d here).2.symm⟩

/-- The second run does nothing to the workstation that ran first. -/
theorem Steady.run_after_here (h : f.Steady a) (h' : f.Steady b) (different : a ≠ b)
    (apart : ∀ d ∈ f.targets a, d.workstation ≠ b)
    (apart' : ∀ d ∈ f.targets b, d.workstation ≠ a) (supply later alone : Supply)
    {d : Destination} (here : d.workstation = a) :
    let first := (f.runWorkstation supply a).factory
    let second := (first.runWorkstation later b).factory
    second.machine? d = first.machine? d ∧ second.contents d = first.contents d := by
  obtain ⟨_, sends, _⟩ := h.run_after h' different apart supply later alone
  obtain ⟨machine, contents⟩ :=
    (h.after_run h' different supply).run_elsewhere later (here.trans_ne different)
  rw [sends, h'.addressed_sends alone fun routed => apart' d routed here, List.append_nil] at contents
  exact ⟨machine, contents⟩

/-- A third workstation gets what the two send to it. -/
theorem Steady.run_after_elsewhere (h : f.Steady a) (h' : f.Steady b) (different : a ≠ b)
    (apart : ∀ d ∈ f.targets a, d.workstation ≠ b) (supply later alone : Supply)
    {d : Destination} (away : d.workstation ≠ a) (away' : d.workstation ≠ b) :
    let second := ((f.runWorkstation supply a).factory.runWorkstation later b).factory
    second.machine? d = f.machine? d ∧
      second.contents d =
        f.contents d ++ (addressed d (f.sends supply a) ++ addressed d (f.sends alone b)) := by
  obtain ⟨_, sends, _⟩ := h.run_after h' different apart supply later alone
  obtain ⟨machine, contents⟩ := h.run_elsewhere supply away
  obtain ⟨machine', contents'⟩ := (h.after_run h' different supply).run_elsewhere later away'
  rw [contents, sends, List.append_assoc] at contents'
  exact ⟨machine'.trans machine, contents'⟩

/-- Two workstations without a route between them, of a factory whose routes pass the check and whose
stages are steady, run alike in either order: with the same results, and with the same machines,
queues and inboxes in the end. Only where both have a route to can the answers come in another order.
It makes no difference what identifiers the runs are given. -/
theorem runWorkstation_comm (reachable : f.Reachable) (valid : f.validate = .ok ())
    (steady : ∀ d m, f.machine? d = some m → Stage.Steady m.stage)
    (known : f.workstations.contains a = true) (known' : f.workstations.contains b = true)
    (different : a ≠ b) (apart : ∀ d ∈ f.targets a, d.workstation ≠ b)
    (apart' : ∀ d ∈ f.targets b, d.workstation ≠ a) (s₁ s₂ s₃ s₄ : Supply) :
    let a₁ := f.runWorkstation s₁ a
    let b₂ := a₁.factory.runWorkstation s₂ b
    let b₁ := f.runWorkstation s₃ b
    let a₂ := b₁.factory.runWorkstation s₄ a
    a₁.outcome = a₂.outcome ∧ b₂.outcome = b₁.outcome ∧
      (∀ d, b₂.factory.machine? d = a₂.factory.machine? d) ∧
      (∀ d, d.workstation = a ∨ d.workstation = b →
        b₂.factory.contents d = a₂.factory.contents d) ∧
      ∀ d, (b₂.factory.contents d).Perm (a₂.factory.contents d) ∧
        (¬(d ∈ f.targets a ∧ d ∈ f.targets b) → b₂.factory.contents d = a₂.factory.contents d) := by
  intro a₁ b₂ b₁ a₂
  have h := steady_of_validate reachable.sound valid steady known
  have h' := steady_of_validate reachable.sound valid steady known'
  obtain ⟨outcome, _, inA⟩ := h'.run_after h different.symm apart' s₃ s₄ s₁
  obtain ⟨outcome', _, inB⟩ := h.run_after h' different apart s₁ s₂ s₃
  have own : ∀ d, d.workstation = a ∨ d.workstation = b →
      b₂.factory.machine? d = a₂.factory.machine? d ∧
        b₂.factory.contents d = a₂.factory.contents d := by
    rintro d (here | here)
    · obtain ⟨machine, contents⟩ := h.run_after_here h' different apart apart' s₁ s₂ s₃ here
      exact ⟨machine.trans (inA d here).1.symm, contents.trans (inA d here).2.symm⟩
    · obtain ⟨machine, contents⟩ := h'.run_after_here h different.symm apart' apart s₃ s₄ s₁ here
      exact ⟨(inB d here).1.trans machine.symm, (inB d here).2.trans contents.symm⟩
  have third := fun (d : Destination) (away : ¬(d.workstation = a ∨ d.workstation = b)) =>
    h.run_after_elsewhere h' different apart s₁ s₂ s₃ (mt .inl away) (mt .inr away)
  have third' := fun (d : Destination) (away : ¬(d.workstation = a ∨ d.workstation = b)) =>
    h'.run_after_elsewhere h different.symm apart' s₃ s₄ s₁ (mt .inr away) (mt .inl away)
  refine ⟨outcome.symm, outcome', fun d => ?_, fun d here => (own d here).2, fun d => ?_⟩
  · by_cases here : d.workstation = a ∨ d.workstation = b
    · exact (own d here).1
    · exact (third d here).1.trans (third' d here).1.symm
  · by_cases here : d.workstation = a ∨ d.workstation = b
    · exact ⟨.of_eq (own d here).2, fun _ => (own d here).2⟩
    · rw [(third d here).2, (third' d here).2]
      refine ⟨List.perm_append_comm.append_left _, fun notBoth => ?_⟩
      congr 1
      rcases not_and_or.mp notBoth with unrouted | unrouted
      · rw [h.addressed_sends s₁ unrouted, List.nil_append, List.append_nil]
      · rw [h'.addressed_sends s₃ unrouted, List.nil_append, List.append_nil]

/-- Two workstations that both send to a machine of a third one. In the first of them the second
machine fails, after the first one has sent out its answers. -/
def sidings : List (Call CustomStage) :=
  let machine := fun name station stage ways => Machine.new name station stage { paths := .ofList ways }
  let answer := fun n => Answer.new ⟨n⟩ .epoch .empty
  [.build "v", .build "w", .build "z",
    .add "v" (machine "m" "v" (.split ["x", "y"] 1) [("x", ⟨"z", some "k"⟩), ("y", ⟨"v", some "n"⟩)]) rfl,
    .add "v" (machine "n" "v" (.refuse ["x"] "worn out" 0) [("x", ⟨"v", none⟩)]) rfl,
    .add "w" (machine "m" "w" (.pass ["x"]) [("x", ⟨"z", some "k"⟩)]) rfl,
    .add "z" (machine "k" "z" (.hold []) []) rfl,
    .deliver [answer 1, answer 2] ⟨"v", some "m"⟩,
    .deliver [answer 3] ⟨"w", some "m"⟩]

theorem steady_sidings : ∀ d m, (sidings.foldl after Ledger.bareFactory).machine? d = some m →
    Stage.Steady m.stage := by
  intro d m there
  have places : (sidings.foldl after Ledger.bareFactory).places =
      [⟨"v", some "m"⟩, ⟨"v", some "n"⟩, ⟨"w", some "m"⟩, ⟨"z", some "k"⟩] := by decide +kernel
  have member := (mem_places_of_machine? there).2
  rw [places] at member
  simp only [List.mem_cons, List.not_mem_nil, or_false] at member
  rcases member with rfl | rfl | rfl | rfl <;> obtain rfl := Option.some.inj there
  · exact CustomStage.steady_split ["x", "y"] 1
  · exact CustomStage.steady_refuse ["x"] "worn out" 0
  · exact CustomStage.steady_pass ["x"]
  · exact CustomStage.steady_hold []

/-- The workstations have no route to each other, and both to the third one. The first fails in either
order with the same error, and its answer and that of the second come to the third as they run. -/
theorem runWorkstation_comm_sidings :
    let f := sidings.foldl after Ledger.bareFactory
    let vw := (f.runWorkstation ⟨4, .epoch⟩ "v").factory.runWorkstation ⟨5, .epoch⟩ "w"
    let wv := (f.runWorkstation ⟨6, .epoch⟩ "w").factory.runWorkstation ⟨7, .epoch⟩ "v"
    let ids := fun (f : Factory CustomStage) d => (f.contents d).map (·.id.bits)
    f.validate = .ok () ∧ wv.outcome = .error (.stage (.failed "worn out")) ∧
      (f.runWorkstation ⟨4, .epoch⟩ "v").outcome = wv.outcome ∧
      ids vw.factory ⟨"z", some "k"⟩ = [1, 3] ∧ ids wv.factory ⟨"z", some "k"⟩ = [3, 1] ∧
      ∀ d, (vw.factory.contents d).Perm (wv.factory.contents d) ∧
        (¬(d ∈ f.targets "v" ∧ d ∈ f.targets "w") → vw.factory.contents d = wv.factory.contents d) := by
  intro f vw wv ids
  have valid : f.validate = .ok () := by decide +kernel
  obtain ⟨first, _, _, _, same⟩ := runWorkstation_comm
    ⟨Ledger.bareFactory, sidings, rfl, rfl⟩ valid steady_sidings (a := "v") (b := "w")
    (by decide +kernel) (by decide +kernel) (by decide) (by decide +kernel) (by decide +kernel)
    ⟨4, .epoch⟩ ⟨5, .epoch⟩ ⟨6, .epoch⟩ ⟨7, .epoch⟩
  exact ⟨valid, by decide +kernel, first, by decide +kernel, by decide +kernel, same⟩

end Factory

end Evolution
