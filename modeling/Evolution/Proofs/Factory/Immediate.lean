import Evolution.Proofs.Factory.Floor
import Evolution.Proofs.Factory.Routing

/-! Deferred and immediate deliveries. A workstation queues at once what is addressed to itself and
keeps back the rest until its run ends. As what it keeps back is addressed elsewhere, no machine of
the run sees the difference: the run is a shift on the floor where every delivery is made at once,
with what was kept back delivered at the end. -/

namespace Evolution

open Delivery (addressed)

namespace Workstation

variable {σ : Type} {w w' : Workstation σ}

def contents (w : Workstation σ) : Option String → List Answer
  | none => w.inbox
  | some machine => w.queue machine

def place (w : Workstation σ) (machine : String) : Destination := ⟨w.name, some machine⟩

def turn? (w : Workstation σ) (supply : Supply) (name : String) : Option (Turn σ) :=
  (w.machines.get? name).map (⟨w.place name, ·, supply, w.queue name⟩)

theorem isLocal_eq (station : w'.name = w.name) (machines : w'.machines.names = w.machines.names)
    (d : Destination) : w'.isLocal d = w.isLocal d := by
  simp only [isLocal, hasMachine, Table.contains, station, machines]

theorem ne_place {name : String} (here : w.hasMachine name = true) {d : Destination}
    (outside : w.isLocal d = false) : d ≠ w.place name := by
  rintro rfl
  simp [isLocal, place, here] at outside

theorem contents_receive {answers : List Answer} {target : Option String}
    (received : w.receive answers target = .ok w') :
    w'.name = w.name ∧ w'.machines = w.machines ∧
      ∀ t, w'.contents t = w.contents t ++ if target = t then answers else [] := by
  cases target with
  | none =>
    obtain rfl := Except.ok.inj received
    refine ⟨rfl, rfl, fun t => ?_⟩
    cases t <;> simp [contents, queue]
  | some machine =>
    unfold receive at received
    cases found : w.queues.get? machine with
    | none => simp [found] at received
    | some old =>
      simp only [found] at received
      obtain rfl := Except.ok.inj received
      refine ⟨rfl, rfl, fun t => ?_⟩
      cases t with
      | none => simp [contents]
      | some other =>
        by_cases same : other = machine
        · subst same
          simp [contents, queue, Table.get?_insert, found]
        · simp [contents, queue, Table.get?_insert, same, Ne.symm same]

theorem name_setQueue (machine : String) (queue : List Answer) :
    (w.setQueue machine queue).name = w.name := by
  unfold setQueue
  split <;> rfl

theorem name_add {m : Machine σ} (added : w.add m = .ok w') : w'.name = w.name := by
  unfold add at added
  split at added
  · cases added
  · obtain rfl := Except.ok.inj added
    rfl

theorem name_setPath {machine path : String} {d : Destination}
    (changed : w.setPath machine path d = .ok w') : w'.name = w.name := by
  obtain ⟨m, _, made⟩ := bind_eq_ok_iff.mp changed
  obtain rfl := Except.ok.inj made
  rfl

theorem contents_setQueue {machine : String} (filed : w.queues.contains machine = true)
    (queue : List Answer) (t : Option String) :
    (w.setQueue machine queue).contents t = if t = some machine then queue else w.contents t := by
  rw [setQueue, if_pos filed]
  cases t with
  | none => simp [contents]
  | some other => by_cases same : other = machine <;> simp [contents, Workstation.queue,
      Table.get?_insert, same]

theorem contents_setQueue_nil (w : Workstation σ) (machine : String) (t : Option String) :
    (w.setQueue machine []).contents t = if t = some machine then [] else w.contents t := by
  by_cases filed : w.queues.contains machine = true
  · exact contents_setQueue filed [] t
  · have absent := Table.get?_eq_none (Bool.eq_false_iff.mpr filed)
    rw [setQueue, if_neg filed]
    split
    · next here => simp [here, contents, queue, absent]
    · rfl

/-- What a machine that is taken back leaves behind, its queue having been emptied. -/
theorem contents_conclude (good : w.Consistent) {name : String}
    (filed : w.hasMachine name = true) (empty : w.queue name = []) (run : MachineRun σ) :
    (w.conclude name run).workstation.name = w.name ∧
      (w.conclude name run).workstation.machines = w.machines.insert name run.machine ∧
      ∀ t, (w.conclude name run).workstation.contents t =
        if t = some name then run.kept else w.contents t := by
  let taken : Workstation σ := { w with machines := w.machines.insert name run.machine }
  have same : ∀ t, taken.contents t = w.contents t := by
    rintro (_ | _) <;> rfl
  unfold conclude MachineRun.kept
  cases run.outcome with
  | ok deliveries =>
    refine ⟨rfl, rfl, fun t => (same t).trans ?_⟩
    split
    · next here => rw [here, contents, empty]
    · rfl
  | error cause =>
    have queue : taken.queues.contains name = true := (good.contains name).trans filed
    refine ⟨name_setQueue name _, machines_setQueue name _, fun t => ?_⟩
    refine (contents_setQueue queue _ t).trans ?_
    rw [same, show taken.queue name = [] from empty, List.append_nil]

end Workstation

namespace Floor

variable {σ : Type} {s : Floor σ} {w w' : Workstation σ}

/-- The floor with a workstation in the place of the one with its name. -/
def withStation (s : Floor σ) (w : Workstation σ) : Floor σ where
  machine? d := if d.workstation = w.name then d.machine.bind w.machines.get? else s.machine? d
  contents d := if d.workstation = w.name then w.contents d.machine else s.contents d

/-- A delivery to one destination and others to other destinations, in either order. -/
theorem deliver_append_cons {ds : List Delivery} {d : Delivery}
    (away : ∀ e ∈ ds, e.destination ≠ d.destination) (rest : List Delivery) :
    s.deliver (ds ++ d :: rest) = (s.deliver [d]).deliver (ds ++ rest) := by
  rw [← deliver_append]
  have swap : ∀ e, addressed e (ds ++ d :: rest) = addressed e ([d] ++ (ds ++ rest)) := by
    intro e
    by_cases here : d.destination = e
    · have none : addressed e ds = [] := Delivery.addressed_eq_nil (here ▸ away)
      simp [none]
    · simp [here]
  simp only [deliver, swap]

theorem withStation_receive (s : Floor σ) {d : Delivery}
    (here : d.destination.workstation = w.name)
    (received : w.receive d.answers d.destination.machine = .ok w') :
    s.withStation w' = (s.withStation w).deliver [d] := by
  obtain ⟨name, machines, contents⟩ := Workstation.contents_receive received
  have apart : ∀ e : Destination, d.destination = e ↔
      e.workstation = w.name ∧ d.destination.machine = e.machine := fun e => by
    rw [Destination.eq_iff, here, eq_comm (a := w.name)]
  ext e answer
  · simp only [withStation, deliver, name, machines]
  · simp only [withStation, deliver, name, contents, Delivery.addressed_cons, apart]
    split <;> simp [*]

/-- Settling is delivering, except that the rest is kept back together with what was before. -/
theorem withStation_settle (s : Floor σ) {ds others before : List Delivery}
    (settled : w.settle ds = (w', others, .ok ()))
    (far : ∀ e ∈ before, w.isLocal e.destination = false) :
    w'.name = w.name ∧
      (∀ e ∈ others, e ∈ ds ∧ w.isLocal e.destination = false) ∧
      (s.withStation w).deliver (before ++ ds) = (s.withStation w').deliver (before ++ others) := by
  -- A delivery that is kept back joins `before`, and one that is queued moves in front of it.
  induction ds generalizing w before others with
  | nil =>
    obtain ⟨rfl, rfl, _⟩ := settled
    simp
  | cons d rest ih =>
    rw [Workstation.settle] at settled
    split at settled
    · next here =>
      split at settled
      · next cause _ => simp at settled
      · next w₁ received =>
        obtain ⟨name, machines, _⟩ := Workstation.contents_receive received
        have same := Workstation.isLocal_eq name (congrArg Table.names machines)
        have station : d.destination.workstation = w.name := by
          rw [Workstation.isLocal] at here
          simpa using (Bool.and_eq_true_iff.mp here).1
        have away : ∀ e ∈ before, e.destination ≠ d.destination := by
          intro e member equal
          rw [← equal, far e member] at here
          cases here
        obtain ⟨name', kept, floor⟩ :=
          ih settled fun e member => (same _).trans (far e member)
        refine ⟨name'.trans name, ?_, ?_⟩
        · intro e member
          obtain ⟨among, outside⟩ := kept e member
          exact ⟨List.mem_cons_of_mem _ among, (same _).symm.trans outside⟩
        · rw [deliver_append_cons away, ← s.withStation_receive station received, floor]
    · next outside =>
      cases settled' : w.settle rest with
      | mk w₁ result =>
        obtain ⟨kept, outcome⟩ := result
        simp only [settled', Prod.mk.injEq] at settled
        obtain ⟨rfl, rfl, rfl⟩ := settled
        have further : ∀ e ∈ before ++ [d], w.isLocal e.destination = false := by
          simpa [or_imp, forall_and] using And.intro far (by simpa using outside)
        obtain ⟨name, sent, floor⟩ := ih settled' further
        refine ⟨name, ?_, ?_⟩
        · rw [List.forall_mem_cons]
          refine ⟨⟨List.mem_cons_self, by simpa using outside⟩, fun e member => ?_⟩
          obtain ⟨among, elsewhere⟩ := sent e member
          exact ⟨List.mem_cons_of_mem _ among, elsewhere⟩
        · rwa [List.append_assoc, List.append_assoc] at floor

/-- What is kept back makes no difference to the machines of the workstation. -/
theorem turn?_withStation (s : Floor σ) {before : List Delivery}
    (far : ∀ e ∈ before, w.isLocal e.destination = false) (supply : Supply) (name : String) :
    ((s.withStation w).deliver before).turn? supply (w.place name) = w.turn? supply name := by
  cases found : w.machines.get? name with
  | none => simp [turn?, deliver, withStation, Workstation.turn?, Workstation.place, found]
  | some m =>
    have none : addressed (w.place name) before = [] := Delivery.addressed_eq_nil fun e member =>
      Workstation.ne_place (Table.contains_of_get? found) (far e member)
    simpa [turn?, deliver, withStation, Workstation.turn?, Workstation.contents, Workstation.place,
      found] using none

variable [Stage σ]

theorem deliver_after {before : List Delivery} {t : Turn σ}
    (far : ∀ e ∈ before, e.destination ≠ t.place) :
    (s.deliver before).after t = (s.replace t).deliver (before ++ t.sent) := by
  have none : addressed t.place before = [] := Delivery.addressed_eq_nil far
  ext e answer
  · rfl
  · by_cases here : e = t.place
    · simp [after, replace, deliver, here, none]
    · simp [after, replace, deliver, here]

theorem withStation_replace (s : Floor σ) {t : Turn σ} {name : String}
    (place : t.place = w.place name) (station : w'.name = w.name)
    (machines : w'.machines = w.machines.insert name t.run.machine)
    (contents : ∀ x, w'.contents x = if x = some name then t.kept else w.contents x) :
    s.withStation w' = (s.withStation w).replace t := by
  have apart : ∀ e : Destination, e = t.place ↔ e.workstation = w.name ∧ e.machine = some name :=
    fun e => place ▸ Destination.eq_iff
  ext e answer
  · simp only [withStation, replace, Function.update_apply, apart, station, machines]
    by_cases here : e.workstation = w.name
    · cases e.machine <;> simp [here, Table.get?_insert]
    · simp [here]
  · simp only [withStation, replace, Function.update_apply, apart, station, contents]
    split <;> simp [*]

/-- The run of a machine within its workstation is a turn whose deliveries are still to be made. -/
theorem withStation_runMachine (s : Floor σ) (good : w.Consistent) {supply : Supply} {name : String}
    {t : Turn σ} (next : w.turn? supply name = some t) :
    (w.runMachine supply name).outcome = t.run.outcome ∧
      (w.runMachine supply name).supply = t.run.supply ∧
      (w.runMachine supply name).workstation.name = w.name ∧
      s.withStation (w.runMachine supply name).workstation = (s.withStation w).replace t := by
  obtain ⟨m, found, rfl⟩ := Option.map_eq_some_iff.mp next
  let t : Turn σ := ⟨w.place name, m, supply, w.queue name⟩
  have filed : w.queues.contains name = true :=
    (good.contains name).trans (Table.contains_of_get? found)
  let emptied := w.setQueue name []
  have queues := Workstation.contents_setQueue filed []
  have machines : emptied.machines = w.machines := Workstation.machines_setQueue name []
  have step : w.runMachine supply name = emptied.conclude name t.run := by
    rw [Workstation.runMachine, found]
    rfl
  have there : emptied.hasMachine name = true := by
    rw [Workstation.hasMachine, machines]
    exact Table.contains_of_get? found
  obtain ⟨station, machines', contents⟩ := Workstation.contents_conclude (good.setQueue name [])
    there ((queues (some name)).trans (if_pos rfl)) t.run
  have station' := station.trans (Workstation.name_setQueue name [])
  rw [step]
  refine ⟨?_, ?_, station', s.withStation_replace rfl station' ?_ fun x => ?_⟩
  · unfold Workstation.conclude
    split <;> simp [*, t]
  · unfold Workstation.conclude
    split <;> rfl
  · rw [machines', machines]
  · rw [contents, queues]
    split <;> rfl

end Floor

namespace Workstation

variable {σ : Type} [Stage σ] {w : Workstation σ}

def turns (w : Workstation σ) (supply : Supply) : List String → List (Turn σ)
  | [] => []
  | name :: rest =>
    let step := w.runMachine supply name
    (w.turn? supply name).toList ++
      match step.outcome with
      | .error _ => []
      | .ok deliveries =>
        match step.workstation.settle deliveries with
        | (_, _, .error _) => []
        | (w, _, .ok ()) => w.turns step.supply rest

theorem stageCalls_eq_flatMap (w : Workstation σ) (supply : Supply) (names : List String) :
    w.stageCalls supply names = (w.turns supply names).flatMap Turn.stageCalls := by
  induction names generalizing w supply with
  | nil => rfl
  | cons name rest ih =>
    have calls : w.machineCalls supply name =
        (w.turn? supply name).toList.flatMap Turn.stageCalls := by
      rw [machineCalls, turn?]
      cases w.machines.get? name with
      | none => rfl
      | some m => exact (List.append_nil _).symm
    rw [stageCalls, turns, calls, List.flatMap_append]
    congr 1
    cases (w.runMachine supply name).outcome with
    | error cause => rfl
    | ok deliveries =>
      simp only
      generalize (w.runMachine supply name).workstation.settle deliveries = settled
      obtain ⟨w', others, _ | _⟩ := settled
      · rfl
      · exact ih w' _

/-- After a turn that succeeds, settling leaves the workstation as if all deliveries were made, but for
those that it keeps back. -/
theorem Consistent.settle_runMachine (good : w.Consistent) (s : Floor σ) {supply : Supply}
    {name : String} {t : Turn σ} (next : w.turn? supply name = some t) {before : List Delivery}
    (far : ∀ e ∈ before, w.isLocal e.destination = false) :
    ∃ w' others,
      (w.runMachine supply name).workstation.settle t.sent = (w', others, .ok ()) ∧
        w'.Consistent ∧ w'.name = w.name ∧ w'.machines.names = w.machines.names ∧
        (∀ e ∈ others, e ∈ t.sent) ∧
        (∀ e ∈ before ++ others, w'.isLocal e.destination = false) ∧
        ((s.withStation w).deliver before).after t = (s.withStation w').deliver (before ++ others) := by
  obtain ⟨_, _, station, floor⟩ := s.withStation_runMachine good next
  obtain ⟨consistent, names⟩ := good.runMachine supply name
  obtain ⟨w', others, settled, consistent', machines, _⟩ := consistent.settle t.sent
  have same := isLocal_eq station names
  obtain ⟨station', kept, settling⟩ :=
    s.withStation_settle settled fun e member => (same _).trans (far e member)
  have names' := (congrArg Table.names machines).trans names
  refine ⟨w', others, settled, consistent', station'.trans station, names', fun e member =>
    (kept e member).1, fun e member => ?_, ?_⟩
  · rw [isLocal_eq (station'.trans station) names']
    rcases List.mem_append.mp member with member | member
    · exact far e member
    · exact (same _).symm.trans (kept e member).2
  · obtain ⟨m, found, rfl⟩ := Option.map_eq_some_iff.mp next
    rw [Floor.deliver_after fun e member => ne_place (Table.contains_of_get? found) (far e member),
      ← floor, settling]

/-- A run through machines is a shift, with what it sends out delivered at the end. -/
theorem Consistent.runEach_eq_shift (good : w.Consistent) (s : Floor σ) (supply : Supply)
    {names : List String} (known : ∀ name ∈ names, w.hasMachine name = true)
    {before : List Delivery} (far : ∀ e ∈ before, w.isLocal e.destination = false) :
    let run := w.runEach supply names
    let shift := ((s.withStation w).deliver before).shift supply (names.map w.place)
    run.workstation.name = w.name ∧ (∀ e ∈ run.outbound, ∃ t ∈ shift.turns, e ∈ t.sent) ∧
      w.turns supply names = shift.turns ∧
      shift.floor = (s.withStation run.workstation).deliver (before ++ run.outbound) ∧
      shift.supply = run.supply ∧ shift.outcome = run.outcome := by
  -- `before` is what was kept back so far. None of it is for a machine here, which carries the turns.
  induction names generalizing w supply before with
  | nil => simp [Workstation.runEach, Workstation.turns, Floor.shift]
  | cons name rest ih =>
    obtain ⟨here, known⟩ := List.forall_mem_cons.mp known
    obtain ⟨m, found⟩ := Table.exists_get?_of_contains here
    let t : Turn σ := ⟨w.place name, m, supply, w.queue name⟩
    have next : w.turn? supply name = some t := Option.map_eq_some_iff.mpr ⟨m, found, rfl⟩
    have next' := (s.turn?_withStation far supply name).trans next
    obtain ⟨outcome, later, station, floor⟩ := s.withStation_runMachine good next
    unfold Workstation.runEach Workstation.turns
    rw [List.map_cons, next]
    cases ended : t.run.outcome with
    | error cause =>
      have none : t.sent = [] := by rw [Turn.sent, MachineRun.sent, ended]
      have after : ((s.withStation w).deliver before).after t =
          (s.withStation (w.runMachine supply name).workstation).deliver before := by
        rw [Floor.deliver_after fun e member => ne_place here (far e member), ← floor, none,
          List.append_nil]
      rw [Floor.shift_of_error next' ended, after, ← later]
      simp only [outcome.trans ended]
      exact ⟨station, by simp, rfl, by simp, trivial, trivial⟩
    | ok deliveries =>
      have sent : t.sent = deliveries := by rw [Turn.sent, MachineRun.sent, ended]
      obtain ⟨w', others, settled, consistent, station', names, kept, far', after⟩ :=
        good.settle_runMachine s next far
      have place : w'.place = w.place := funext fun _ => by
        rw [Workstation.place, Workstation.place, station']
      have known' : ∀ name ∈ rest, w'.hasMachine name = true := by
        intro other member
        rw [hasMachine, Table.contains, names]
        exact known other member
      obtain ⟨station'', sends, turns, floor', later', outcome'⟩ :=
        ih consistent (w.runMachine supply name).supply known' far'
      rw [place] at sends turns floor' later' outcome'
      rw [sent] at settled
      rw [Floor.shift_of_ok next' ended, after, ← later]
      simp only [outcome.trans ended, settled, FloorRun.precededBy]
      refine ⟨station''.trans station', fun e member => ?_, congrArg (t :: ·) turns, ?_, later',
        outcome'⟩
      · rcases List.mem_append.mp member with member | member
        · exact ⟨t, List.mem_cons_self, kept e member⟩
        · obtain ⟨u, taken, sender⟩ := sends e member
          exact ⟨u, List.mem_cons_of_mem _ taken, sender⟩
      · rw [← List.append_assoc]
        exact floor'

end Workstation

end Evolution
