import Evolution.Proofs.Factory.Conservation
import Evolution.Proofs.Factory.Immediate

/-! Factories as floors. A factory that callers can come to files every workstation under its name,
with a queue for each machine and every machine at rest; and no run changes which workstations and
machines there are. -/

namespace Evolution

def StationCall.turns {σ : Type} [Stage σ] (c : StationCall σ) : List (Turn σ) :=
  match c.factory.workstations.get? c.name with
  | none => []
  | some w => w.turns c.supply w.machines.names

theorem StationCall.stageCalls_eq_flatMap {σ : Type} [Stage σ] (c : StationCall σ) :
    c.stageCalls = c.turns.flatMap Turn.stageCalls := by
  unfold StationCall.stageCalls StationCall.turns
  cases c.factory.workstations.get? c.name with
  | none => rfl
  | some w => exact w.stageCalls_eq_flatMap c.supply w.machines.names

namespace Factory

variable {σ : Type} {f f' g : Factory σ}

def machine? (f : Factory σ) (d : Destination) : Option (Machine σ) :=
  (f.workstations.get? d.workstation).bind fun w => d.machine.bind w.machines.get?

/-- What waits at a destination; nothing at one that does not exist. -/
def contents (f : Factory σ) (d : Destination) : List Answer :=
  match f.workstations.get? d.workstation with
  | none => []
  | some w => w.contents d.machine

def floor (f : Factory σ) : Floor σ := ⟨f.machine?, f.contents⟩

/-- The places of a workstation's machines, in the order in which they were built. -/
def placesOf (f : Factory σ) (station : String) : List Destination :=
  match f.workstations.get? station with
  | none => []
  | some w => w.machines.names.map fun machine => ⟨station, some machine⟩

/-- The places of all machines, in the order in which they and their workstations were built. -/
def places (f : Factory σ) : List Destination := f.workstations.names.flatMap f.placesOf

theorem machine?_eq_some_iff {d : Destination} {m : Machine σ} :
    f.machine? d = some m ↔ ∃ w name, f.workstations.get? d.workstation = some w ∧
      d.machine = some name ∧ w.machines.get? name = some m := by
  simp [machine?, Option.bind_eq_some_iff]

/-- Every workstation is filed under its name, with machines and queues that match. -/
structure Sound (f : Factory σ) : Prop where
  consistent : f.Consistent
  named : ∀ station w, f.workstations.get? station = some w → w.name = station

theorem sound_of_bare (none : f.workstations = .empty) : f.Sound := by
  have empty : ∀ station, f.workstations.get? station = Option.none := fun _ => none ▸ rfl
  constructor <;> simp [Factory.Consistent, empty]

/-- The same workstations have the same machines, in any condition. -/
structure Alike (f f' : Factory σ) : Prop where
  stations : f'.workstations.names = f.workstations.names
  machines : ∀ station, (f'.workstations.get? station).map (·.machines.names) =
    (f.workstations.get? station).map (·.machines.names)

theorem Alike.refl (f : Factory σ) : f.Alike f := ⟨rfl, fun _ => rfl⟩

theorem Alike.trans (first : f.Alike f') (second : f'.Alike g) : f.Alike g :=
  ⟨second.stations.trans first.stations,
    fun station => (second.machines station).trans (first.machines station)⟩

theorem alike_put {station : String} {w w' : Workstation σ}
    (found : f.workstations.get? station = some w)
    (machines : w'.machines.names = w.machines.names) : f.Alike (f.put station w') := by
  constructor
  · exact Table.names_insert_of_contains (Table.contains_of_get? found) w'
  · intro other
    rw [put, Table.get?_insert]
    split
    · next here => rw [here, found, Option.map_some, Option.map_some, machines]
    · rfl

theorem Alike.placesOf (h : f.Alike f') (station : String) :
    f'.placesOf station = f.placesOf station := by
  have same := h.machines station
  unfold Factory.placesOf
  cases there : f.workstations.get? station <;> cases there' : f'.workstations.get? station <;>
    simp_all

theorem Alike.places (h : f.Alike f') : f'.places = f.places := by
  rw [Factory.places, Factory.places, h.stations, funext h.placesOf]

theorem Alike.reaches (h : f.Alike f') (d : Destination) : f'.reaches d = f.reaches d := by
  have same := h.machines d.workstation
  unfold Factory.reaches
  cases there : f.workstations.get? d.workstation <;>
    cases there' : f'.workstations.get? d.workstation <;>
    simp_all [Workstation.hasMachine, Table.contains]

theorem floor_put {station : String} {w : Workstation σ} (named : w.name = station) :
    (f.put station w).floor = f.floor.withStation w := by
  subst named
  ext d answer
  · simp only [floor, machine?, put, Table.get?_insert, Floor.withStation]
    split <;> simp
  · simp only [floor, contents, put, Table.get?_insert, Floor.withStation]
    split <;> split <;> simp_all

theorem withStation_floor {station : String} {w : Workstation σ}
    (found : f.workstations.get? station = some w) (named : w.name = station) :
    f.floor.withStation w = f.floor := by
  subst named
  ext d answer
  · simp only [floor, machine?, Floor.withStation]
    split
    · next here => simp [here, found]
    · rfl
  · simp only [floor, contents, Floor.withStation]
    split
    · next here => simp [here, found]
    · rfl

theorem Sound.put (h : f.Sound) {station : String} {w : Workstation σ} (good : w.Consistent)
    (named : w.name = station) : (f.put station w).Sound :=
  ⟨forall_put h.consistent good, forall_put h.named named⟩

theorem Sound.deliver (h : f.Sound) {d : Delivery}
    (made : f.deliver d.answers d.destination = .ok f') :
    f'.Sound ∧ f.Alike f' ∧ f'.floor = f.floor.deliver [d] := by
  obtain ⟨w, w', found, received, rfl⟩ := modify_eq_ok_iff.mp made
  obtain ⟨name, machines, _⟩ := Workstation.contents_receive received
  have named := h.named _ w found
  have good := (h.consistent _ w found).of_receive received
  refine ⟨h.put good (name.trans named), alike_put found (congrArg Table.names machines), ?_⟩
  rw [floor_put (name.trans named), f.floor.withStation_receive named.symm received,
    withStation_floor found named]

theorem Sound.foldlM_deliver (h : f.Sound) {deliveries : List Delivery}
    (made : deliveries.foldlM (fun f d => f.deliver d.answers d.destination) f = .ok f') :
    f'.Sound ∧ f.Alike f' ∧ f'.floor = f.floor.deliver deliveries := by
  induction deliveries generalizing f with
  | nil =>
    obtain rfl := Except.ok.inj made
    exact ⟨h, .refl f, f.floor.deliver_nil.symm⟩
  | cons d rest ih =>
    rw [List.foldlM_cons] at made
    obtain ⟨g, first, made⟩ := bind_eq_ok_iff.mp made
    obtain ⟨sound, alike, floor⟩ := h.deliver first
    obtain ⟨sound', alike', floor'⟩ := ih sound made
    refine ⟨sound', alike.trans alike', ?_⟩
    rw [floor', floor, ← Floor.deliver_append, List.singleton_append]

theorem Sound.route (h : f.Sound) {deliveries : List Delivery}
    (made : f.route deliveries = .ok f') :
    f'.Sound ∧ f.Alike f' ∧ f'.floor = f.floor.deliver deliveries := by
  obtain ⟨_, _, made⟩ := bind_eq_ok_iff.mp made
  exact h.foldlM_deliver made

theorem Sound.exists_route (h : f.Sound) {deliveries : List Delivery}
    (all : ∀ d ∈ deliveries, f.reaches d.destination = true) :
    ∃ f', f.route deliveries = .ok f' := by
  obtain ⟨f', made, _⟩ := h.consistent.foldlM_deliver all
  exact ⟨f', by simp [Factory.route, forM_checkDestination_eq_ok_iff.mpr all, made, bind, Except.bind]⟩

theorem Sound.idle (h : f.Sound) {place : Destination} {m : Machine σ}
    (found : f.machine? place = some m) : m.state = .idle := by
  obtain ⟨w, name, there, _, found⟩ := machine?_eq_some_iff.mp found
  exact (h.consistent _ w there).idle name m found

theorem nodup_placesOf (f : Factory σ) (station : String) : (f.placesOf station).Nodup := by
  unfold placesOf
  split
  · exact List.nodup_nil
  · next w _ =>
    exact w.machines.distinct.map fun a b same => by simpa using same

theorem mem_placesOf_iff {d : Destination} {station : String} :
    d ∈ f.placesOf station ↔ d.workstation = station ∧ ∃ m, f.machine? d = some m := by
  unfold placesOf
  simp only [machine?_eq_some_iff]
  constructor
  · intro member
    split at member
    · cases member
    · next w found =>
      obtain ⟨name, filed, rfl⟩ := List.mem_map.mp member
      obtain ⟨m, there⟩ := Table.exists_get?_of_contains (Table.contains_iff.mpr filed)
      exact ⟨rfl, m, w, name, found, rfl, there⟩
  · obtain ⟨_, machine⟩ := d
    rintro ⟨rfl, m, w, name, found, rfl, there⟩
    rw [found]
    exact List.mem_map_of_mem (Table.contains_iff.mp (Table.contains_of_get? there))

theorem exists_machine?_of_mem_places {d : Destination} (member : d ∈ f.places) :
    ∃ m, f.machine? d = some m := by
  obtain ⟨_, _, there⟩ := List.mem_flatMap.mp member
  exact (mem_placesOf_iff.mp there).2

theorem mem_places_of_machine? {d : Destination} {m : Machine σ} (there : f.machine? d = some m) :
    d ∈ f.placesOf d.workstation ∧ d ∈ f.places := by
  obtain ⟨w, _, found, _⟩ := machine?_eq_some_iff.mp there
  have here : d ∈ f.placesOf d.workstation := mem_placesOf_iff.mpr ⟨rfl, m, there⟩
  exact ⟨here, List.mem_flatMap.mpr
    ⟨d.workstation, Table.contains_iff.mp (Table.contains_of_get? found), here⟩⟩

theorem nodup_places (f : Factory σ) : f.places.Nodup := by
  refine List.nodup_flatMap.mpr ⟨fun station _ => f.nodup_placesOf station, ?_⟩
  refine f.workstations.distinct.imp fun apart d here there => apart ?_
  exact (mem_placesOf_iff.mp here).1.symm.trans (mem_placesOf_iff.mp there).1

theorem Sound.modify (h : f.Sound)
    {change : Workstation σ → Except ConfigurationError (Workstation σ)}
    (keeps : ∀ w w' : Workstation σ, w.Consistent → change w = .ok w' →
      w'.Consistent ∧ w'.name = w.name) (station : String) :
    ((f.modify station change).toOption.getD f).Sound := by
  cases changed : f.modify station change with
  | error cause => exact h
  | ok f' =>
    obtain ⟨w, w', found, made, rfl⟩ := modify_eq_ok_iff.mp changed
    obtain ⟨good, name⟩ := keeps w w' (h.consistent station w found) made
    exact h.put good (name.trans (h.named station w found))

theorem Sound.build (h : f.Sound) (station : String) :
    ((f.build station).toOption.getD f).Sound := by
  unfold Factory.build
  split
  · exact h
  · exact h.put (Workstation.consistent_new station) rfl

variable [Stage σ]

def stageCalls (f : Factory σ) (c : Call σ) : List (StageCall σ) :=
  (f.runs c).flatMap StationCall.stageCalls

def turns (f : Factory σ) (c : Call σ) : List (Turn σ) := (f.runs c).flatMap StationCall.turns

theorem stageCalls_eq_flatMap (f : Factory σ) (c : Call σ) :
    f.stageCalls c = (f.turns c).flatMap Turn.stageCalls := by
  rw [stageCalls, turns, List.flatMap_assoc]
  exact List.flatMap_congr fun r _ => r.stageCalls_eq_flatMap

theorem Sound.run (h : f.Sound) {station : String} {w : Workstation σ}
    (found : f.workstations.get? station = some w) (supply : Supply) :
    let w' := (w.run supply).workstation
    (f.put station w').Sound ∧ f.Alike (f.put station w') ∧ w'.name = station := by
  have good := h.consistent station w found
  obtain ⟨consistent, machines⟩ := good.runEach supply w.machines.names
  have known : ∀ name ∈ w.machines.names, w.hasMachine name = true := fun _ => Table.contains_iff.mpr
  obtain ⟨name, _⟩ := good.runEach_eq_shift f.floor supply known (List.forall_mem_nil _)
  have named := name.trans (h.named station w found)
  exact ⟨h.put consistent named, alike_put found machines, named⟩

theorem Sound.runChecked (h : f.Sound) (supply : Supply) (station : String) :
    (f.runChecked supply station).factory.Sound ∧
      f.Alike (f.runChecked supply station).factory := by
  unfold Factory.runChecked workstation
  cases found : f.workstations.get? station with
  | none => exact ⟨h, .refl f⟩
  | some w =>
    obtain ⟨sound, alike, _⟩ := h.run found supply
    simp only
    cases routed : (f.put station (w.run supply).workstation).route (w.run supply).outbound with
    | error cause => exact ⟨sound, alike⟩
    | ok f' =>
      obtain ⟨sound', alike', _⟩ := sound.route routed
      exact ⟨sound', alike.trans alike'⟩

theorem Sound.runEach (h : f.Sound) (supply : Supply) (stations : List String) :
    (f.runEach supply stations).factory.Sound ∧ f.Alike (f.runEach supply stations).factory := by
  induction stations generalizing f supply with
  | nil => exact ⟨h, .refl f⟩
  | cons station rest ih =>
    obtain ⟨sound, alike⟩ := h.runChecked supply station
    rw [Factory.runEach]
    cases outcome : (f.runChecked supply station).outcome with
    | error cause => exact ⟨sound, alike⟩
    | ok _ =>
      obtain ⟨sound', alike'⟩ := ih sound (f.runChecked supply station).supply
      exact ⟨sound', alike.trans alike'⟩

/-- No call makes a factory unsound, whether it succeeds or fails and whatever the stages do. -/
theorem Sound.after (h : f.Sound) (c : Call σ) : (f.after c).Sound := by
  cases c with
  | build station => exact h.build station
  | add station m idle =>
    exact h.modify (fun _ _ good added => ⟨(good.add idle added).1, Workstation.name_add added⟩) station
  | setPath station machine path d =>
    exact h.modify (fun _ _ good changed =>
      ⟨(good.setPath changed).1, Workstation.name_setPath changed⟩) station
  | deliver answers d =>
    exact h.modify (fun _ _ good received =>
      ⟨good.of_receive received, (Workstation.contents_receive received).1⟩) d.workstation
  | run supply station =>
    rw [Factory.after, Factory.runWorkstation]
    split
    · exact h
    · exact (h.runChecked supply station).1
  | cycle supply =>
    rw [Factory.after, Factory.cycle]
    split
    · exact h
    · exact (h.runEach supply _).1
  | dump station machine =>
    rw [Factory.after]
    split
    · exact h
    · next w found =>
      exact h.put ((h.consistent station w found).setQueue machine [])
        ((Workstation.name_setQueue machine []).trans (h.named station w found))
  | takeInbox station =>
    rw [Factory.after]
    split
    · exact h
    · next w found =>
      have good := h.consistent station w found
      exact h.put ⟨good.queues, good.idle⟩ (h.named station w found)

/-- Callers can come to the factory, starting with one that has no workstations. -/
def Reachable (f : Factory σ) : Prop :=
  ∃ (bare : Factory σ) (calls : List (Call σ)),
    bare.workstations = .empty ∧ calls.foldl Factory.after bare = f

theorem Reachable.sound (h : f.Reachable) : f.Sound := by
  obtain ⟨bare, calls, none, rfl⟩ := h
  have start := sound_of_bare none
  clear none
  induction calls generalizing bare with
  | nil => exact start
  | cons c rest ih => exact ih _ (start.after c)

end Factory

end Evolution
