import Evolution.Proofs.Factory.Books

/-! Counters against the flow. In a factory with built-in stages whose routes are fixed before it
works, what waits at a destination, was taken in there or was taken away is what was delivered there or
counted as sent there, after any calls and however they end. -/

namespace Evolution

/-- The machine has a built-in stage and has not run yet. -/
def Machine.Unused (m : Machine Work) : Prop :=
  m.stats = {} ∧ ∃ path, m.stage.passing? = some path

theorem Machine.Unused.counts_nothing {m : Machine Work} (h : m.Unused) :
    m.PassesOn ∧ m.stats.runs = 0 ∧ m.stats.received = 0 ∧ ∀ d, m.sentTo d = 0 := by
  obtain ⟨fresh, path, passing⟩ := h
  refine ⟨⟨path, passing, ?_⟩, ?_, ?_, fun d => ?_⟩
  · rw [fresh]
    rfl
  · rw [fresh]
  · rw [fresh]
  · rw [Machine.sentTo, fresh]
    have none : ∀ path, ({} : MachineStats).emittedOn path = 0 := fun _ => rfl
    simp [none]

namespace Workstation

variable {w w' : Workstation Work}

/-- Nothing waits here, and no machine has run yet. -/
structure Unused (w : Workstation Work) : Prop where
  empty : ∀ t, w.contents t = []
  machines : ∀ name m, w.machines.get? name = some m → m.Unused

theorem unused_new (station : String) : (Workstation.new station : Workstation Work).Unused := by
  constructor
  · rintro (_ | _) <;> rfl
  · intro name m found
    cases found

theorem Unused.add (h : w.Unused) {m : Machine Work} (fresh : m.Unused) (added : w.add m = .ok w') :
    w'.Unused := by
  unfold Workstation.add at added
  split at added
  · cases added
  · obtain rfl := Except.ok.inj added
    constructor
    · rintro (_ | other)
      · exact h.empty none
      · have before := h.empty (some other)
        simp only [contents, queue, Table.get?_insert] at before ⊢
        split
        · rfl
        · exact before
    · intro name m' found
      rw [Table.get?_insert] at found
      split at found
      · exact Option.some.inj found ▸ fresh
      · exact h.machines name m' found

theorem Unused.setPath (h : w.Unused) {machine path : String} {d : Destination}
    (changed : w.setPath machine path d = .ok w') : w'.Unused := by
  obtain ⟨m, named, made⟩ := bind_eq_ok_iff.mp changed
  obtain rfl := Except.ok.inj made
  refine ⟨h.empty, fun name m' found => ?_⟩
  rw [Table.get?_insert] at found
  split at found
  · obtain rfl := Option.some.inj found
    exact h.machines machine m (machine_eq_ok_iff.mp named)
  · exact h.machines name m' found

end Workstation

namespace Factory

variable {f : Factory Work} {before gone : Destination → Nat} {turns : List (Turn Work)}

/-- Nothing waits anywhere, and no machine has run yet. -/
def Unused (f : Factory Work) : Prop :=
  ∀ station w, f.workstations.get? station = some w → w.Unused

theorem Unused.modify (h : f.Unused)
    {change : Workstation Work → Except ConfigurationError (Workstation Work)}
    (keeps : ∀ w w' : Workstation Work, w.Unused → change w = .ok w' → w'.Unused) (station : String) :
    ((f.modify station change).toOption.getD f).Unused := by
  cases changed : f.modify station change with
  | error cause => exact h
  | ok f' =>
    obtain ⟨w, w', found, made, rfl⟩ := modify_eq_ok_iff.mp changed
    exact forall_put h (keeps w w' (h station w found) made)

/-- The call builds the factory: it adds workstations, new machines with built-in stages, and routes. -/
def Call.Wires : Call Work → Prop
  | .build _ | .setPath .. => True
  | .add _ m _ => m.Unused
  | _ => False

theorem Unused.after (h : f.Unused) {c : Call Work} (wires : c.Wires) : (f.after c).Unused := by
  cases c with
  | build station =>
    rw [Factory.after, Factory.build]
    split
    · exact h
    · exact forall_put h (Workstation.unused_new station)
  | add station m _ => exact h.modify (fun _ _ fresh added => fresh.add wires added) station
  | setPath station machine path d =>
    exact h.modify (fun _ _ fresh changed => fresh.setPath changed) station
  | deliver | run | cycle | dump | takeInbox => cases wires

theorem Unused.foldl (h : f.Unused) {calls : List (Call Work)} (wires : ∀ c ∈ calls, c.Wires) :
    (calls.foldl Factory.after f).Unused := by
  induction calls generalizing f with
  | nil => exact h
  | cons c rest ih =>
    obtain ⟨first, wires⟩ := List.forall_mem_cons.mp wires
    exact ih (h.after first) wires

/-- The books of a factory that has not worked yet are empty. -/
theorem Unused.books (h : f.Unused) : f.floor.Books f.places (fun _ => 0) (fun _ => 0) [] := by
  have new : ∀ d m, f.machine? d = some m → m.Unused := by
    intro d m found
    obtain ⟨w, name, there, _, found⟩ := machine?_eq_some_iff.mp found
    exact (h d.workstation w there).machines name m found
  constructor
  · intro d
    have empty : f.contents d = [] := by
      unfold Factory.contents
      split
      · rfl
      · next w found => exact (h d.workstation w found).empty d.machine
    have received : f.floor.received d = 0 := by
      change (f.machine? d).elim 0 _ = 0
      cases found : f.machine? d with
      | none => rfl
      | some m => exact (new d m found).counts_nothing.2.2.1
    have inflow : f.floor.inflow f.places d = 0 := by
      refine List.sum_eq_zero (List.forall_mem_map.mpr fun place _ => ?_)
      change (f.machine? place).elim 0 _ = 0
      cases found : f.machine? place with
      | none => rfl
      | some m => exact (new place m found).counts_nothing.2.2.2 d
    change (f.contents d).length + _ + 0 = 0 + _
    rw [empty, received, inflow]
    rfl
  · intro d m found
    obtain ⟨passes, runs, _⟩ := (new d m found).counts_nothing
    exact ⟨passes, runs⟩

/-- The number of answers that a call delivers to a destination. -/
def deliveredTo (f : Factory Work) (d : Destination) : Call Work → Nat
  | .deliver answers e =>
    if (f.deliver answers e).toOption.isSome ∧ e = d then answers.length else 0
  | _ => 0

def takenFrom (f : Factory Work) (d : Destination) : Call Work → Nat
  | .dump station machine =>
    match f.workstations.get? station with
    | none => 0
    | some w => if d = ⟨station, some machine⟩ then (w.dump machine).1.length else 0
  | .takeInbox station =>
    match f.workstations.get? station with
    | none => 0
    | some w => if d = ⟨station, none⟩ then w.takeInbox.1.length else 0
  | _ => 0

/-- The call lets the factory work, and changes neither machines nor routes. -/
def Call.Operates {σ : Type} : Call σ → Prop
  | .deliver .. | .run .. | .cycle .. | .dump .. | .takeInbox .. => True
  | _ => False

/-- In a factory with built-in stages every stage emits on its declared paths. -/
theorem Sound.declared_of_books (h : f.Sound) {places stops : List Destination}
    (books : f.floor.Books places before gone turns) (once : stops.Nodup) {supply : Supply}
    {t : Turn Work} (there : t ∈ (f.floor.shift supply stops).turns) :
    ∀ c ∈ t.stageCalls, c.Declared := by
  obtain ⟨before, later, split⟩ := List.append_of_mem there
  obtain ⟨found, _⟩ := Floor.shift_turn once split
  obtain ⟨path, passing, _⟩ := (books.machines t.place t.machine found).1
  intro c called
  obtain rfl : c = t.call := Machine.eq_call_of_mem (h.idle found) called
  exact (StageCall.passes passing).2.1

theorem Sound.books_of_matches (h : f.Sound)
    (books : f.floor.Books f.places before gone turns) {run : FactoryRun Work}
    {runTurns : List (Turn Work)} {supply : Supply} {stops : List Destination} (once : stops.Nodup)
    (within : ∀ d ∈ stops, d ∈ f.places) (wired : ∀ d ∈ stops, f.Wired d)
    (same : Matches run runTurns (f.floor.shift supply stops)) :
    run.factory.floor.Books f.places before gone (turns ++ runTurns) ∧
      runTurns.flatMap Turn.stageCalls = runTurns.map Turn.call := by
  rw [same.floor, same.turns]
  constructor
  · exact books.shift f.nodup_places once within fun d member m found =>
      ⟨h.idle found, wired d member m found⟩
  · rw [List.map_eq_flatMap]
    exact List.flatMap_congr fun t there =>
      (h.turn_of_wired once wired there (h.declared_of_books books once there)).1

/-- Answers are taken from one destination, and nothing else changes. -/
theorem Sound.books_of_take (h : f.Sound) (books : f.floor.Books f.places before gone turns)
    {station : String} {w w' : Workstation Work} (found : f.workstations.get? station = some w)
    (name : w'.name = w.name) (machines : w'.machines = w.machines) {e : Destination}
    (here : e.workstation = station)
    (contents : ∀ t, w'.contents t = if t = e.machine then [] else w.contents t) :
    (f.put station w').floor.Books (f.put station w').places before
      (fun d => gone d + if d = e then (w.contents e.machine).length else 0) turns := by
  have named := h.named station w found
  -- The workstation differs from the old one in what waits at `e` only.
  have emptied : (f.put station w').floor =
      ⟨f.floor.machine?, Function.update f.floor.contents e []⟩ := by
    rw [floor_put (name.trans named), ← withStation_floor found named]
    ext d answer
    · simp only [Floor.withStation, name, machines]
      split <;> rfl
    · simp only [Floor.withStation, name, contents, Function.update_apply, Destination.eq_iff, here,
        named, ite_and]
      split <;> rfl
  have waiting : f.floor.contents e = w.contents e.machine := by
    simp only [floor, Factory.contents, here, found]
  rw [emptied, (alike_put found (congrArg Table.names machines)).places, ← waiting]
  exact books.take e

theorem Sound.books_run (h : f.Sound) (books : f.floor.Books f.places before gone turns)
    (supply : Supply) (station : String) :
    let c := Call.run supply station
    (f.after c).floor.Books (f.after c).places before gone (turns ++ f.turns c) ∧
      (f.turns c).flatMap Turn.stageCalls = (f.turns c).map Turn.call := by
  dsimp only
  cases checked : f.workstation station >>= f.checkWorkstation with
  | error cause =>
    have quiet : f.turns (.run supply station) = [] := by
      simp [Factory.turns, Factory.runs, checked]
    have now : f.after (.run supply station) = f := by
      simp only [Factory.after, Factory.runWorkstation, checked]
    rw [quiet, List.append_nil, now]
    exact ⟨books, rfl⟩
  | ok _ =>
    obtain ⟨w, named, passed⟩ := bind_eq_ok_iff.mp checked
    have found := workstation_eq_ok_iff.mp named
    have once := f.nodup_placesOf station
    have within : ∀ d ∈ f.placesOf station, d ∈ f.places := fun d member =>
      List.mem_flatMap.mpr ⟨station, Table.contains_iff.mp (Table.contains_of_get? found), member⟩
    have wired := (checkWorkstation_eq_ok_iff found).mp passed
    have same : Matches (f.runWorkstation supply station) (f.turns (.run supply station))
        (f.floor.shift supply (f.placesOf station)) :=
      h.run_matches checked fun t _ taken => h.declared_of_books books once taken
    have alike : f.Alike (f.after (.run supply station)) := by
      rw [Factory.after, runWorkstation, checked]
      exact (h.runChecked supply station).2
    rw [alike.places]
    exact h.books_of_matches books once within wired same

theorem Sound.books_cycle (h : f.Sound) (books : f.floor.Books f.places before gone turns)
    (supply : Supply) :
    let c := Call.cycle supply
    (f.after c).floor.Books (f.after c).places before gone (turns ++ f.turns c) ∧
      (f.turns c).flatMap Turn.stageCalls = (f.turns c).map Turn.call := by
  dsimp only
  cases valid : f.validate with
  | error cause =>
    have quiet : f.turns (.cycle supply) = [] := by
      simp [Factory.turns, Factory.runs, valid]
    have now : f.after (.cycle supply) = f := by
      simp only [Factory.after, Factory.cycle, valid]
    rw [quiet, List.append_nil, now]
    exact ⟨books, rfl⟩
  | ok _ =>
    have once := f.nodup_places
    have same : Matches (f.cycle supply) (f.turns (.cycle supply))
        (f.floor.shift supply f.places) :=
      h.cycle_matches valid fun t _ taken => h.declared_of_books books once taken
    have alike : f.Alike (f.after (.cycle supply)) := by
      rw [Factory.after, Factory.cycle, valid]
      exact (h.runEach supply _).2
    rw [alike.places]
    exact h.books_of_matches books once (fun _ => id) (validate_eq_ok_iff.mp valid) same

theorem Sound.books_deliver (h : f.Sound) (books : f.floor.Books f.places before gone turns)
    (answers : List Answer) (e : Destination) :
    let c := Call.deliver answers e
    (f.after c).floor.Books (f.after c).places (fun d => before d + f.deliveredTo d c) gone turns := by
  dsimp only
  cases made : f.deliver answers e with
  | error cause => simpa [Factory.after, deliveredTo, made, Except.toOption] using books
  | ok f' =>
    have now : f.after (.deliver answers e) = f' := by
      simp [Factory.after, made, Except.toOption]
    obtain ⟨_, alike, floor⟩ := h.deliver (d := ⟨"", e, answers⟩) made
    rw [now, floor, alike.places]
    simpa [deliveredTo, made, Except.toOption, apply_ite List.length] using
      books.deliver [⟨"", e, answers⟩]

theorem Sound.books_dump (h : f.Sound) (books : f.floor.Books f.places before gone turns)
    (station machine : String) :
    let c := Call.dump station machine
    (f.after c).floor.Books (f.after c).places before (fun d => gone d + f.takenFrom d c) turns := by
  simp only [Factory.after, takenFrom]
  cases found : f.workstations.get? station with
  | none => simpa using books
  | some w =>
    have emptied := h.books_of_take books found (Workstation.name_setQueue machine [])
      (Workstation.machines_setQueue machine []) (e := ⟨station, some machine⟩) rfl
      (w.contents_setQueue_nil machine)
    exact emptied

theorem Sound.books_takeInbox (h : f.Sound) (books : f.floor.Books f.places before gone turns)
    (station : String) :
    let c := Call.takeInbox station
    (f.after c).floor.Books (f.after c).places before (fun d => gone d + f.takenFrom d c) turns := by
  simp only [Factory.after, takenFrom]
  cases found : f.workstations.get? station with
  | none => simpa using books
  | some w =>
    have kept : w.takeInbox.2.name = w.name := rfl
    refine h.books_of_take books found kept rfl (e := ⟨station, none⟩) rfl ?_
    rintro (_ | _) <;> rfl

/-- The books stay right over every call that lets the factory work, also one that fails. -/
theorem Sound.books_after (h : f.Sound) (books : f.floor.Books f.places before gone turns)
    {c : Call Work} (operates : c.Operates) :
    (f.after c).floor.Books (f.after c).places (fun d => before d + f.deliveredTo d c)
        (fun d => gone d + f.takenFrom d c) (turns ++ f.turns c) ∧
      f.stageCalls c = (f.turns c).map Turn.call := by
  rw [f.stageCalls_eq_flatMap]
  cases c with
  | build | add | setPath => cases operates
  | run supply station => exact h.books_run books supply station
  | cycle supply => exact h.books_cycle books supply
  | deliver answers d =>
    have quiet : f.turns (.deliver answers d) = [] := rfl
    rw [quiet, List.append_nil]
    exact ⟨h.books_deliver books answers d, rfl⟩
  | dump station machine =>
    have quiet : f.turns (.dump station machine) = [] := rfl
    rw [quiet, List.append_nil]
    exact ⟨h.books_dump books station machine, rfl⟩
  | takeInbox station =>
    have quiet : f.turns (.takeInbox station) = [] := rfl
    rw [quiet, List.append_nil]
    exact ⟨h.books_takeInbox books station, rfl⟩

/-- The calls, each with the factory that it comes to. -/
def visits {σ : Type} [Stage σ] (f : Factory σ) : List (Call σ) → List (Factory σ × Call σ)
  | [] => []
  | c :: rest => (f, c) :: (f.after c).visits rest

def delivered (f : Factory Work) (calls : List (Call Work)) (d : Destination) : Nat :=
  ((f.visits calls).map fun (g, c) => g.deliveredTo d c).sum

def taken (f : Factory Work) (calls : List (Call Work)) (d : Destination) : Nat :=
  ((f.visits calls).map fun (g, c) => g.takenFrom d c).sum

def allTurns {σ : Type} [Stage σ] (f : Factory σ) (calls : List (Call σ)) : List (Turn σ) :=
  (f.visits calls).flatMap fun (g, c) => g.turns c

theorem Sound.books_foldl (h : f.Sound) (books : f.floor.Books f.places before gone turns)
    {calls : List (Call Work)} (operates : ∀ c ∈ calls, c.Operates) :
    let g := calls.foldl Factory.after f
    g.floor.Books g.places (fun d => before d + f.delivered calls d)
        (fun d => gone d + f.taken calls d) (turns ++ f.allTurns calls) ∧
      ((f.visits calls).flatMap fun (g, c) => g.stageCalls c) = (f.allTurns calls).map Turn.call := by
  induction calls generalizing f before gone turns with
  | nil => simpa [delivered, taken, allTurns, visits] using books
  | cons c rest ih =>
    obtain ⟨first, operates⟩ := List.forall_mem_cons.mp operates
    obtain ⟨now, called⟩ := h.books_after books first
    obtain ⟨later, calls⟩ := ih (h.after c) now operates
    simp only [delivered, taken, allTurns, visits, List.map_cons, List.sum_cons, List.flatMap_cons,
      List.map_append, List.foldl_cons, List.append_assoc, Nat.add_assoc] at later calls ⊢
    exact ⟨later, congrArg₂ (· ++ ·) called calls⟩

/-- The counters of a factory agree with the flow when calls have been made. -/
structure Agrees (f : Factory Work) (calls : List (Call Work)) : Prop where
  /-- What waits for a machine or in an inbox, was taken in there or was taken away is what was
  delivered there and what the machines count as sent there. -/
  flow : ∀ d,
    let g := calls.foldl after f
    (g.contents d).length + (g.machine? d).elim 0 (·.stats.received) + f.taken calls d =
      f.delivered calls d + (g.places.map fun place => (g.machine? place).elim 0 (·.sentTo d)).sum
  /-- Breeding has passed on as many answers as it took in, and evaluation has scored as many. -/
  passes : ∀ d m, (calls.foldl after f).machine? d = some m →
    match m.stage with
    | .breeding _ => m.stats.emittedOn Stage.parentsPath = m.stats.received
    | .evaluation _ => m.stats.emittedOn Stage.scoredPath = m.stats.received
    | .custom _ => False
  /-- The runs that a machine counts are the calls of its stage that succeeded. -/
  runs : ∀ d m, (calls.foldl after f).machine? d = some m →
    m.stats.runs = (f.allTurns calls).countP fun t => t.place = d ∧ t.call.run.outcome.isOk
  /-- Every turn calls the stage of its machine once, and no other stage is called. -/
  stageCalls : ((f.visits calls).flatMap fun (g, c) => g.stageCalls c) =
    (f.allTurns calls).map Turn.call

/-- Counters agree with the flow. A factory is built of breeding and evaluation, and then answers are
delivered, workstations and cycles run and answers taken out, in any order and with any outcome. -/
theorem agrees_of_operates {bare : Factory Work} (none : bare.workstations = .empty)
    {wiring calls : List (Call Work)} (wires : ∀ c ∈ wiring, c.Wires)
    (operates : ∀ c ∈ calls, c.Operates) : (wiring.foldl after bare).Agrees calls := by
  have sound : (wiring.foldl after bare).Sound := Reachable.sound ⟨bare, wiring, none, rfl⟩
  have start : bare.Unused := by
    intro station w found
    rw [none] at found
    cases found
  obtain ⟨books, called⟩ := sound.books_foldl (start.foldl wires).books operates
  simp only [Nat.zero_add] at books
  refine ⟨books.flow, fun d m found => ?_, fun d m found => (books.machines d m found).2, called⟩
  exact (books.machines d m found).1.emittedOn_eq

/-- Breeding sends its parents to an evaluation and its children to another one, which has no cases
and fails. What is scored goes to the inbox. -/
def mill : List (Call Work) :=
  let evaluator : Evaluator := ⟨{ label := "error" }, by decide, .builtin, .builtin, .empty, .empty⟩
  [.build "v", .build "w",
    .add "v" (.new "b" "v" (.breeding ⟨.resampleAndClone, some 2, {}, ⟨fun _ => 0, 0⟩, 0, 2⟩) {}) rfl,
    .add "w" (.new "e" "w" (.evaluation ⟨evaluator, [⟨.empty, .empty, .empty⟩]⟩) {}) rfl,
    .add "w" (.new "n" "w" (.evaluation ⟨evaluator, []⟩) {}) rfl,
    .setPath "v" "b" "parents" ⟨"w", some "e"⟩, .setPath "v" "b" "created" ⟨"w", some "n"⟩,
    .setPath "w" "e" "scored" ⟨"w", none⟩, .setPath "w" "n" "scored" ⟨"w", none⟩]

/-- The cycle fails at the last machine; what waits for that is taken away. -/
def milling : List (Call Work) :=
  let answer := fun n => Answer.new ⟨n⟩ .epoch .empty
  [.deliver [answer 1, answer 2] ⟨"v", some "b"⟩, .deliver [answer 3] ⟨"x", none⟩,
    .cycle ⟨4, .epoch⟩, .dump "w" "n", .deliver [answer 3] ⟨"v", some "b"⟩, .run ⟨6, .epoch⟩ "v"]

theorem agrees_of_operates_mill :
    let f := mill.foldl after ⟨{}, .builtin, .builtin, .empty⟩
    let g := milling.foldl after f
    let n : Destination := ⟨"w", some "n"⟩
    (g.contents n).length = 2 ∧ f.taken milling n = 2 ∧ f.delivered milling n = 0 ∧
      (f.allTurns milling).length = 4 ∧ (g.machine? n).map (·.stats.runs) = some 0 ∧
      f.Agrees milling := by
  intro f g n
  have wires : ∀ c ∈ mill, c.Wires := by
    simp [mill, Call.Wires, Machine.Unused, Machine.new, Work.passing?]
  have operates : ∀ c ∈ milling, c.Operates := by
    simp [milling, Call.Operates]
  refine ⟨by decide +kernel, by decide +kernel, by decide +kernel, by decide +kernel,
    by decide +kernel, ?_⟩
  exact agrees_of_operates rfl wires operates

end Factory

end Evolution
