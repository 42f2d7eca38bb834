import Evolution.Factory.Custom
import Evolution.Proofs.Factory.Routing
import Mathlib.Data.List.Induction

/-! The balance of answers over any calls of a factory. Answers come in by deliveries and out of
stages, and go out when they are taken; the one other way out is a workstation's run whose deliveries
are refused because a destination is missing, which drops all of them. -/

namespace Evolution

open Answer (ids)

/-- A run of a workstation within a factory. -/
structure StationCall (σ : Type) where
  factory : Factory σ
  supply : Supply
  name : String

namespace StationCall

variable {σ : Type} [Stage σ]

/-- The calls of stages that the run makes. -/
def stageCalls (c : StationCall σ) : List (StageCall σ) :=
  match c.factory.workstations.get? c.name with
  | none => []
  | some w => w.stageCalls c.supply w.machines.names

/-- What the run sends to other workstations. -/
def outbound (c : StationCall σ) : List Delivery :=
  match c.factory.workstations.get? c.name with
  | none => []
  | some w => (w.run c.supply).outbound

/-- What the run sends out in vain. -/
def dropped (c : StationCall σ) : List Delivery := c.factory.undelivered c.outbound

end StationCall

namespace Factory

variable {σ : Type} [Stage σ] {f : Factory σ}

theorem Consistent.runChecked (h : f.Consistent) {supply : Supply} {name : String}
    (honest : ∀ c ∈ (StationCall.mk f supply name).stageCalls, c.Honest) :
    (f.runChecked supply name).factory.Consistent ∧
      (f.runChecked supply name).factory.held +
          Delivery.load (StationCall.mk f supply name).dropped =
        f.held + StageCall.allCreated (StationCall.mk f supply name).stageCalls := by
  unfold StationCall.dropped StationCall.outbound
  unfold StationCall.stageCalls at honest ⊢
  unfold Factory.runChecked workstation
  cases found : f.workstations.get? name with
  | none =>
    refine ⟨h, ?_⟩
    simp [StageCall.allCreated, undelivered]
  | some w =>
    simp only [found] at honest ⊢
    obtain ⟨good, names⟩ : (w.run supply).workstation.Consistent ∧
        (w.run supply).workstation.machines.names = w.machines.names :=
      (h name w found).runEach supply _
    have kept : (w.run supply).workstation.held + Delivery.load (w.run supply).outbound =
        w.held + StageCall.allCreated (w.stageCalls supply w.machines.names) :=
      (h name w found).held_runEach honest
    generalize w.run supply = run at good names kept ⊢
    obtain ⟨consistent, moved⟩ := h.put found good
    have balance : (f.put name run.workstation).held + Delivery.load run.outbound =
        f.held + StageCall.allCreated (w.stageCalls supply w.machines.names) := by
      refine add_right_cancel (b := w.held) ?_
      rw [add_right_comm, moved, add_assoc, kept, add_assoc, add_comm w.held]
    have same : (f.put name run.workstation).undelivered run.outbound =
        f.undelivered run.outbound := by
      unfold undelivered
      simp only [reaches_put found names]
    rw [← same]
    rcases consistent.route run.outbound with ⟨f', made, good', none, got⟩ | ⟨⟨cause, refused⟩, all⟩
    · rw [made, none]
      exact ⟨good', (add_zero _).trans (got.trans balance)⟩
    · rw [refused, all]
      exact ⟨consistent, balance⟩

/-- The runs of workstations in turn, up to the first that fails. -/
def stationCalls (f : Factory σ) (supply : Supply) : List String → List (StationCall σ)
  | [] => []
  | name :: rest =>
    let run := f.runChecked supply name
    ⟨f, supply, name⟩ ::
      match run.outcome with
      | .error _ => []
      | .ok () => run.factory.stationCalls run.supply rest

/-- The balance of several runs: what the factory gains is what they create less what they drop. -/
theorem Consistent.runEach (h : f.Consistent) {supply : Supply} {names : List String}
    (honest : ∀ r ∈ f.stationCalls supply names, ∀ c ∈ r.stageCalls, c.Honest) :
    (f.runEach supply names).factory.Consistent ∧
      (f.runEach supply names).factory.held +
          Delivery.load ((f.stationCalls supply names).flatMap StationCall.dropped) =
        f.held + StageCall.allCreated ((f.stationCalls supply names).flatMap StationCall.stageCalls) := by
  induction names generalizing f supply with
  | nil => exact ⟨h, rfl⟩
  | cons name rest ih =>
    unfold stationCalls at honest ⊢
    unfold Factory.runEach
    rw [List.forall_mem_cons] at honest
    obtain ⟨consistent, kept⟩ := h.runChecked honest.1
    cases outcome : (f.runChecked supply name).outcome with
    | error cause =>
      simp only [outcome, List.flatMap_cons, List.flatMap_nil, List.append_nil]
      exact ⟨consistent, kept⟩
    | ok _ =>
      simp only [outcome, List.flatMap_cons, Delivery.load_append, StageCall.allCreated_append]
        at honest ⊢
      obtain ⟨consistent', kept'⟩ := ih consistent honest.2
      refine ⟨consistent', ?_⟩
      rw [add_left_comm, kept', add_left_comm, ← add_assoc, kept, add_assoc]

/-- What callers do with a factory. A machine that is added is at rest, as all machines are between
calls. -/
inductive Call (σ : Type) where
  | build (station : String)
  | add (station : String) (m : Machine σ) (idle : m.state = .idle)
  | setPath (station machine path : String) (d : Destination)
  | deliver (answers : List Answer) (d : Destination)
  | run (supply : Supply) (station : String)
  | cycle (supply : Supply)
  | dump (station machine : String)
  | takeInbox (station : String)

/-- The factory after a call, also after one that fails. -/
def after (f : Factory σ) : Call σ → Factory σ
  | .build station => (f.build station).toOption.getD f
  | .add station m _ => (f.modify station (·.add m)).toOption.getD f
  | .setPath station machine path d =>
    (f.modify station (·.setPath machine path d)).toOption.getD f
  | .deliver answers d => (f.deliver answers d).toOption.getD f
  | .run supply station => (f.runWorkstation supply station).factory
  | .cycle supply => (f.cycle supply).factory
  | .dump station machine =>
    match f.workstations.get? station with
    | none => f
    | some w => f.put station (w.dump machine).2
  | .takeInbox station =>
    match f.workstations.get? station with
    | none => f
    | some w => f.put station w.takeInbox.2

/-- The answers of a delivery that is accepted. -/
def accepted (f : Factory σ) : Call σ → Multiset AnswerId
  | .deliver answers d => if (f.deliver answers d).toOption.isSome then ids answers else 0
  | _ => 0

/-- The answers that the caller takes. -/
def removed (f : Factory σ) : Call σ → Multiset AnswerId
  | .dump station machine =>
    match f.workstations.get? station with
    | none => 0
    | some w => ids (w.dump machine).1
  | .takeInbox station =>
    match f.workstations.get? station with
    | none => 0
    | some w => ids w.takeInbox.1
  | _ => 0

/-- The runs of workstations that a call makes; none if it is refused before. -/
def runs (f : Factory σ) : Call σ → List (StationCall σ)
  | .run supply station =>
    match f.workstation station >>= f.checkWorkstation with
    | .error _ => []
    | .ok () => [⟨f, supply, station⟩]
  | .cycle supply =>
    match f.validate with
    | .error _ => []
    | .ok () => f.stationCalls supply f.workstations.names
  | _ => []

/-- What a call does to the answers that are held: all that come in stay or go out. -/
structure Balances (f : Factory σ) (c : Call σ) : Prop where
  consistent : (f.after c).Consistent
  moved : (f.after c).held + f.removed c + Delivery.load ((f.runs c).flatMap StationCall.dropped) =
    f.held + f.accepted c + StageCall.allCreated ((f.runs c).flatMap StationCall.stageCalls)

/-- A call that neither takes in nor gives out answers and runs nothing. -/
theorem balances_of_quiet {c : Call σ} (kept : (f.after c).Consistent ∧ (f.after c).held = f.held)
    (noneAccepted : f.accepted c = 0) (noneRemoved : f.removed c = 0) (noRuns : f.runs c = []) :
    f.Balances c := by
  obtain ⟨consistent, same⟩ := kept
  refine ⟨consistent, ?_⟩
  rw [noneAccepted, noneRemoved, noRuns, same]
  rfl

theorem Consistent.balances_add (h : f.Consistent) (station : String) (m : Machine σ)
    (idle : m.state = .idle) : f.Balances (.add station m idle) := by
  have keeps : ∀ w w' : Workstation σ, w.Consistent → w.add m = .ok w' →
      w'.Consistent ∧ w'.held = w.held := fun _ _ good added => good.add idle added
  exact balances_of_quiet (h.modify keeps station) rfl rfl rfl

theorem Consistent.balances_setPath (h : f.Consistent) (station machine path : String)
    (d : Destination) : f.Balances (.setPath station machine path d) := by
  have keeps : ∀ w w' : Workstation σ, w.Consistent → w.setPath machine path d = .ok w' →
      w'.Consistent ∧ w'.held = w.held := fun _ _ good changed => good.setPath changed
  exact balances_of_quiet (h.modify keeps station) rfl rfl rfl

/-- A delivery is held in full if its destination is there, and is refused in full if not. -/
theorem Consistent.balances_deliver (h : f.Consistent) (answers : List Answer) (d : Destination) :
    f.Balances (.deliver answers d) := by
  by_cases there : f.reaches d = true
  · obtain ⟨f', made, consistent, _, got⟩ := h.deliver there answers
    have now : f.after (.deliver answers d) = f' := by simp [Factory.after, made, Except.toOption]
    refine ⟨now ▸ consistent, ?_⟩
    rw [now]
    simpa [removed, accepted, runs, made, StageCall.allCreated, Except.toOption] using got
  · obtain ⟨cause, refused⟩ := h.deliver_of_not_reaches (Bool.eq_false_iff.mpr there) answers
    have now : f.after (.deliver answers d) = f := by
      simp [Factory.after, refused, Except.toOption]
    have noneAccepted : f.accepted (.deliver answers d) = 0 := by
      simp [accepted, refused, Except.toOption]
    exact balances_of_quiet (now.symm ▸ ⟨h, rfl⟩) noneAccepted rfl rfl

theorem Consistent.balances_run (h : f.Consistent) {supply : Supply} {station : String}
    (honest : ∀ r ∈ f.runs (.run supply station), ∀ s ∈ r.stageCalls, s.Honest) :
    f.Balances (.run supply station) := by
  cases checked : f.workstation station >>= f.checkWorkstation with
  | error cause =>
    have now : f.after (.run supply station) = f := by
      simp [Factory.after, Factory.runWorkstation, checked]
    exact balances_of_quiet (now.symm ▸ ⟨h, rfl⟩) rfl rfl (by simp [runs, checked])
  | ok _ =>
    simp only [runs, checked, List.forall_mem_singleton] at honest
    obtain ⟨consistent, moved⟩ := h.runChecked honest
    have now : f.after (.run supply station) = (f.runChecked supply station).factory := by
      simp [Factory.after, Factory.runWorkstation, checked]
    refine ⟨now ▸ consistent, ?_⟩
    simpa [now, removed, accepted, runs, checked] using moved

theorem Consistent.balances_cycle (h : f.Consistent) {supply : Supply}
    (honest : ∀ r ∈ f.runs (.cycle supply), ∀ s ∈ r.stageCalls, s.Honest) :
    f.Balances (.cycle supply) := by
  cases checked : f.validate with
  | error cause =>
    have now : f.after (.cycle supply) = f := by simp [Factory.after, Factory.cycle, checked]
    exact balances_of_quiet (now.symm ▸ ⟨h, rfl⟩) rfl rfl (by simp [runs, checked])
  | ok _ =>
    simp only [runs, checked] at honest
    obtain ⟨consistent, moved⟩ := h.runEach honest
    have now : f.after (.cycle supply) = (f.runEach supply f.workstations.names).factory := by
      simp [Factory.after, Factory.cycle, checked]
    refine ⟨now ▸ consistent, ?_⟩
    simpa [now, removed, accepted, runs, checked] using moved

theorem Consistent.balances_dump (h : f.Consistent) (station machine : String) :
    f.Balances (.dump station machine) := by
  cases found : f.workstations.get? station with
  | none =>
    have now : f.after (.dump station machine) = f := by simp [Factory.after, found]
    exact balances_of_quiet (now.symm ▸ ⟨h, rfl⟩) rfl (by simp [removed, found]) rfl
  | some w =>
    have good := (h station w found).setQueue machine []
    obtain ⟨consistent, same⟩ := h.take found good (w.held_dump machine)
    have now : f.after (.dump station machine) = f.put station (w.dump machine).2 := by
      simp [Factory.after, found]
    refine ⟨now ▸ consistent, ?_⟩
    simpa [now, removed, accepted, runs, found, StageCall.allCreated, Workstation.dump] using same

theorem Consistent.balances_takeInbox (h : f.Consistent) (station : String) :
    f.Balances (.takeInbox station) := by
  cases found : f.workstations.get? station with
  | none =>
    have now : f.after (.takeInbox station) = f := by simp [Factory.after, found]
    exact balances_of_quiet (now.symm ▸ ⟨h, rfl⟩) rfl (by simp [removed, found]) rfl
  | some w =>
    have good : w.takeInbox.2.Consistent := ⟨(h station w found).queues, (h station w found).idle⟩
    obtain ⟨consistent, same⟩ := h.take found good w.held_takeInbox
    have now : f.after (.takeInbox station) = f.put station w.takeInbox.2 := by
      simp [Factory.after, found]
    refine ⟨now ▸ consistent, ?_⟩
    simpa [now, removed, accepted, runs, found, StageCall.allCreated] using same

/-- The balance of one call. -/
theorem Consistent.balances (h : f.Consistent) (c : Call σ)
    (honest : ∀ r ∈ f.runs c, ∀ s ∈ r.stageCalls, s.Honest) : f.Balances c := by
  cases c with
  | build station => exact balances_of_quiet (h.build station) rfl rfl rfl
  | add station m idle => exact h.balances_add station m idle
  | setPath station machine path d => exact h.balances_setPath station machine path d
  | deliver answers d => exact h.balances_deliver answers d
  | run supply station => exact h.balances_run honest
  | cycle supply => exact h.balances_cycle honest
  | dump station machine => exact h.balances_dump station machine
  | takeInbox station => exact h.balances_takeInbox station

end Factory

/-- A factory with the record of the calls made on it. -/
structure Ledger (σ : Type) where
  factory : Factory σ
  accepted : Multiset AnswerId
  removed : Multiset AnswerId
  runs : List (StationCall σ)

namespace Ledger

variable {σ : Type} [Stage σ]

/-- The record before any call. -/
def start (f : Factory σ) : Ledger σ := ⟨f, 0, 0, []⟩

def enter (l : Ledger σ) (c : Factory.Call σ) : Ledger σ where
  factory := l.factory.after c
  accepted := l.accepted + l.factory.accepted c
  removed := l.removed + l.factory.removed c
  runs := l.runs ++ l.factory.runs c

/-- The record of calls made one after the other. -/
def ofCalls (f : Factory σ) (calls : List (Factory.Call σ)) : Ledger σ := calls.foldl enter (start f)

def stageCalls (l : Ledger σ) : List (StageCall σ) := l.runs.flatMap StationCall.stageCalls

/-- What stages created in calls that succeeded. -/
def created (l : Ledger σ) : Multiset AnswerId := StageCall.allCreated l.stageCalls

/-- What refused deliveries carried. -/
def dropped (l : Ledger σ) : Multiset AnswerId :=
  Delivery.load (l.runs.flatMap StationCall.dropped)

structure Balanced (l : Ledger σ) : Prop where
  consistent : l.factory.Consistent
  total : l.factory.held + l.removed + l.dropped = l.accepted + l.created

theorem Balanced.enter {l : Ledger σ} (h : l.Balanced) {c : Factory.Call σ}
    (honest : ∀ s ∈ (l.enter c).stageCalls, s.Honest) : (l.enter c).Balanced := by
  have calls : ∀ r ∈ l.factory.runs c, ∀ s ∈ r.stageCalls, s.Honest := by
    intro r hr s hs
    exact honest s (List.mem_flatMap.mpr ⟨r, List.mem_append_right _ hr, hs⟩)
  obtain ⟨consistent, moved⟩ := h.consistent.balances c calls
  refine ⟨consistent, ?_⟩
  have before := h.total
  unfold dropped created stageCalls at before ⊢
  simp only [Ledger.enter, List.flatMap_append, Delivery.load_append, StageCall.allCreated_append]
  generalize (l.factory.after c).held = now at moved ⊢
  generalize l.factory.held = held at moved before
  calc now + (l.removed + l.factory.removed c) +
        (Delivery.load (l.runs.flatMap StationCall.dropped) +
          Delivery.load ((l.factory.runs c).flatMap StationCall.dropped))
      = now + l.factory.removed c + Delivery.load ((l.factory.runs c).flatMap StationCall.dropped) +
          (l.removed + Delivery.load (l.runs.flatMap StationCall.dropped)) := by abel
    _ = held + l.removed + Delivery.load (l.runs.flatMap StationCall.dropped) +
          (l.factory.accepted c +
            StageCall.allCreated ((l.factory.runs c).flatMap StationCall.stageCalls)) := by
        rw [moved]
        abel
    _ = _ := by
        rw [before]
        abel

theorem balanced_ofCalls {f : Factory σ} (bare : f.workstations = .empty)
    {calls : List (Factory.Call σ)} (honest : ∀ s ∈ (ofCalls f calls).stageCalls, s.Honest) :
    (ofCalls f calls).Balanced := by
  induction calls using List.reverseRecOn with
  | nil =>
    constructor
    · intro name w found
      have none : f.workstations.get? name = none := bare ▸ rfl
      simp [ofCalls, start, none] at found
    · have empty : f.held = 0 := by
        rw [Factory.held, bare]
        rfl
      simp [ofCalls, start, empty, dropped, created, stageCalls, StageCall.allCreated]
  | append_singleton calls c ih =>
    have last : ofCalls f (calls ++ [c]) = (ofCalls f calls).enter c := by
      simp [ofCalls]
    rw [last] at honest ⊢
    refine (ih fun s hs => honest s ?_).enter honest
    obtain ⟨r, hr, called⟩ := List.mem_flatMap.mp hs
    exact List.mem_flatMap.mpr ⟨r, List.mem_append_left _ hr, called⟩

/-- When the stages are honest, the answers that came in are exactly those that are held or were
taken, unless a run sent out some answer along with a delivery to a missing destination. -/
theorem held_add_removed_eq_iff {f : Factory σ} (bare : f.workstations = .empty)
    {calls : List (Factory.Call σ)} (honest : ∀ s ∈ (ofCalls f calls).stageCalls, s.Honest) :
    let l := ofCalls f calls
    l.factory.held + l.removed + l.dropped = l.accepted + l.created ∧
      (l.factory.held + l.removed = l.accepted + l.created ↔
        ∀ r ∈ l.runs, (∃ d ∈ r.outbound, r.factory.reaches d.destination = false) →
          ∀ d ∈ r.outbound, d.answers = []) := by
  intro l
  have total : l.factory.held + l.removed + l.dropped = l.accepted + l.created :=
    (balanced_ofCalls bare honest).total
  refine ⟨total, ?_⟩
  have nothing : l.factory.held + l.removed = l.accepted + l.created ↔ l.dropped = 0 := by
    rw [← total]
    exact left_eq_add
  rw [nothing, dropped, Delivery.load_eq_zero_iff]
  constructor
  · rintro none r hr ⟨d, sent, nowhere⟩ e he
    refine none e (List.mem_flatMap.mpr ⟨r, hr, ?_⟩)
    have refused : ¬r.outbound.all (r.factory.reaches ·.destination) = true := by
      simpa using ⟨d, sent, nowhere⟩
    rw [StationCall.dropped, Factory.undelivered, if_neg refused]
    exact he
  · intro harmless e he
    obtain ⟨r, hr, lost⟩ := List.mem_flatMap.mp he
    rw [StationCall.dropped, Factory.undelivered] at lost
    split at lost
    · simp at lost
    · next refused =>
      refine harmless r hr ?_ e lost
      simpa using refused

/-- The factory without workstations. -/
def bareFactory : Factory CustomStage := ⟨{}, .builtin, .builtin, .empty⟩

/-- A machine is built, gets two answers and sends them all on a path that it does not declare. -/
def strayCalls (target : Destination) : List (Factory.Call CustomStage) :=
  let paths := .ofList [("out", ⟨"w", none⟩), ("x", target)]
  let answers := [.new ⟨1⟩ .epoch .empty, .new ⟨2⟩ .epoch .empty]
  [.build "w",
    .add "w" (.new "m" "w" (.emit ["out"] "x" none) { paths }) rfl,
    .deliver answers ⟨"w", some "m"⟩,
    .run ⟨3, .epoch⟩ "w"]

/-- The path leads to the inbox of another workstation, where both answers arrive. -/
theorem held_add_removed_eq_of_stray_path :
    let l := ofCalls bareFactory (.build "v" :: strayCalls ⟨"v", none⟩)
    l.accepted = {⟨1⟩, ⟨2⟩} ∧ l.factory.held + l.removed = l.accepted + l.created := by
  intro l
  have honest : ∀ s ∈ l.stageCalls, s.Honest := by decide +kernel
  have reached : ∀ r ∈ l.runs, ∀ d ∈ r.outbound, r.factory.reaches d.destination = true := by
    decide +kernel
  refine ⟨by decide +kernel, ((held_add_removed_eq_iff rfl honest).2).mpr ?_⟩
  rintro r hr ⟨d, hd, nowhere⟩
  simp [reached r hr d hd] at nowhere

/-- The path leads to a workstation that is missing: the answers are gone. -/
theorem held_add_removed_ne_of_missing_destination :
    let l := ofCalls bareFactory (strayCalls ⟨"nowhere", none⟩)
    (∀ s ∈ l.stageCalls, s.Honest) ∧ l.accepted = {⟨1⟩, ⟨2⟩} ∧
      l.factory.held + l.removed ≠ l.accepted + l.created := by
  decide +kernel

end Ledger

end Evolution
