import Evolution.Proofs.Factory.Machine
import Mathlib.Logic.Function.Basic

/-! A floor of machines where every delivery is made at once. The machines work in turn on what waits
for them, up to the first that fails. What a machine finds and leaves is read off the turns: it works
on what was there and what the turns before it sent there, and what the later turns send there stays
behind what it kept. -/

namespace Evolution

theorem Destination.eq_iff {d e : Destination} :
    d = e ↔ d.workstation = e.workstation ∧ d.machine = e.machine := by
  cases d
  cases e
  rw [Destination.mk.injEq]

/-- What deliveries bring to a destination, in their order. -/
def Delivery.addressed (d : Destination) (deliveries : List Delivery) : List Answer :=
  (deliveries.filter (·.destination = d)).flatMap (·.answers)

namespace Delivery

@[simp]
theorem addressed_nil (d : Destination) : addressed d [] = [] := rfl

@[simp]
theorem addressed_cons (d : Destination) (e : Delivery) (rest : List Delivery) :
    addressed d (e :: rest) = (if e.destination = d then e.answers else []) ++ addressed d rest := by
  by_cases here : e.destination = d <;> simp [addressed, here]

@[simp]
theorem addressed_append (d : Destination) (ds more : List Delivery) :
    addressed d (ds ++ more) = addressed d ds ++ addressed d more := by
  simp [addressed]

theorem addressed_eq_nil {d : Destination} {ds : List Delivery}
    (away : ∀ e ∈ ds, e.destination ≠ d) : addressed d ds = [] := by
  simpa [addressed] using fun e member here => absurd here (away e member)

end Delivery

open Delivery (addressed)

namespace MachineRun

variable {σ : Type}

/-- What the machine sends; nothing if it fails. -/
def sent (run : MachineRun σ) : List Delivery :=
  match run.outcome with
  | .error _ => []
  | .ok deliveries => deliveries

/-- What stays with the machine; nothing unless it fails. -/
def kept (run : MachineRun σ) : List Answer :=
  match run.outcome with
  | .error _ => run.left
  | .ok _ => []

end MachineRun

/-- A machine that is let work on what waits at its place. -/
structure Turn (σ : Type) where
  place : Destination
  machine : Machine σ
  supply : Supply
  input : List Answer

namespace Turn

variable {σ : Type} [Stage σ]

def run (t : Turn σ) : MachineRun σ := t.machine.process t.supply t.input

def sent (t : Turn σ) : List Delivery := t.run.sent

def kept (t : Turn σ) : List Answer := t.run.kept

def stageCalls (t : Turn σ) : List (StageCall σ) := t.machine.stageCalls t.supply t.input

def Succeeds (t : Turn σ) : Prop := t.run.outcome = .ok t.sent ∧ t.kept = []

theorem succeeds_of_ok {t : Turn σ} {sent : List Delivery} (went : t.run.outcome = .ok sent) :
    t.Succeeds := by
  simp [Succeeds, Turn.sent, MachineRun.sent, kept, MachineRun.kept, went]

end Turn

/-- Machines at their places, and the answers that wait at each destination. -/
@[ext]
structure Floor (σ : Type) where
  machine? : Destination → Option (Machine σ)
  contents : Destination → List Answer

structure FloorRun (σ : Type) where
  floor : Floor σ
  supply : Supply
  turns : List (Turn σ)
  outcome : Except PipelineError Unit

def FloorRun.precededBy {σ : Type} (run : FloorRun σ) (t : Turn σ) : FloorRun σ :=
  { run with turns := t :: run.turns }

namespace Floor

variable {σ : Type} {s : Floor σ} {d place : Destination} {supply : Supply}
  {places : List Destination} {t : Turn σ}

def deliver (s : Floor σ) (deliveries : List Delivery) : Floor σ where
  machine? := s.machine?
  contents d := s.contents d ++ addressed d deliveries

@[simp]
theorem deliver_nil (s : Floor σ) : s.deliver [] = s := by
  simp [deliver]

theorem deliver_append (s : Floor σ) (ds more : List Delivery) :
    s.deliver (ds ++ more) = (s.deliver ds).deliver more := by
  simp [deliver]

def turn? (s : Floor σ) (supply : Supply) (place : Destination) : Option (Turn σ) :=
  (s.machine? place).map (⟨place, ·, supply, s.contents place⟩)

theorem turn?_eq_some (next : s.turn? supply place = some t) :
    t.place = place ∧ t.supply = supply ∧ s.machine? t.place = some t.machine ∧
      t.input = s.contents t.place := by
  obtain ⟨m, found, rfl⟩ := Option.map_eq_some_iff.mp next
  exact ⟨rfl, rfl, found, rfl⟩

theorem turn?_isSome (s : Floor σ) (supply : Supply) (place : Destination) :
    (s.turn? supply place).isSome = (s.machine? place).isSome :=
  Option.isSome_map ..

variable [Stage σ]

/-- The floor with a machine as its turn leaves it, and what it kept. -/
def replace (s : Floor σ) (t : Turn σ) : Floor σ where
  machine? := Function.update s.machine? t.place (some t.run.machine)
  contents := Function.update s.contents t.place t.kept

/-- The floor after a turn, with what was sent delivered. -/
def after (s : Floor σ) (t : Turn σ) : Floor σ := (s.replace t).deliver t.sent

theorem after_of_ne (s : Floor σ) (away : t.place ≠ d) :
    (s.after t).machine? d = s.machine? d ∧
      (s.after t).contents d = s.contents d ++ addressed d t.sent := by
  simp [after, replace, deliver, away.symm]

theorem after_place (s : Floor σ) (t : Turn σ) :
    (s.after t).machine? t.place = some t.run.machine ∧
      (s.after t).contents t.place = t.kept ++ addressed t.place t.sent := by
  simp [after, replace, deliver]

/-- Lets the machines at the given places work in turn, up to the first that fails. A place without
a machine is passed over. -/
def shift (s : Floor σ) (supply : Supply) : List Destination → FloorRun σ
  | [] => ⟨s, supply, [], .ok ()⟩
  | place :: rest =>
    match s.turn? supply place with
    | none => s.shift supply rest
    | some t =>
      match t.run.outcome with
      | .error cause => ⟨s.after t, t.run.supply, [t], .error cause⟩
      | .ok _ => ((s.after t).shift t.run.supply rest).precededBy t

theorem shift_of_none (none : s.turn? supply place = none) :
    s.shift supply (place :: places) = s.shift supply places := by
  rw [shift, none]

theorem shift_of_error (next : s.turn? supply place = some t) {cause : PipelineError}
    (failed : t.run.outcome = .error cause) :
    s.shift supply (place :: places) = ⟨s.after t, t.run.supply, [t], .error cause⟩ := by
  rw [shift, next]
  simp only [failed]

theorem shift_of_ok (next : s.turn? supply place = some t) {sent : List Delivery}
    (went : t.run.outcome = .ok sent) :
    s.shift supply (place :: places) = ((s.after t).shift t.run.supply places).precededBy t := by
  rw [shift, next]
  simp only [went]

end Floor

/-- Goes on at further places, unless the run failed. -/
def FloorRun.andThen {σ : Type} [Stage σ] (run : FloorRun σ) (more : List Destination) :
    FloorRun σ :=
  match run.outcome with
  | .error _ => run
  | .ok () =>
    let later := run.floor.shift run.supply more
    { later with turns := run.turns ++ later.turns }

theorem FloorRun.precededBy_andThen {σ : Type} [Stage σ] (run : FloorRun σ) (t : Turn σ)
    (more : List Destination) : (run.precededBy t).andThen more = (run.andThen more).precededBy t := by
  obtain ⟨floor, supply, turns, _ | _⟩ := run <;> rfl

namespace Floor

variable {σ : Type} [Stage σ] {s : Floor σ} {d : Destination} {supply : Supply}
  {places : List Destination} {t : Turn σ}

theorem shift_append (s : Floor σ) (supply : Supply) (places more : List Destination) :
    s.shift supply (places ++ more) = (s.shift supply places).andThen more := by
  fun_induction shift s supply places with
  | case1 s supply => simp [FloorRun.andThen]
  | case2 s supply place rest none ih => rw [List.cons_append, shift_of_none none, ih]
  | case3 s supply place rest t next cause failed =>
    rw [List.cons_append, shift_of_error next failed]
    rfl
  | case4 s supply place rest t next sent went ih =>
    rw [List.cons_append, shift_of_ok next went, ih, FloorRun.precededBy_andThen]

theorem mem_turns_append (taken : t ∈ (s.shift supply places).turns) (more : List Destination) :
    t ∈ (s.shift supply (places ++ more)).turns := by
  rw [shift_append, FloorRun.andThen]
  split
  · exact taken
  · exact List.mem_append_left _ taken

theorem mem_turns_append_of_ok (ok : (s.shift supply places).outcome = .ok ())
    {more : List Destination}
    (taken : t ∈ ((s.shift supply places).floor.shift (s.shift supply places).supply more).turns) :
    t ∈ (s.shift supply (places ++ more)).turns := by
  rw [shift_append, FloorRun.andThen]
  simp only [ok]
  exact List.mem_append_right _ taken

theorem place_mem (taken : t ∈ (s.shift supply places).turns) : t.place ∈ places := by
  fun_induction shift s supply places with
  | case1 s supply => cases taken
  | case2 s supply place rest none ih => exact List.mem_cons_of_mem _ (ih taken)
  | case3 s supply place rest first next cause failed =>
    obtain rfl := List.mem_singleton.mp taken
    exact (turn?_eq_some next).1 ▸ List.mem_cons_self
  | case4 s supply place rest first next sent went ih =>
    rcases List.mem_cons.mp taken with rfl | taken
    · exact (turn?_eq_some next).1 ▸ List.mem_cons_self
    · exact List.mem_cons_of_mem _ (ih taken)

/-- Turns are taken in the given order, at all places unless one fails. -/
theorem shift_places (supply : Supply) (stands : ∀ p ∈ places, (s.machine? p).isSome = true) :
    (s.shift supply places).turns.map Turn.place <+: places ∧
      ((s.shift supply places).outcome = .ok () →
        (s.shift supply places).turns.map Turn.place = places) := by
  fun_induction shift s supply places with
  | case1 s supply => simp
  | case2 s supply place rest none ih =>
    have there := stands place List.mem_cons_self
    simp [← s.turn?_isSome supply, none] at there
  | case3 s supply place rest t next cause failed => simp [(turn?_eq_some next).1]
  | case4 s supply place rest t next sent went ih =>
    obtain ⟨rfl, _⟩ := turn?_eq_some next
    have still : ∀ p ∈ rest, ((s.after t).machine? p).isSome = true := by
      intro p member
      by_cases here : t.place = p
      · rw [← here, (s.after_place t).1]
        rfl
      · rw [(s.after_of_ne here).1]
        exact stands p (List.mem_cons_of_mem _ member)
    obtain ⟨order, all⟩ := ih still
    exact ⟨List.cons_prefix_cons.mpr ⟨rfl, order⟩, fun ok => congrArg (t.place :: ·) (all ok)⟩

/-- Only the last turn can fail, and its failure is that of the run. -/
theorem shift_ending (s : Floor σ) (supply : Supply) (places : List Destination) :
    match (s.shift supply places).outcome with
    | .ok () => ∀ t ∈ (s.shift supply places).turns, t.Succeeds
    | .error cause => ∃ before t, (s.shift supply places).turns = before ++ [t] ∧
        (∀ b ∈ before, b.Succeeds) ∧ t.run.outcome = .error cause := by
  fun_induction shift s supply places with
  | case1 s supply => simp
  | case2 s supply place rest none ih => exact ih
  | case3 s supply place rest t next cause failed => exact ⟨[], t, rfl, by simp, failed⟩
  | case4 s supply place rest t next sent went ih =>
    have first := Turn.succeeds_of_ok went
    unfold FloorRun.precededBy
    split at ih
    · next ok =>
      simp only [ok]
      exact List.forall_mem_cons.mpr ⟨first, ih⟩
    · next cause failed =>
      obtain ⟨before, last, split, fine, failure⟩ := ih
      simp only [failed]
      exact ⟨t :: before, last, congrArg (t :: ·) split, List.forall_mem_cons.mpr ⟨first, fine⟩,
        failure⟩

/-- A destination where no turn was taken has the same machine, and gets what was sent to it. -/
theorem shift_elsewhere (away : ∀ t ∈ (s.shift supply places).turns, t.place ≠ d) :
    (s.shift supply places).floor.machine? d = s.machine? d ∧
      (s.shift supply places).floor.contents d =
        s.contents d ++ addressed d ((s.shift supply places).turns.flatMap Turn.sent) := by
  fun_induction shift s supply places with
  | case1 s supply => simp
  | case2 s supply place rest none ih => exact ih away
  | case3 s supply place rest t next cause failed =>
    simpa using s.after_of_ne (away t List.mem_cons_self)
  | case4 s supply place rest t next sent went ih =>
    obtain ⟨first, later⟩ := List.forall_mem_cons.mp away
    obtain ⟨machine, contents⟩ := s.after_of_ne first
    obtain ⟨machine', contents'⟩ := ih later
    refine ⟨machine'.trans machine, contents'.trans ?_⟩
    simp [contents, FloorRun.precededBy]

/-- A turn among the others: it finds its machine as it was at the start, and what the turns before it
sent there. Its machine and what it keeps stay as they are, with what came during the turn and after
it behind. -/
theorem shift_turn (distinct : places.Nodup) {before later : List (Turn σ)}
    (split : (s.shift supply places).turns = before ++ t :: later) :
    s.machine? t.place = some t.machine ∧
      t.input = s.contents t.place ++ addressed t.place (before.flatMap Turn.sent) ∧
      (s.shift supply places).floor.machine? t.place = some t.run.machine ∧
      (s.shift supply places).floor.contents t.place =
        t.kept ++ addressed t.place ((t :: later).flatMap Turn.sent) := by
  fun_induction shift s supply places generalizing before with
  | case1 s supply => simp at split
  | case2 s supply place rest none ih => exact ih distinct.of_cons split
  | case3 s supply place rest first next cause failed =>
    obtain ⟨rfl, rfl, rfl⟩ : before = [] ∧ t = first ∧ later = [] := by
      cases before <;> simp_all
    obtain ⟨_, _, found, input⟩ := turn?_eq_some next
    obtain ⟨machine, contents⟩ := s.after_place t
    exact ⟨found, by simp [input], machine, by simpa using contents⟩
  | case4 s supply place rest first next sent went ih =>
    obtain ⟨rfl, _, found, input⟩ := turn?_eq_some next
    have elsewhere : ∀ u ∈ ((s.after first).shift first.run.supply rest).turns,
        u.place ≠ first.place :=
      fun u taken same => (List.nodup_cons.mp distinct).1 (same ▸ place_mem taken)
    -- The turn is the first one, and then no later one is taken at its place; or it is a later one.
    rcases List.cons_eq_append_iff.mp split with ⟨rfl, same⟩ | ⟨before, rfl, same⟩
    · obtain ⟨rfl, rfl⟩ := List.cons.inj same
      obtain ⟨machine, contents⟩ := s.after_place t
      obtain ⟨machine', contents'⟩ := shift_elsewhere elsewhere
      refine ⟨found, by simp [input], machine'.trans machine, contents'.trans ?_⟩
      simp [contents]
    · have other : first.place ≠ t.place := (elsewhere t (same ▸ by simp)).symm
      obtain ⟨machine, contents⟩ := s.after_of_ne other
      obtain ⟨found', input', final⟩ := ih distinct.of_cons same
      refine ⟨machine.symm.trans found', input'.trans ?_, final⟩
      simp [contents]

end Floor

end Evolution
