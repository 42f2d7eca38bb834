import Evolution.Factory
import Evolution.Proofs.Factory.Workstation

/-! Deliveries within a factory. A destination that passes the check is one where answers are
accepted, and accepting answers does not change which destinations pass; so a list of deliveries is
made as a whole or refused before the first of them. -/

namespace Evolution

open Answer (ids)

namespace Factory

variable {σ : Type} {f : Factory σ}

/-- All answers in the queues and inboxes. -/
def held (f : Factory σ) : Multiset AnswerId := f.workstations.total Workstation.held

def Consistent (f : Factory σ) : Prop :=
  ∀ name w, f.workstations.get? name = some w → w.Consistent

/-- Whether a destination exists. -/
def reaches (f : Factory σ) (d : Destination) : Bool :=
  match f.workstations.get? d.workstation with
  | none => false
  | some w =>
    match d.machine with
    | none => true
    | some machine => w.hasMachine machine

theorem checkDestination_of_reaches {d : Destination} (h : f.reaches d = true) :
    f.checkDestination d = .ok () := by
  unfold reaches at h
  unfold checkDestination workstation
  cases found : f.workstations.get? d.workstation with
  | none => simp [found] at h
  | some w =>
    cases target : d.machine with
    | none => rfl
    | some machine =>
      have here : w.hasMachine machine = true := by simpa [found, target] using h
      simp only [bind, Except.bind, here, if_true]
      rfl

theorem checkDestination_of_not_reaches {d : Destination} (h : f.reaches d = false) :
    ∃ cause, f.checkDestination d = .error cause := by
  unfold reaches at h
  unfold checkDestination workstation
  cases found : f.workstations.get? d.workstation with
  | none => exact ⟨_, rfl⟩
  | some w =>
    cases target : d.machine with
    | none => simp [found, target] at h
    | some machine =>
      have absent : w.hasMachine machine = false := by simpa [found, target] using h
      simp only [bind, Except.bind, absent, Bool.false_eq_true, if_false]
      exact ⟨_, rfl⟩

theorem checkDestination_eq_ok_iff {d : Destination} :
    f.checkDestination d = .ok () ↔ f.reaches d = true := by
  refine ⟨fun checked => ?_, checkDestination_of_reaches⟩
  by_contra nowhere
  obtain ⟨cause, refused⟩ := checkDestination_of_not_reaches (Bool.eq_false_iff.mpr nowhere)
  simp [refused] at checked

/-- Deliveries all pass the check exactly if there is no missing destination. -/
theorem forM_checkDestination_eq_ok_iff {deliveries : List Delivery} :
    (deliveries.forM fun d => f.checkDestination d.destination) = .ok () ↔
      ∀ d ∈ deliveries, f.reaches d.destination = true :=
  forM_eq_ok_iff.trans (forall₂_congr fun _ _ => checkDestination_eq_ok_iff)

theorem workstation_eq_ok_iff {name : String} {w : Workstation σ} :
    f.workstation name = .ok w ↔ f.workstations.get? name = some w := by
  unfold workstation
  cases f.workstations.get? name <;> simp

theorem modify_eq_ok_iff {station : String}
    {change : Workstation σ → Except ConfigurationError (Workstation σ)} {f' : Factory σ} :
    f.modify station change = .ok f' ↔
      ∃ w w', f.workstations.get? station = some w ∧ change w = .ok w' ∧ f' = f.put station w' := by
  unfold modify workstation
  cases f.workstations.get? station with
  | none => simp [bind, Except.bind]
  | some w => cases changed : change w <;> simp [changed, bind, Except.bind, pure, Except.pure, eq_comm]

/-- What holds of all workstations holds of them when one is filed of which it holds. -/
theorem forall_put {P : String → Workstation σ → Prop}
    (all : ∀ name w, f.workstations.get? name = some w → P name w) {station : String}
    {w : Workstation σ} (new : P station w) :
    ∀ name v, (f.put station w).workstations.get? name = some v → P name v := by
  intro name v found
  rw [put, Table.get?_insert] at found
  split at found
  · next here => exact here ▸ Option.some.inj found ▸ new
  · exact all name v found

/-- A workstation with the same machines in the place of one that is consistent. -/
theorem Consistent.put (h : f.Consistent) {name : String} {w w' : Workstation σ}
    (found : f.workstations.get? name = some w) (good : w'.Consistent) :
    (f.put name w').Consistent ∧ (f.put name w').held + w.held = f.held + w'.held :=
  ⟨forall_put h good, Table.total_insert_of_get? Workstation.held found w'⟩

theorem reaches_put {name : String} {w w' : Workstation σ}
    (found : f.workstations.get? name = some w) (same : w'.machines.names = w.machines.names)
    (d : Destination) : (f.put name w').reaches d = f.reaches d := by
  unfold reaches
  simp only [Factory.put, Table.get?_insert]
  by_cases here : d.workstation = name
  · have machines : ∀ machine, w'.hasMachine machine = w.hasMachine machine := by
      intro machine
      rw [Workstation.hasMachine, Workstation.hasMachine, Table.contains, Table.contains, same]
    simp only [here, if_true, found, machines]
  · simp only [here, if_false]

theorem Consistent.build (h : f.Consistent) (station : String) :
    ((f.build station).toOption.getD f).Consistent ∧
      ((f.build station).toOption.getD f).held = f.held := by
  unfold Factory.build
  by_cases known : f.workstations.contains station = true
  · rw [if_pos known]
    exact ⟨h, rfl⟩
  · rw [if_neg known]
    have absent := Table.get?_eq_none (Bool.eq_false_iff.mpr known)
    exact ⟨forall_put h (Workstation.consistent_new station),
      (Table.total_insert_of_absent Workstation.held absent _).trans (add_zero _)⟩

/-- A workstation changed without gain or loss. -/
theorem Consistent.modify (h : f.Consistent)
    {change : Workstation σ → Except ConfigurationError (Workstation σ)}
    (keeps : ∀ w w' : Workstation σ, w.Consistent → change w = .ok w' →
      w'.Consistent ∧ w'.held = w.held) (station : String) :
    ((f.modify station change).toOption.getD f).Consistent ∧
      ((f.modify station change).toOption.getD f).held = f.held := by
  cases changed : f.modify station change with
  | error cause => exact ⟨h, rfl⟩
  | ok f' =>
    obtain ⟨w, w', found, made, rfl⟩ := modify_eq_ok_iff.mp changed
    obtain ⟨good, same⟩ := keeps w w' (h station w found) made
    obtain ⟨consistent, kept⟩ := h.put found good
    rw [same] at kept
    exact ⟨consistent, add_right_cancel kept⟩

/-- Answers taken out of one workstation. -/
theorem Consistent.take (h : f.Consistent) {name : String} {w w' : Workstation σ}
    (found : f.workstations.get? name = some w) (good : w'.Consistent)
    {taken : Multiset AnswerId} (moved : w'.held + taken = w.held) :
    (f.put name w').Consistent ∧ (f.put name w').held + taken = f.held := by
  obtain ⟨consistent, kept⟩ := h.put found good
  refine ⟨consistent, add_right_cancel (b := w'.held) ?_⟩
  rw [add_assoc, add_comm taken, moved, kept]

theorem Consistent.deliver (h : f.Consistent) {d : Destination} (there : f.reaches d = true)
    (answers : List Answer) :
    ∃ f', f.deliver answers d = .ok f' ∧ f'.Consistent ∧
      (∀ e, f'.reaches e = f.reaches e) ∧ f'.held = f.held + ids answers := by
  unfold reaches at there
  cases found : f.workstations.get? d.workstation with
  | none => simp [found] at there
  | some w =>
    simp only [found] at there
    have machine : ∀ machine ∈ d.machine, w.hasMachine machine = true := by
      intro machine target
      simpa [Option.mem_def.mp target] using there
    obtain ⟨w', received, good, machines, got⟩ := (h _ w found).receive machine answers
    obtain ⟨consistent, kept⟩ := h.put found good
    refine ⟨f.put d.workstation w', ?_, consistent, ?_, ?_⟩
    · simp [Factory.deliver, Factory.modify, workstation_eq_ok_iff.mpr found, received, bind, Except.bind,
        pure, Except.pure]
    · exact reaches_put found (congrArg Table.names machines)
    · rw [got, add_comm w.held, ← add_assoc] at kept
      exact add_right_cancel kept

theorem Consistent.deliver_of_not_reaches (h : f.Consistent) {d : Destination}
    (nowhere : f.reaches d = false) (answers : List Answer) :
    ∃ cause, f.deliver answers d = .error cause := by
  unfold reaches at nowhere
  unfold Factory.deliver Factory.modify workstation
  cases found : f.workstations.get? d.workstation with
  | none => exact ⟨_, rfl⟩
  | some w =>
    cases target : d.machine with
    | none => simp [found, target] at nowhere
    | some machine =>
      simp only [found, target] at nowhere
      have noQueue := Table.get?_eq_none (((h _ w found).contains machine).trans nowhere)
      simp only [Workstation.receive, noQueue, bind, Except.bind]
      exact ⟨_, rfl⟩

/-- What a factory does not deliver: everything, if one destination is missing. -/
def undelivered (f : Factory σ) (deliveries : List Delivery) : List Delivery :=
  if deliveries.all (f.reaches ·.destination) then [] else deliveries

theorem Consistent.foldlM_deliver (h : f.Consistent) {deliveries : List Delivery}
    (all : ∀ d ∈ deliveries, f.reaches d.destination = true) :
    ∃ f', deliveries.foldlM (fun f d => f.deliver d.answers d.destination) f = .ok f' ∧
      f'.Consistent ∧ f'.held = f.held + Delivery.load deliveries := by
  induction deliveries generalizing f with
  | nil => exact ⟨f, rfl, h, (add_zero _).symm⟩
  | cons d rest ih =>
    rw [List.forall_mem_cons] at all
    obtain ⟨f₁, first, consistent, same, got⟩ := h.deliver all.1 d.answers
    obtain ⟨f₂, others, consistent', got'⟩ :=
      ih consistent fun e member => (same e.destination).trans (all.2 e member)
    refine ⟨f₂, ?_, consistent', ?_⟩
    · simpa [first, bind, Except.bind] using others
    · rw [got', got, Delivery.load_cons, add_assoc]

/-- Routing succeeds exactly when every destination exists, and then all deliveries are made. -/
theorem Consistent.route (h : f.Consistent) (deliveries : List Delivery) :
    (∃ f', f.route deliveries = .ok f' ∧ f'.Consistent ∧ f.undelivered deliveries = [] ∧
        f'.held = f.held + Delivery.load deliveries) ∨
      (∃ cause, f.route deliveries = .error cause) ∧ f.undelivered deliveries = deliveries := by
  unfold Factory.route undelivered
  by_cases all : ∀ d ∈ deliveries, f.reaches d.destination = true
  · left
    obtain ⟨f', made, consistent, got⟩ := h.foldlM_deliver all
    refine ⟨f', ?_, consistent, if_pos (List.all_eq_true.mpr all), got⟩
    simp [forM_checkDestination_eq_ok_iff.mpr all, made, bind, Except.bind]
  · right
    obtain ⟨d, member, nowhere⟩ : ∃ d ∈ deliveries, f.reaches d.destination = false := by
      simpa using all
    obtain ⟨cause, refused⟩ :
        ∃ cause, (deliveries.forM fun d => f.checkDestination d.destination) = .error cause :=
      exists_forM_eq_error_iff.mpr ⟨d, member, checkDestination_of_not_reaches nowhere⟩
    refine ⟨⟨cause, ?_⟩, if_neg (mt List.all_eq_true.mp all)⟩
    simp [refused, bind, Except.bind]

end Factory

end Evolution
