import Evolution.Proofs.Factory.Requests

/-! Deliveries as a whole. The check of a destination looks for a machine, the delivery for a queue. In
every factory that callers can come to they agree, so a list of deliveries that passes the check is
made without a refusal half-way, and one that does not changes nothing. -/

namespace Evolution.Factory

open Delivery (addressed)

variable {σ : Type} {f f' : Factory σ}

/-- Deliveries one after the other, each in its place. A refusal leaves those before it made. -/
def deliverInPlace (f : Factory σ) :
    List Delivery → Factory σ × Except ConfigurationError Unit
  | [] => (f, .ok ())
  | d :: rest =>
    match f.deliver d.answers d.destination with
    | .error cause => (f, .error cause)
    | .ok f' => f'.deliverInPlace rest

/-- Deliveries in their places after the check of all destinations. -/
def routeInPlace (f : Factory σ) (deliveries : List Delivery) :
    Factory σ × Except ConfigurationError Unit :=
  match deliveries.forM fun d => f.checkDestination d.destination with
  | .error cause => (f, .error cause)
  | .ok () => f.deliverInPlace deliveries

/-- Some destination does not exist, and the first of them is refused for this cause. -/
def BreaksAt (f : Factory σ) (deliveries : List Delivery) (cause : ConfigurationError) : Prop :=
  ∃ before d after, deliveries = before ++ d :: after ∧
    (∀ b ∈ before, f.checkDestination b.destination = .ok ()) ∧
    f.checkDestination d.destination = .error cause

theorem deliverInPlace_of_foldlM {deliveries : List Delivery}
    (made : deliveries.foldlM (fun f d => f.deliver d.answers d.destination) f = .ok f') :
    f.deliverInPlace deliveries = (f', .ok ()) := by
  induction deliveries generalizing f with
  | nil =>
    obtain rfl := Except.ok.inj made
    rfl
  | cons d rest ih =>
    rw [List.foldlM_cons] at made
    obtain ⟨g, first, made⟩ := bind_eq_ok_iff.mp made
    rw [deliverInPlace, first]
    exact ih made

/-- The check asks for a machine and the delivery for a queue, under the names that are filed and that
are reported. -/
theorem Sound.map_deliver (h : f.Sound) (answers : List Answer) (d : Destination) :
    (f.deliver answers d).map (fun _ => ()) = f.checkDestination d := by
  unfold Factory.deliver Factory.modify checkDestination workstation
  cases found : f.workstations.get? d.workstation with
  | none => rfl
  | some w =>
    cases target : d.machine with
    | none => rfl
    | some machine =>
      have filed : w.queues.contains machine = w.hasMachine machine :=
        (h.consistent _ w found).contains machine
      rw [Table.contains_eq_isSome] at filed
      cases queued : w.queues.get? machine with
      | none =>
        rw [queued] at filed
        simp [bind, Except.bind, Except.map, Workstation.receive, queued, ← filed, Workstation.unknown,
          h.named _ w found, throw, throwThe, MonadExceptOf.throw]
      | some queue =>
        rw [queued] at filed
        simp [bind, Except.bind, Except.map, pure, Except.pure, Workstation.receive, queued, ← filed]

theorem Sound.route_eq_error_iff (h : f.Sound) {deliveries : List Delivery}
    {cause : ConfigurationError} : f.route deliveries = .error cause ↔ f.BreaksAt deliveries cause := by
  have first : (deliveries.forM fun d => f.checkDestination d.destination) = .error cause ↔
      f.BreaksAt deliveries cause := forM_eq_error_iff
  rw [← first]
  cases checked : deliveries.forM fun d => f.checkDestination d.destination with
  | error other => simp [Factory.route, checked, bind, Except.bind]
  | ok _ =>
    obtain ⟨f', made⟩ := h.exists_route (forM_checkDestination_eq_ok_iff.mp checked)
    simp [made]

theorem Sound.routeInPlace_eq (h : f.Sound) (deliveries : List Delivery) :
    f.routeInPlace deliveries =
      match f.route deliveries with
      | .error cause => (f, .error cause)
      | .ok f' => (f', .ok ()) := by
  rw [routeInPlace]
  cases checked : deliveries.forM fun d => f.checkDestination d.destination with
  | error cause => simp [Factory.route, checked, bind, Except.bind]
  | ok _ =>
    obtain ⟨f', made, _⟩ := h.consistent.foldlM_deliver (forM_checkDestination_eq_ok_iff.mp checked)
    simp [Factory.route, checked, made, bind, Except.bind, deliverInPlace_of_foldlM made]

/-- What callers can rely on when they deliver. -/
structure DeliveryLaw (f : Factory σ) : Prop where
  /-- There is a queue for each machine and for nothing else. -/
  queues : ∀ station w, f.workstations.get? station = some w → w.queues.names = w.machines.names
  named : ∀ station w, f.workstations.get? station = some w → w.name = station
  agree : ∀ answers d, (f.deliver answers d).map (fun _ => ()) = f.checkDestination d
  /-- Several deliveries are made in their order, each behind what waits at its destination. -/
  delivered : ∀ deliveries f', f.routeInPlace deliveries = (f', .ok ()) →
    (∀ e ∈ deliveries, f.checkDestination e.destination = .ok ()) ∧
    f'.machine? = f.machine? ∧ ∀ d, f'.contents d = f.contents d ++ addressed d deliveries
  /-- Or none is made, for the cause of the first broken destination. -/
  refused : ∀ deliveries f' cause, f.routeInPlace deliveries = (f', .error cause) ↔
    f' = f ∧ f.BreaksAt deliveries cause
  inPlace : ∀ deliveries, f.routeInPlace deliveries =
    match f.route deliveries with
    | .error cause => (f, .error cause)
    | .ok f' => (f', .ok ())

theorem Reached.deliveryLaw [Stage σ] (h : f.Reached) : f.DeliveryLaw := by
  have sound := h.sound
  refine ⟨fun station w found => (sound.consistent station w found).queues, sound.named,
    sound.map_deliver, fun deliveries f' done => ?_, fun deliveries f' cause => ?_,
    sound.routeInPlace_eq⟩
  · rw [sound.routeInPlace_eq] at done
    cases routed : f.route deliveries with
    | error cause =>
      rw [routed] at done
      cases done
    | ok g =>
      rw [routed] at done
      obtain ⟨rfl, _⟩ := Prod.mk.inj done
      obtain ⟨_, checked, _⟩ := bind_eq_ok_iff.mp routed
      obtain ⟨_, _, floor⟩ := sound.route routed
      refine ⟨forM_eq_ok_iff.mp checked, congrArg Floor.machine? floor, fun d => ?_⟩
      exact congrFun (congrArg Floor.contents floor) d
  · rw [sound.routeInPlace_eq, ← sound.route_eq_error_iff]
    cases f.route deliveries <;> simp [eq_comm]

/-- Three deliveries to a machine and an inbox, and a fourth to a machine that nobody added. -/
theorem deliveryLaw_of_two_places :
    let m : Machine CustomStage := .new "m" "w" (.hold ["out"]) {}
    let f := ((Ledger.bareFactory.request (.build "w")).factory.request
      (.add "w" m (.new ..))).factory
    let a := Answer.new ⟨1⟩ .epoch .empty
    let b := Answer.new ⟨2⟩ .epoch .empty
    let machine : Destination := ⟨"w", some "m"⟩
    let inbox : Destination := ⟨"w", none⟩
    let good : List Delivery := [⟨"p", machine, [a]⟩, ⟨"p", inbox, [b]⟩, ⟨"q", machine, [b, a]⟩]
    f.DeliveryLaw ∧
      (∃ f', f.routeInPlace good = (f', .ok ()) ∧ f'.contents machine = [a, b, a] ∧
        f'.contents inbox = [b]) ∧
      f.routeInPlace (good ++ [⟨"p", ⟨"w", some "x"⟩, [a]⟩]) =
        (f, .error (.unknownMachine "w" "x")) := by
  intro m f a b machine inbox good
  have law : f.DeliveryLaw :=
    Reached.deliveryLaw (.request (.request (.bare rfl) (.build "w")) (.add "w" m (.new ..)))
  have accepted : (f.routeInPlace good).2 = .ok () := by rfl
  have made : f.routeInPlace good = ((f.routeInPlace good).1, .ok ()) := Prod.ext rfl accepted
  obtain ⟨_, _, contents⟩ := law.delivered good _ made
  refine ⟨law, ⟨_, made, ?_, ?_⟩, ?_⟩
  · rw [contents]
    decide +kernel
  · rw [contents]
    decide +kernel
  · exact (law.refused _ _ _).mpr ⟨rfl, good, _, [], rfl, by decide +kernel, rfl⟩

end Evolution.Factory
