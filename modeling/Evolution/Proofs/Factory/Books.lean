import Evolution.Proofs.Factory.Counters

/-! Books of a floor. With built-in stages whose paths lead somewhere, what waits at a destination,
was taken in there or was taken away is what was delivered there or counted as sent there, and every
turn keeps it so. -/

namespace Evolution

open Delivery (addressed)

namespace Floor

variable {σ : Type} {s : Floor σ} {t : Turn σ} {places : List Destination}

/-- What the machine at a destination counts as taken in. -/
def received (s : Floor σ) (d : Destination) : Nat := (s.machine? d).elim 0 (·.stats.received)

/-- What the machines at some places count as sent to a destination. -/
def inflow (s : Floor σ) (places : List Destination) (d : Destination) : Nat :=
  (places.map fun place => (s.machine? place).elim 0 (·.sentTo d)).sum

variable [Stage σ]

theorem inflow_after (distinct : places.Nodup) (there : t.place ∈ places)
    (found : s.machine? t.place = some t.machine) (booked : t.Booked) (d : Destination) :
    (s.after t).inflow places d = s.inflow places d + (addressed d t.sent).length := by
  -- Only the machine of the turn counts more than before, and its place comes once.
  let more : Destination → Nat := fun place =>
    if place = t.place then (addressed d t.sent).length else 0
  have only : ∀ place ≠ t.place, place ∈ places → more place = 0 := fun _ other _ => if_neg other
  have once : (places.map more).sum = (addressed d t.sent).length := by
    rw [List.sum_map_eq_nsmul_single t.place more only, List.count_eq_one_of_mem distinct there,
      one_nsmul]
    exact if_pos rfl
  rw [← once, inflow, inflow, ← List.sum_map_add]
  congr 2
  funext place
  by_cases here : place = t.place
  · simp [more, here, (s.after_place t).1, found, booked.sent d]
  · simp [more, here, (s.after_of_ne (Ne.symm here)).1]

end Floor

/-- The counters of machines with built-in stages, told by what was delivered and taken at each
destination and by the turns. -/
structure Floor.Books (s : Floor Work) (places : List Destination)
    (delivered taken : Destination → Nat) (turns : List (Turn Work)) : Prop where
  flow : ∀ d, (s.contents d).length + s.received d + taken d = delivered d + s.inflow places d
  machines : ∀ d m, s.machine? d = some m →
    m.PassesOn ∧ m.stats.runs = turns.countP fun t => t.place = d ∧ t.call.run.outcome.isOk

namespace Floor

variable {s : Floor Work} {t : Turn Work} {places : List Destination}
  {delivered taken : Destination → Nat} {turns : List (Turn Work)} {reached : Destination → Bool}

theorem Books.after (h : s.Books places delivered taken turns) (distinct : places.Nodup)
    (there : t.place ∈ places) (found : s.machine? t.place = some t.machine)
    (input : t.input = s.contents t.place) (idle : t.machine.state = .idle)
    (wired : t.machine.Wired reached) :
    (s.after t).Books places delivered taken (turns ++ [t]) := by
  obtain ⟨passes, runs⟩ := h.machines t.place t.machine found
  obtain ⟨booked, passes'⟩ := Turn.booked_of_passesOn idle wired passes
  obtain ⟨machine, contents⟩ := s.after_place t
  constructor
  · intro d
    have balance := h.flow d
    rw [inflow_after distinct there found booked d]
    by_cases here : d = t.place
    · subst here
      have took := booked.received
      rw [received, machine, contents]
      rw [received, found, ← input] at balance
      simp only [Option.elim_some, List.length_append] at balance ⊢
      omega
    · obtain ⟨machine', contents'⟩ := s.after_of_ne (Ne.symm here)
      rw [received] at balance ⊢
      rw [machine', contents', List.length_append]
      omega
  · intro d m found'
    rw [List.countP_append, List.countP_singleton]
    by_cases here : d = t.place
    · subst here
      obtain rfl := Option.some.inj (machine.symm.trans found')
      refine ⟨passes', ?_⟩
      rw [booked.runs, runs]
      simp
    · rw [(s.after_of_ne (Ne.symm here)).1] at found'
      simpa [Ne.symm here] using h.machines d m found'

theorem Books.shift (h : s.Books places delivered taken turns) (distinct : places.Nodup)
    {supply : Supply} {stops : List Destination} (once : stops.Nodup) (within : ∀ d ∈ stops, d ∈ places)
    (ready : ∀ d ∈ stops, ∀ m, s.machine? d = some m → m.state = .idle ∧ m.Wired reached) :
    (s.shift supply stops).floor.Books places delivered taken
      (turns ++ (s.shift supply stops).turns) := by
  fun_induction Floor.shift s supply stops generalizing turns with
  | case1 s supply => simpa using h
  | case2 s supply place rest none ih =>
    exact ih h once.of_cons (fun d member => within d (List.mem_cons_of_mem _ member))
      fun d member => ready d (List.mem_cons_of_mem _ member)
  | case3 s supply place rest t next cause failed =>
    obtain ⟨rfl, _, found, input⟩ := turn?_eq_some next
    obtain ⟨idle, wired⟩ := ready t.place List.mem_cons_self t.machine found
    exact h.after distinct (within t.place List.mem_cons_self) found input idle wired
  | case4 s supply place rest t next sent went ih =>
    obtain ⟨rfl, _, found, input⟩ := turn?_eq_some next
    obtain ⟨idle, wired⟩ := ready t.place List.mem_cons_self t.machine found
    have later := h.after distinct (within t.place List.mem_cons_self) found input idle wired
    rw [FloorRun.precededBy, List.append_cons]
    -- The turn leaves the machines at the other places alone, so they are still ready.
    refine ih later once.of_cons (fun d member => within d (List.mem_cons_of_mem _ member)) ?_
    intro d member m found'
    have other : t.place ≠ d := fun same => (List.nodup_cons.mp once).1 (same ▸ member)
    rw [(s.after_of_ne other).1] at found'
    exact ready d (List.mem_cons_of_mem _ member) m found'

theorem Books.deliver (h : s.Books places delivered taken turns) (deliveries : List Delivery) :
    (s.deliver deliveries).Books places (fun d => delivered d + (addressed d deliveries).length) taken
      turns := by
  refine ⟨fun d => ?_, h.machines⟩
  have balance := h.flow d
  change (s.contents d ++ addressed d deliveries).length + s.received d + taken d =
    delivered d + (addressed d deliveries).length + s.inflow places d
  rw [List.length_append]
  omega

theorem Books.take (h : s.Books places delivered taken turns) (e : Destination) :
    (Floor.mk s.machine? (Function.update s.contents e [])).Books places delivered
      (fun d => taken d + if d = e then (s.contents e).length else 0) turns := by
  refine ⟨fun d => ?_, h.machines⟩
  have balance := h.flow d
  change (Function.update s.contents e [] d).length + s.received d +
    (taken d + if d = e then (s.contents e).length else 0) = delivered d + s.inflow places d
  by_cases here : d = e
  · subst here
    simp only [Function.update_self, List.length_nil, if_true]
    omega
  · simpa [here] using balance

end Floor

end Evolution
