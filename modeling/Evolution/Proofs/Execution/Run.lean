import Evolution.Execution.Interpreter
import Evolution.Proofs.Point.Tree

/-! Runs as folds. The row of waiting points stands for its pre-order: taking a step removes the first
point of that list and lets it take effect, so a run is the effects of the pre-order in order, cut off
at the limit. -/

namespace Evolution

namespace Execution

/-- What a point turns stacks into, by the kind of point. -/
inductive Acts (x : Execution) : Point → Stacks → Stacks → Prop
  | block (contents : List Point) (s : Stacks) : x.Acts (.block contents) s s
  | builtin {name : String} {i : Instruction} (known : x.library.get? name = some i) (s : Stacks) :
      x.Acts (.instruction name) s (i.perform s)
  | unknown {name : String} (missing : x.library.get? name = none) (s : Stacks) :
      x.Acts (.instruction name) s s
  | bound {name : String} {v : Value} (found : x.bindings.get? name = some v) (s : Stacks) :
      x.Acts (.reference name) s (s.push v)
  | unbound {name : String} (free : x.bindings.get? name = none) (s : Stacks) :
      x.Acts (.reference name) s (s.push (.name name))
  | value {note : Footnote} {v : Value} (reads : x.types.read note.tag note.text = .ok v)
      (s : Stacks) : x.Acts (.literal note) s (s.push v)
  | unreadable {note : Footnote} {cause : LiteralError}
      (fails : x.types.read note.tag note.text = .error cause) (s : Stacks) :
      x.Acts (.literal note) s s

theorem acts_effect (x : Execution) (p : Point) (s : Stacks) : x.Acts p s (x.effect p s) := by
  cases p with
  | block contents => exact .block contents s
  | instruction name =>
    simp only [effect]
    split
    · next found => exact .builtin found s
    · next missing => exact .unknown missing s
  | reference name =>
    cases found : x.bindings.get? name with
    | none => simpa only [effect, found, Option.getD_none] using Acts.unbound found s
    | some v => simpa only [effect, found, Option.getD_some] using Acts.bound found s
  | literal note =>
    simp only [effect]
    split
    · next reads => exact .value reads s
    · next fails => exact .unreadable fails s

/-- There is one thing that a point does to given stacks. -/
theorem Acts.eq_effect {x : Execution} {p : Point} {s t : Stacks} (h : x.Acts p s t) :
    t = x.effect p s := by
  cases h with
  | block => rfl
  | builtin known => simp only [effect, known]
  | unknown missing => simp only [effect, missing]
  | bound found => simp only [effect, found, Option.getD_some]
  | unbound free => simp only [effect, free, Option.getD_none]
  | value reads => simp only [effect, reads]
  | unreadable fails => simp only [effect, fails]

theorem acts_iff {x : Execution} {p : Point} {s t : Stacks} : x.Acts p s t ↔ t = x.effect p s :=
  ⟨Acts.eq_effect, fun same => same ▸ x.acts_effect p s⟩

/-- What points do to the stacks, one after the other. -/
def effects (x : Execution) (ps : List Point) : Stacks :=
  ps.foldl (fun s p => x.effect p s) x.state

/-- The outcome of the points that wait. -/
def settled (x : Execution) : Execution :=
  { x with
    pending := []
    state := x.effects ((Point.preorders x.pending).take (x.limit - x.steps))
    steps := x.steps + min (x.limit - x.steps) (Point.sizes x.pending) }

/-- A step does not change the outcome. -/
theorem settled_step {x : Execution} {p : Point} {rest : List Point} (next : x.pending = p :: rest) :
    (x.step p rest).settled = x.settled := by
  have row : Point.preorders x.pending = p :: Point.preorders (p.contents ++ rest) := by
    rw [next, Point.preorders, Point.preorder_eq_cons, Point.preorders_append]
    rfl
  have count : Point.sizes x.pending = Point.sizes (p.contents ++ rest) + 1 := by
    rw [next, Point.sizes, Point.size_eq_succ_sizes, Point.sizes_append]
    omega
  by_cases spent : x.limit ≤ x.steps
  · have none : x.limit - x.steps = 0 := Nat.sub_eq_zero_of_le spent
    have cleared : x.step p rest = { x with pending := [] } := if_pos spent
    simp [cleared, settled, none, effects]
  · obtain ⟨left, some⟩ : ∃ left, x.limit - x.steps = left + 1 :=
      ⟨x.limit - x.steps - 1, by omega⟩
    have fewer : x.limit - (x.steps + 1) = left := by omega
    have taken : x.step p rest =
        { x with
          pending := p.contents ++ rest
          state := x.effect p x.state
          steps := x.steps + 1 } := if_neg spent
    have steps : x.steps + 1 + min left (Point.sizes (p.contents ++ rest)) =
        x.steps + min (left + 1) (Point.sizes (p.contents ++ rest) + 1) := by omega
    simp only [settled, taken, row, count, some, fewer, steps, List.take_succ_cons]
    rfl

theorem finish_of_done {x : Execution} (none : x.pending = []) : x.finish = x := by
  rw [finish.eq_def]
  split
  · rfl
  · simp_all

theorem finish_of_next {x : Execution} {p : Point} {rest : List Point}
    (next : x.pending = p :: rest) : x.finish = (x.step p rest).finish := by
  rw [finish.eq_def]
  split
  · simp_all
  · next q others same =>
    rw [next] at same
    obtain ⟨rfl, rfl⟩ := List.cons.inj same
    rfl

theorem finish_eq_settled (x : Execution) : x.finish = x.settled := by
  induction x using finish.induct with
  | case1 x none =>
    rw [finish_of_done none]
    cases x
    simp_all [settled, effects, Point.preorders, Point.sizes]
  | case2 x p rest next ih => rw [finish_of_next next, ih, settled_step next]

/-- Taking the top of a stack changes the stacks only. -/
theorem exists_pop_eq (x : Execution) (kind : String) :
    ∃ state, (x.pop kind).2 = { x with state } := by
  unfold pop
  split
  · exact ⟨x.state, rfl⟩
  · exact ⟨_, rfl⟩

end Execution

namespace Interpreter

/-- What callers may do between runs, and the run itself. -/
inductive Call where
  | bind (name : String) (v : Value)
  | push (v : Value)
  | pop (kind : String)
  | reset
  | run

def call (i : Interpreter) : Call → Interpreter
  | .bind name v => { i with execution := i.execution.bind name v }
  | .push v => { i with execution := i.execution.push v }
  | .pop kind => { i with execution := (i.execution.pop kind).2 }
  | .reset => i.reset
  | .run => i.run

/-- A call changes nothing of what an interpreter is made with. -/
theorem call_fixed (i : Interpreter) (c : Call) : (i.call c).sensors = i.sensors ∧
    (i.call c).execution.program = i.execution.program ∧
    (i.call c).execution.library = i.execution.library ∧
    (i.call c).execution.types = i.execution.types ∧
    (i.call c).execution.limit = i.execution.limit := by
  cases c with
  | bind name v => exact ⟨rfl, rfl, rfl, rfl, rfl⟩
  | push v => exact ⟨rfl, rfl, rfl, rfl, rfl⟩
  | pop kind =>
    obtain ⟨state, popped⟩ := i.execution.exists_pop_eq kind
    simp [call, popped]
  | reset => exact ⟨rfl, rfl, rfl, rfl, rfl⟩
  | run =>
    simp [call, run, Execution.run, Execution.finish_eq_settled, Execution.settled]

/-- An interpreter as it is made, with the parts of another one. -/
def renewed (i : Interpreter) : Interpreter :=
  let x := i.execution
  ⟨.new x.program x.library x.types x.limit, i.sensors⟩

theorem renewed_call (i : Interpreter) (c : Call) : (i.call c).renewed = i.renewed := by
  obtain ⟨sensors, program, library, types, limit⟩ := i.call_fixed c
  simp only [renewed, sensors, program, library, types, limit]

theorem renewed_calls (i : Interpreter) (calls : List Call) :
    (calls.foldl call i).renewed = i.renewed := by
  induction calls generalizing i with
  | nil => rfl
  | cons c calls ih => rw [List.foldl_cons, ih, renewed_call]

/-- After any calls, a run folds the stacks over the first points of the pre-order, as many as the
limit allows. What a point does to them is what its kind says and nothing else, and a value that is
pushed comes on top of the stack of its kind. No point is left waiting and nothing else changes; a
reset takes back whatever the calls did. -/
theorem run_eq_foldl_preorder (start : Interpreter) (calls : List Call) :
    let i := calls.foldl call start
    let x := i.execution
    i.run.execution =
        { x with
          state := (x.program.root.preorder.take x.limit).foldl (fun s p => x.effect p s) x.state
          steps := min x.limit x.program.size
          pending := [] } ∧
      (∀ p s t, x.Acts p s t ↔ t = x.effect p s) ∧
      (∀ (s : Stacks) (v : Value) (kind : String),
        (s.push v).get kind = if kind = v.kind then v :: s.get kind else s.get kind) ∧
      i.run.sensors = i.sensors ∧ i.reset = start.renewed := by
  intro i x
  refine ⟨?_, fun _ _ _ => Execution.acts_iff, fun s v kind => ?_, rfl, ?_⟩
  · have tree : Point.preorders [x.program.root] = x.program.root.preorder := by
      simp [Point.preorders]
    have count : Point.sizes [x.program.root] = x.program.size := by
      simp [Point.sizes, Program.size]
    change x.run = _
    rw [Execution.run, Execution.finish_eq_settled]
    simp only [Execution.settled, tree, count, Nat.sub_zero, Nat.zero_add]
    rfl
  · rw [Stacks.push, Stacks.get_set]
    split
    · next same => rw [same]
    · rfl
  · exact start.renewed_calls calls

/-- The limit cuts the inner block: of the six points the first five take effect, among them a name
that nothing is bound to, a bound one, and a literal of no type. -/
theorem run_eq_foldl_preorder_of_nested :
    let program := Program.ofPoint (.block [.reference "free",
      .block [.literal ⟨"no type", "1"⟩, .reference "bound", .instruction "bool_not"]])
    let i := [Call.push (.bool true), .bind "bound" (.bool false)].foldl call
      (.new program .builtin .empty 5)
    let done := i.run.execution
    done.state.get "bool" = [.bool false, .bool true] ∧ done.state.get "name" = [.name "free"] ∧
      done.steps = 5 ∧ done.pending = [] := by
  intro program i done
  obtain ⟨settled, -⟩ := run_eq_foldl_preorder (.new program .builtin .empty 5)
    [.push (.bool true), .bind "bound" (.bool false)]
  have outcome : done = _ := settled
  rw [outcome]
  exact ⟨rfl, rfl, rfl, rfl⟩

end Interpreter

end Evolution
