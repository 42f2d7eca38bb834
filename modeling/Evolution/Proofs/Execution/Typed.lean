import Evolution.Proofs.Execution.Builtin
import Evolution.Proofs.Execution.Run
import Evolution.Proofs.Table

/-! Typed stacks along runs and between them. With built-in instructions alone, whatever callers bind
and push, every value is on the stack of its kind; so each instruction that comes up has operands that
it can use or leaves the stacks as they are. -/

namespace Evolution

/-- Whatever is found in the library is a built-in instruction, under whatever name. -/
def Library.OfBuiltins (l : Library) : Prop :=
  ∀ name i, l.get? name = some i → i ∈ Instruction.builtin

namespace Library.OfBuiltins

variable {l : Library}

theorem register (known : l.OfBuiltins) {i : Instruction} (builtin : i ∈ Instruction.builtin) :
    (l.register i).OfBuiltins := by
  intro name j found
  rw [Library.get?, Library.register, Table.get?_insert] at found
  split at found
  · exact Option.some.inj found ▸ builtin
  · exact known name j found

theorem restrict (known : l.OfBuiltins) {kept : Library} {names : List String}
    (restricted : l.restrict names = .ok kept) : kept.OfBuiltins := by
  intro name i found
  rw [Library.restrict] at restricted
  split at restricted
  · next instructions shrunk =>
    obtain rfl := Except.ok.inj restricted
    exact known name i (Table.get?_of_restrict shrunk found)
  · contradiction

theorem builtin : Library.builtin.OfBuiltins := by
  have registered : ∀ chosen : List Instruction, chosen ⊆ Instruction.builtin → ∀ l : Library,
      l.OfBuiltins → (chosen.foldl Library.register l).OfBuiltins := by
    intro chosen
    induction chosen with
    | nil => exact fun _ _ known => known
    | cons i rest ih =>
      intro within l known
      obtain ⟨first, others⟩ := List.cons_subset.mp within
      exact ih others _ (known.register first)
  exact registered _ (List.Subset.refl _) .empty nofun

end Library.OfBuiltins

theorem Instruction.Clean.typed {i : Instruction} {s : Stacks} (clean : i.Clean s)
    (typed : s.Typed) : (i.perform s).Typed := by
  obtain ⟨missing, undefined, defined⟩ := clean
  generalize operands i.name = needs at missing undefined defined
  obtain ⟨kind, arity⟩ := needs
  by_cases short : (s.get kind).length < arity
  · exact typed.of_alike (missing short)
  let args := ((s.get kind).take arity).reverse
  let rest := (s.get kind).drop arity
  have found : s.get kind = args.reverse ++ rest := by simp [args, rest]
  have enough : args.length = arity := by
    simp only [args, List.length_reverse, List.length_take]
    omega
  -- Results go on the stacks of their kinds, and what is left below them was there before.
  by_cases undef : Undefined i.name args
  · exact typed.of_alike (undefined args rest found undef)
  · obtain ⟨results, -, after⟩ := defined args rest found enough undef
    intro other v member
    rw [after, List.mem_append, List.mem_reverse] at member
    rcases member with pushed | left
    · exact (of_decide_eq_true (List.mem_filter.mp pushed).2).symm
    · split at left
      · next same =>
        subst same
        exact typed other v (List.mem_of_mem_drop left)
      · exact typed other v left

namespace Execution

/-- A run that has not taken a step yet. -/
def started (x : Execution) : Execution := { x with pending := [x.program.root], steps := 0 }

/-- What comes of an execution by calls, in the midst of a run as well as between runs. -/
inductive Reached (first : Execution) : Execution → Prop
  | first : Reached first first
  | bind (name : String) (v : Value) {x : Execution} : Reached first x → Reached first (x.bind name v)
  | push (v : Value) {x : Execution} : Reached first x → Reached first (x.push v)
  | pop (kind : String) {x : Execution} : Reached first x → Reached first (x.pop kind).2
  | reset {x : Execution} : Reached first x → Reached first x.reset
  | start {x : Execution} : Reached first x → Reached first x.started
  | step {x : Execution} {p : Point} {rest : List Point} (next : x.pending = p :: rest) :
    Reached first x → Reached first (x.step p rest)

variable {first x : Execution}

namespace Reached

theorem finish (reached : Reached first x) : Reached first x.finish := by
  induction x using finish.induct with
  | case1 x none => rwa [finish_of_done none]
  | case2 x p rest next ih =>
    rw [finish_of_next next]
    exact ih (reached.step next)

theorem call {i : Interpreter} (reached : Reached first i.execution) (c : Interpreter.Call) :
    Reached first (i.call c).execution := by
  cases c with
  | bind name v => exact reached.bind name v
  | push v => exact reached.push v
  | pop kind => exact reached.pop kind
  | reset => exact reached.reset
  | run => exact reached.start.finish

theorem calls {i : Interpreter} (reached : Reached first i.execution)
    (calls : List Interpreter.Call) : Reached first (calls.foldl Interpreter.call i).execution := by
  induction calls generalizing i with
  | nil => exact reached
  | cons c rest ih => exact ih (reached.call c)

theorem library_eq (reached : Reached first x) : x.library = first.library := by
  induction reached with
  | first => rfl
  | bind _ _ _ ih => exact ih
  | push _ _ ih => exact ih
  | @pop kind x _ ih =>
    obtain ⟨state, popped⟩ := x.exists_pop_eq kind
    rw [popped]
    exact ih
  | reset _ ih => exact ih
  | start _ ih => exact ih
  | step _ _ ih =>
    rw [Execution.step]
    split <;> exact ih

end Reached

theorem typed_pop (typed : x.state.Typed) (kind : String) : (x.pop kind).2.state.Typed := by
  rw [pop]
  match found : x.state.get kind with
  | [] => simpa [Stacks.pop?, found] using typed
  | top :: rest =>
    have kinds : ∀ v ∈ rest, v.kind = kind := fun v member => typed kind v (by simp [found, member])
    simpa [Stacks.pop?, found] using typed.set kinds

theorem typed_effect (known : x.library.OfBuiltins) {s : Stacks} (typed : s.Typed) (p : Point) :
    (x.effect p s).Typed := by
  cases p with
  | block ps => exact typed
  | instruction name =>
    rw [effect]
    split
    · next i found => exact (Instruction.clean_of_typed typed i (known name i found)).typed typed
    · exact typed
  | reference name => exact typed.push _
  | literal note =>
    rw [effect]
    split
    · exact typed.push _
    · exact typed

theorem Reached.typed (known : first.library.OfBuiltins) (typed : first.state.Typed)
    (reached : Reached first x) : x.state.Typed := by
  induction reached with
  | first => exact typed
  | bind _ _ _ ih => exact ih
  | push v _ ih => exact ih.push v
  | pop kind _ ih => exact typed_pop ih kind
  | reset _ _ => exact Stacks.typed_empty
  | start _ ih => exact ih
  | step next reached ih =>
    rw [Execution.step]
    split
    · exact ih
    · exact typed_effect (reached.library_eq ▸ known) ih _

/-- Whatever is called on an interpreter that is made with built-in instructions, every value lies on
the stack of its kind, in the midst of a run as well as between runs. There every built-in instruction
is clean. -/
theorem clean_of_reached {library : Library} (known : library.OfBuiltins) (program : Program)
    (types : Registry) (limit : Nat) :
    let start := Interpreter.new program library types limit
    (∀ calls : List Interpreter.Call,
      Reached start.execution (calls.foldl Interpreter.call start).execution) ∧
    ∀ x, Reached start.execution x →
      x.state.Typed ∧ ∀ i ∈ Instruction.builtin, i.Clean x.state := by
  intro start
  refine ⟨fun calls => Reached.calls .first calls, fun x reached => ?_⟩
  have typed := reached.typed known Stacks.typed_empty
  exact ⟨typed, Instruction.clean_of_typed typed⟩

/-- With two instructions of the built-in ones and a boolean bound to a name. The quotient of 9 and 0
is not defined, so the run leaves both numbers. -/
theorem clean_of_reached_with_two :
    let points : List Point := [.instruction "int_divide", .reference "y", .instruction "bool_not"]
    let calls : List Interpreter.Call :=
      [.push (.int 9), .push (.int 0), .bind "y" (.bool true), .run]
    ∃ library, Library.builtin.restrict ["int_divide", "bool_not"] = .ok library ∧
      library.OfBuiltins ∧
      let start := Interpreter.new ⟨.block points, []⟩ library .builtin 10
      let x := (calls.foldl Interpreter.call start).execution
      x.state.Typed ∧ (∀ i ∈ Instruction.builtin, i.Clean x.state) ∧
        x.state.get "int" = [.int 0, .int 9] ∧ x.state.get "bool" = [.bool false] := by
  intro points calls
  have restricted : Library.builtin.restrict ["int_divide", "bool_not"] = .ok _ := rfl
  have known := Library.OfBuiltins.builtin.restrict restricted
  refine ⟨_, restricted, known, ?_⟩
  intro start x
  obtain ⟨called, reached⟩ := clean_of_reached known ⟨.block points, []⟩ .builtin 10
  obtain ⟨typed, clean⟩ := reached x (called calls)
  exact ⟨typed, clean, by decide +kernel, by decide +kernel⟩

end Execution

end Evolution
