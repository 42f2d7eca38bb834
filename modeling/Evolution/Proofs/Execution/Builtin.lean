import Evolution.Execution.Instruction
import Evolution.Proofs.Execution.Stacks
import Mathlib.Algebra.Group.Int.Defs

/-! What the built-in instructions do to typed stacks. There an instruction finds operands of the kind
that it works on, or too few values; so it takes its operands and pushes its results, or leaves every
stack as it was. -/

namespace Evolution.Instruction

/-- The results of the built-in instructions on their operands. Both are in the order in which they
were or are pushed, so the last operand was on top. An integer result is the one of 64 bits that is
congruent to the exact one. -/
inductive Yields : String → List Value → List Value → Prop
  | add (a b : Int64) :
    Yields "int_add" [.int a, .int b] [.int (.ofInt (a.toInt + b.toInt))]
  | subtract (a b : Int64) :
    Yields "int_subtract" [.int a, .int b] [.int (.ofInt (a.toInt - b.toInt))]
  | multiply (a b : Int64) :
    Yields "int_multiply" [.int a, .int b] [.int (.ofInt (a.toInt * b.toInt))]
  | divide (a b : Int64) :
    Yields "int_divide" [.int a, .int b] [.int (.ofInt (a.toInt.tdiv b.toInt))]
  | pop (a : Int64) : Yields "int_pop" [.int a] []
  | dup (a : Int64) : Yields "int_dup" [.int a] [.int a, .int a]
  | swap (a b : Int64) : Yields "int_swap" [.int a, .int b] [.int b, .int a]
  | equal (a b : Int64) :
    Yields "int_equal" [.int a, .int b] [.bool (decide (a.toInt = b.toInt))]
  | lessThan (a b : Int64) :
    Yields "int_less_than" [.int a, .int b] [.bool (decide (a.toInt < b.toInt))]
  | addFloats (x y : Float) : Yields "float_add" [.float x, .float y] [.float (x + y)]
  | multiplyFloats (x y : Float) : Yields "float_multiply" [.float x, .float y] [.float (x * y)]
  | and (a b : Bool) : Yields "bool_and" [.bool a, .bool b] [.bool (a && b)]
  | or (a b : Bool) : Yields "bool_or" [.bool a, .bool b] [.bool (a || b)]
  | not (a : Bool) : Yields "bool_not" [.bool a] [.bool (!a)]
  | noop : Yields "exec_noop" [] []

/-- The stack of the operands, and how many of them there are. -/
def operands (name : String) : String × Nat :=
  match name with
  | "int_pop" | "int_dup" => ("int", 1)
  | "float_add" | "float_multiply" => ("float", 2)
  | "bool_and" | "bool_or" => ("bool", 2)
  | "bool_not" => ("bool", 1)
  | "exec_noop" => ("exec", 0)
  | _ => ("int", 2)

/-- The quotient does not exist, or is no integer of 64 bits. -/
inductive Undefined : String → List Value → Prop
  | zero (a b : Int64) (h : b.toInt = 0) : Undefined "int_divide" [.int a, .int b]
  | overflow (a b : Int64) (least : a.toInt = -2 ^ 63) (h : b.toInt = -1) :
    Undefined "int_divide" [.int a, .int b]

/-- The instruction changes nothing where an operand is missing or the result is not defined.
Otherwise it takes its operands off their stack and pushes its results, and that is all. -/
structure Clean (i : Instruction) (s : Stacks) : Prop where
  missing : (s.get (operands i.name).1).length < (operands i.name).2 → (i.perform s).Alike s
  undefined : ∀ args rest, s.get (operands i.name).1 = args.reverse ++ rest →
    Undefined i.name args → (i.perform s).Alike s
  defined : ∀ args rest, s.get (operands i.name).1 = args.reverse ++ rest →
    args.length = (operands i.name).2 → ¬Undefined i.name args →
    ∃ results, Yields i.name args results ∧ ∀ kind, (i.perform s).get kind =
      (results.filter (kind = ·.kind)).reverse ++
        if kind = (operands i.name).1 then rest else s.get kind

variable {s : Stacks} {name kind : String} {perform : Stacks → Stacks}

/-- The two ways in which an instruction ends that has taken its operands. -/
inductive Ends (name : String) (args : List Value) (left after : Stacks) : Prop
  | undefined (h : Undefined name args) (back : after.Alike (left.pushAll args))
  | defined (h : ¬Undefined name args) (results : List Value) (yields : Yields name args results)
      (pushed : after.Alike (left.pushAll results))

theorem not_undefined {args : List Value} (h : name ≠ "int_divide") : ¬Undefined name args := by
  rintro (_ | _) <;> contradiction

theorem clean_of_ends {arity : Nat} (typed : s.Typed) (needs : operands name = (kind, arity))
    (short : (s.get kind).length < arity → perform s = s)
    (taken : ∀ args rest, s.get kind = args.reverse ++ rest → args.length = arity →
      ∃ left, (∀ other, left.get other = if other = kind then rest else s.get other) ∧
        Ends name args left (perform s)) :
    Clean ⟨name, perform⟩ s := by
  constructor
  · simp only [needs]
    intro missing other
    rw [short missing]
  · simp only [needs]
    intro args rest found undefined
    have enough : args.length = arity := by
      cases undefined <;> exact (Prod.mk.inj needs).2
    obtain ⟨left, others, ends⟩ := taken args rest found enough
    cases ends with
    | undefined _ back => exact fun other => (back other).trans (typed.alike_pushAll found others other)
    | defined h _ _ _ => exact absurd undefined h
  · simp only [needs]
    intro args rest found enough defined
    obtain ⟨left, others, ends⟩ := taken args rest found enough
    cases ends with
    | undefined h _ => exact absurd h defined
    | defined _ results yields pushed =>
      refine ⟨results, yields, fun other => ?_⟩
      rw [pushed, Stacks.get_pushAll, others]

theorem clean_of_two (typed : s.Typed) (needs : operands name = (kind, 2))
    (short : s.popTwo? kind = none → perform s = s)
    (ends : ∀ under top left, under.kind = kind → top.kind = kind →
      s.popTwo? kind = some (under, top, left) → Ends name [under, top] left (perform s)) :
    Clean ⟨name, perform⟩ s := by
  apply clean_of_ends typed needs
  · exact fun missing => short (Stacks.popTwo?_eq_none missing)
  · intro args rest found two
    obtain ⟨under, top, rfl⟩ := List.length_eq_two.mp two
    obtain ⟨left, taken, others⟩ := Stacks.popTwo?_eq_some found
    have kinds := typed.kinds found
    exact ⟨left, others, ends under top left (kinds under (by simp)) (kinds top (by simp)) taken⟩

theorem clean_of_one (typed : s.Typed) (needs : operands name = (kind, 1))
    (short : s.get kind = [] → perform s = s)
    (ends : ∀ top rest, top.kind = kind → s.get kind = top :: rest →
      Ends name [top] (s.set kind rest) (perform s)) :
    Clean ⟨name, perform⟩ s := by
  apply clean_of_ends typed needs
  · exact fun missing => short (List.length_eq_zero_iff.mp (Nat.lt_one_iff.mp missing))
  · intro args rest found one
    obtain ⟨top, rfl⟩ := List.length_eq_one_iff.mp one
    have same := typed.kinds found top (by simp)
    exact ⟨s.set kind rest, fun other => s.get_set kind other rest, ends top rest same found⟩

theorem clean_onInts {f : Int64 → Int64 → Option Value} (typed : s.Typed)
    (needs : operands name = ("int", 2))
    (result : ∀ a b, match f a b with
      | none => Undefined name [.int a, .int b]
      | some v => ¬Undefined name [.int a, .int b] ∧ Yields name [.int a, .int b] [v]) :
    Clean ⟨name, onInts f⟩ s := by
  apply clean_of_two typed needs
  · intro none
    rw [onInts, none]
  · intro under top left first second taken
    obtain ⟨a, rfl⟩ := Value.eq_int first
    obtain ⟨b, rfl⟩ := Value.eq_int second
    have ends := result a b
    rw [onInts, taken]
    dsimp only
    cases made : f a b with
    | none =>
      rw [made] at ends
      exact .undefined ends fun _ => rfl
    | some v =>
      rw [made] at ends
      exact .defined ends.1 [v] ends.2 fun _ => rfl

theorem clean_onFloats {f : Float → Float → Float} (typed : s.Typed)
    (needs : operands name = ("float", 2))
    (result : ∀ x y, Yields name [.float x, .float y] [.float (f x y)]) :
    Clean ⟨name, onFloats f⟩ s := by
  apply clean_of_two typed needs
  · intro none
    rw [onFloats, none]
  · intro under top left first second taken
    obtain ⟨x, rfl⟩ := Value.eq_float first
    obtain ⟨y, rfl⟩ := Value.eq_float second
    rw [onFloats, taken]
    exact .defined nofun _ (result x y) fun _ => rfl

theorem clean_onBools {f : Bool → Bool → Bool} (typed : s.Typed)
    (needs : operands name = ("bool", 2))
    (result : ∀ a b, Yields name [.bool a, .bool b] [.bool (f a b)]) :
    Clean ⟨name, onBools f⟩ s := by
  apply clean_of_two typed needs
  · intro none
    rw [onBools, none]
  · intro under top left first second taken
    obtain ⟨a, rfl⟩ := Value.eq_bool first
    obtain ⟨b, rfl⟩ := Value.eq_bool second
    rw [onBools, taken]
    exact .defined nofun _ (result a b) fun _ => rfl

theorem clean_swapInts (typed : s.Typed) : Clean ⟨"int_swap", swapInts⟩ s := by
  apply clean_of_two typed rfl
  · intro none
    rw [swapInts, none]
  · intro under top left first second taken
    obtain ⟨a, rfl⟩ := Value.eq_int first
    obtain ⟨b, rfl⟩ := Value.eq_int second
    rw [swapInts, taken]
    exact .defined (not_undefined (by decide)) _ (.swap a b) fun _ => rfl

theorem clean_dropInt (typed : s.Typed) : Clean ⟨"int_pop", dropInt⟩ s := by
  apply clean_of_one typed rfl
  · intro none
    simp [dropInt, Stacks.pop?, none]
  · intro top rest same found
    obtain ⟨a, rfl⟩ := Value.eq_int same
    rw [dropInt, Stacks.pop?_eq_some found]
    exact .defined (not_undefined (by decide)) _ (.pop a) fun _ => rfl

theorem clean_negateBool (typed : s.Typed) : Clean ⟨"bool_not", negateBool⟩ s := by
  apply clean_of_one typed rfl
  · intro none
    simp [negateBool, Stacks.pop?, none]
  · intro top rest same found
    obtain ⟨a, rfl⟩ := Value.eq_bool same
    rw [negateBool, Stacks.pop?_eq_some found]
    exact .defined (not_undefined (by decide)) _ (.not a) fun _ => rfl

theorem clean_doubleInt (typed : s.Typed) : Clean ⟨"int_dup", doubleInt⟩ s := by
  apply clean_of_one typed rfl
  · intro none
    simp [doubleInt, Stacks.top?, none]
  · intro top rest same found
    obtain ⟨a, rfl⟩ := Value.eq_int same
    have looked : doubleInt s = s.push (.int a) := by simp [doubleInt, Stacks.top?, found]
    -- The top is read and not taken; it may as well be taken and put back twice.
    have back : (doubleInt s).Alike ((s.set "int" rest).pushAll [.int a, .int a]) := by
      intro other
      rw [looked, Stacks.get_push, Stacks.get_pushAll, Stacks.get_set]
      by_cases here : other = "int"
      · simp [here, Value.kind, found]
      · simp [here, Value.kind]
    exact .defined (not_undefined (by decide)) _ (.dup a) back

theorem clean_noop (typed : s.Typed) : Clean ⟨"exec_noop", id⟩ s := by
  have needs : operands "exec_noop" = ("exec", 0) := rfl
  apply clean_of_ends typed needs
  · exact fun _ => rfl
  · intro args rest found none
    obtain rfl := List.length_eq_zero_iff.mp none
    refine ⟨s, fun other => ?_, .defined (not_undefined (by decide)) _ .noop fun _ => rfl⟩
    split
    · next same => rw [same, found]; rfl
    · rfl

theorem ofInt_tdiv (a b : Int64) : Int64.ofInt (a.toInt.tdiv b.toInt) = a / b :=
  Int64.toInt_inj.mp (by rw [Int64.toInt_ofInt, Int64.toInt_div])

theorem undefined_divide_iff {a b : Int64} :
    Undefined "int_divide" [.int a, .int b] ↔ b = 0 ∨ (a = Int64.minValue ∧ b = -1) := by
  have zero : b.toInt = 0 ↔ b = 0 := Int64.toInt_inj (y := 0)
  have least : a.toInt = -2 ^ 63 ↔ a = Int64.minValue := Int64.toInt_inj (y := Int64.minValue)
  have one : b.toInt = -1 ↔ b = -1 := Int64.toInt_inj (y := -1)
  rw [← zero, ← least, ← one]
  constructor
  · intro undefined
    cases undefined with
    | zero _ _ none => exact .inl none
    | overflow _ _ low negative => exact .inr ⟨low, negative⟩
  · rintro (none | ⟨low, negative⟩)
    · exact .zero a b none
    · exact .overflow a b low negative

theorem clean_divide (typed : s.Typed) :
    Clean ⟨"int_divide", onInts fun a b => (quotient? a b).map .int⟩ s := by
  refine clean_onInts typed rfl fun a b => ?_
  by_cases undefined : b = 0 ∨ (a = Int64.minValue ∧ b = -1)
  · simpa [quotient?, undefined] using undefined_divide_iff.mpr undefined
  · have yields := Yields.divide a b
    rw [ofInt_tdiv] at yields
    simpa [quotient?, undefined] using ⟨mt undefined_divide_iff.mp undefined, yields⟩

theorem clean_ints {f : Int64 → Int64 → Value} (typed : s.Typed) (needs : operands name = ("int", 2))
    (total : name ≠ "int_divide") (yields : ∀ a b, Yields name [.int a, .int b] [f a b]) :
    Clean ⟨name, onInts fun a b => some (f a b)⟩ s :=
  clean_onInts typed needs fun a b => ⟨not_undefined total, yields a b⟩

theorem yields_equal (a b : Int64) : Yields "int_equal" [.int a, .int b] [.bool (a == b)] := by
  have same : decide (a.toInt = b.toInt) = (a == b) := by
    rw [Bool.eq_iff_iff, decide_eq_true_iff, beq_iff_eq, Int64.toInt_inj]
  exact same ▸ .equal a b

theorem yields_lessThan (a b : Int64) : Yields "int_less_than" [.int a, .int b] [.bool (a < b)] := by
  have same : decide (a.toInt < b.toInt) = decide (a < b) :=
    decide_eq_decide.mpr Int64.lt_iff_toInt_lt.symm
  exact same ▸ .lessThan a b

/-- On typed stacks every built-in instruction is clean. -/
theorem clean_of_typed (typed : s.Typed) : ∀ i ∈ builtin, i.Clean s := by
  simp only [builtin, List.forall_mem_cons, List.not_mem_nil, false_imp_iff, implies_true, and_true]
  exact ⟨clean_ints typed rfl (by decide) fun a b => by simpa using Yields.add a b,
    clean_ints typed rfl (by decide) fun a b => by simpa using Yields.subtract a b,
    clean_ints typed rfl (by decide) fun a b => by simpa using Yields.multiply a b,
    clean_divide typed,
    clean_dropInt typed,
    clean_doubleInt typed,
    clean_swapInts typed,
    clean_ints typed rfl (by decide) yields_equal,
    clean_ints typed rfl (by decide) yields_lessThan,
    clean_onFloats typed rfl .addFloats,
    clean_onFloats typed rfl .multiplyFloats,
    clean_onBools typed rfl .and,
    clean_onBools typed rfl .or,
    clean_negateBool typed,
    clean_noop typed⟩

end Evolution.Instruction
