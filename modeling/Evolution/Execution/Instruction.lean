import Evolution.Execution.Stacks

/-!
Instructions. An instruction turns stacks into stacks and never fails: where operands are missing it
leaves everything as it was. The top of a stack is the right operand. Operands of another kind than
their stack would be taken and lost, but every value lives on the stack of its kind.
-/

namespace Evolution

/-- A named change of the stacks. -/
structure Instruction where
  name : String
  perform : Stacks → Stacks

namespace Instruction

/-- Puts the result of a function in the place of two integers. Without a result they go back. -/
def onInts (f : Int64 → Int64 → Option Value) (s : Stacks) : Stacks :=
  match s.popTwo? "int" with
  | none => s
  | some (.int a, .int b, left) =>
    match f a b with
    | some v => left.push v
    | none => (left.push (.int a)).push (.int b)
  | some (_, _, left) => left

def onFloats (f : Float → Float → Float) (s : Stacks) : Stacks :=
  match s.popTwo? "float" with
  | none => s
  | some (.float a, .float b, left) => left.push (.float (f a b))
  | some (_, _, left) => left

def onBools (f : Bool → Bool → Bool) (s : Stacks) : Stacks :=
  match s.popTwo? "bool" with
  | none => s
  | some (.bool a, .bool b, left) => left.push (.bool (f a b))
  | some (_, _, left) => left

/-- The quotient, rounded towards zero, unless the divisor is zero or the quotient has more than 64
bits. -/
def quotient? (a b : Int64) : Option Int64 :=
  if b = 0 ∨ (a = Int64.minValue ∧ b = -1) then none else some (a / b)

def dropInt (s : Stacks) : Stacks :=
  match s.pop? "int" with
  | none => s
  | some (_, left) => left

def doubleInt (s : Stacks) : Stacks :=
  match s.top? "int" with
  | none => s
  | some top => s.push top

def swapInts (s : Stacks) : Stacks :=
  match s.popTwo? "int" with
  | none => s
  | some (a, b, left) => (left.push b).push a

def negateBool (s : Stacks) : Stacks :=
  match s.pop? "bool" with
  | none => s
  | some (.bool b, left) => left.push (.bool (!b))
  | some (_, left) => left

/-- The built-in instructions. Sums, differences and products of integers wrap around at 64 bits. -/
def builtin : List Instruction :=
  [⟨"int_add", onInts fun a b => some (.int (a + b))⟩,
    ⟨"int_subtract", onInts fun a b => some (.int (a - b))⟩,
    ⟨"int_multiply", onInts fun a b => some (.int (a * b))⟩,
    ⟨"int_divide", onInts fun a b => (quotient? a b).map .int⟩,
    ⟨"int_pop", dropInt⟩,
    ⟨"int_dup", doubleInt⟩,
    ⟨"int_swap", swapInts⟩,
    ⟨"int_equal", onInts fun a b => some (.bool (a == b))⟩,
    ⟨"int_less_than", onInts fun a b => some (.bool (a < b))⟩,
    ⟨"float_add", onFloats fun a b => a + b⟩,
    ⟨"float_multiply", onFloats fun a b => a * b⟩,
    ⟨"bool_and", onBools fun a b => a && b⟩,
    ⟨"bool_or", onBools fun a b => a || b⟩,
    ⟨"bool_not", negateBool⟩,
    ⟨"exec_noop", id⟩]

end Instruction

end Evolution
