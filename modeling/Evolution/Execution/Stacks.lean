import Evolution.Table
import Evolution.Value

/-!
The stacks of a run, one for each kind of value. The top of a stack comes first. A stack that was
never pushed on is empty.
-/

namespace Evolution

/-- Stacks under the names of their kinds. -/
structure Stacks where
  table : Table (List Value)

namespace Stacks

def empty : Stacks := ⟨.empty⟩

/-- A stack, its top first. -/
def get (s : Stacks) (kind : String) : List Value := (s.table.get? kind).getD []

def set (s : Stacks) (kind : String) (stack : List Value) : Stacks := ⟨s.table.insert kind stack⟩

/-- Puts a value on top of the stack of its kind. -/
def push (s : Stacks) (v : Value) : Stacks := s.set v.kind (v :: s.get v.kind)

def pop? (s : Stacks) (kind : String) : Option (Value × Stacks) :=
  match s.get kind with
  | [] => none
  | top :: rest => some (top, s.set kind rest)

/-- Takes two values off a stack, if it has as many: the lower one comes first. -/
def popTwo? (s : Stacks) (kind : String) : Option (Value × Value × Stacks) := do
  let (top, s) ← s.pop? kind
  let (under, s) ← s.pop? kind
  return (under, top, s)

def top? (s : Stacks) (kind : String) : Option Value := (s.get kind).head?

def depth (s : Stacks) (kind : String) : Nat := (s.get kind).length

/-- A stack that was replaced is found as it was given, the others are as before. -/
theorem get_set (s : Stacks) (kind other : String) (stack : List Value) :
    (s.set kind stack).get other = if other = kind then stack else s.get other := by
  unfold get set
  rw [Table.get?_insert]
  split <;> rfl

end Stacks

end Evolution
