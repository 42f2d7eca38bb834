import Evolution.Execution.Instruction

/-!
Libraries: the instructions that programs may use, under their names.
-/

namespace Evolution

/-- A name that is no instruction of the library. -/
structure UnknownInstruction where
  name : String
deriving DecidableEq, Inhabited

def UnknownInstruction.message (e : UnknownInstruction) : String :=
  s!"unknown instruction: {e.name}"

/-- Instructions by name. -/
structure Library where
  instructions : Table Instruction

namespace Library

def empty : Library := ⟨.empty⟩

/-- The library with one more instruction, or with another one of its name. -/
def register (l : Library) (i : Instruction) : Library := ⟨l.instructions.insert i.name i⟩

def builtin : Library := Instruction.builtin.foldl register empty

def get? (l : Library) (name : String) : Option Instruction := l.instructions.get? name

def contains (l : Library) (name : String) : Bool := l.instructions.contains name

def names (l : Library) : List String := l.instructions.names

/-- The library of the named instructions alone. The first unknown name is refused. -/
def restrict (l : Library) (names : List String) : Except UnknownInstruction Library :=
  match l.instructions.restrict names with
  | .ok instructions => .ok ⟨instructions⟩
  | .error name => .error ⟨name⟩

end Library

end Evolution
