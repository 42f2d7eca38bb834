import Evolution.Decimal.Notation
import Evolution.Program.Basic

/-!
Values that programs compute with. Each has a kind, and the kind is the name of the stack on which
the value lives.
-/

namespace Evolution

/-- A value on a stack. -/
inductive Value where
  | int (n : Int64)
  | float (x : Float)
  | bool (b : Bool)
  | code (p : Program)
  /-- A name that nothing is bound to. -/
  | name (text : String)
deriving DecidableEq, Inhabited

namespace Value

def kind : Value → String
  | int _ => "int"
  | float _ => "float"
  | bool _ => "bool"
  | code _ => "code"
  | name _ => "name"

/-- The number that a value stands for, as a float. -/
def toFloat? : Value → Option Float
  | int n => some (Float.ofInt n.toInt)
  | float x => some x
  | _ => none

def toInt? : Value → Option Int64
  | int n => some n
  | _ => none

def toBool? : Value → Option Bool
  | bool b => some b
  | _ => none

/-- Whether two values count as equal. Floats are compared as numbers: the two zeros are equal, and
what is not a number equals nothing. -/
def agrees : Value → Value → Bool
  | int m, int n => m == n
  | float x, float y => x == y
  | bool a, bool b => a == b
  | code p, code q => decide (p = q)
  | name a, name b => a == b
  | _, _ => false

/-- The value for people to read. Code is on one line, without its literal texts. -/
def display : Value → String
  | int n => String.ofList (Decimal.writeInt n.toInt)
  | float x => Decimal.write .display x
  | bool b => if b then "true" else "false"
  | code p => String.ofList p.root.compact
  | name text => text

end Value

end Evolution
