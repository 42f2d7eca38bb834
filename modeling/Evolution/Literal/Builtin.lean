import Evolution.Decimal.Notation
import Evolution.Decimal.Reading
import Evolution.Draw.Real
import Evolution.Generation.Code
import Evolution.Literal.Registry

/-!
The built-in literal types. Integers have 64 bits and floats are finite; both are read with blanks
around them. A blend of two numbers lies between them, a blend of two truth values or two programs
is one of the two. Random code has no literals, so it fits on one line.
-/

namespace Evolution.LiteralType

/-- The integer that a text stands for, blanks around it apart. -/
def readInt? (text : String) : Option Int64 := Decimal.readInt64? (Text.trim text.toList)

/-- The float that a text stands for, blanks around it apart. -/
def readFloat? (text : String) : Option Float := Decimal.readFloat? (Text.trim text.toList)

def sortedInts (a b : Int64) : Int64 × Int64 := if b < a then (b, a) else (a, b)

/-- The lesser and the greater of two floats. What is not a number gives way to the other one. -/
def sortedFloats (a b : Float) : Float × Float :=
  if a.isNaN then (b, b) else if b.isNaN then (a, a) else if b < a then (b, a) else (a, b)

/-- An integer between two, as a text. -/
def intBetween (a b : Int64) : Draw String := do
  let (lo, hi) := sortedInts a b
  return String.ofList (Decimal.writeInt (← Draw.int64Between lo hi).toInt)

/-- One of two texts, with equal chances. -/
def either (a b : String) : Draw String := do
  return if ← Draw.chance (Float.ofScientific 5 true 1) then a else b

def int : LiteralType where
  name := "int"
  read? text := (readInt? text).map .int
  random o := intBetween o.intRange.1 o.intRange.2
  blend a b :=
    match readInt? a, readInt? b with
    | some x, some y => intBetween x y
    | _, _ => return a

def float : LiteralType where
  name := "float"
  read? text := ((readFloat? text).filter (·.isFinite)).map .float
  random o := do
    let (lo, hi) := sortedFloats o.floatRange.1 o.floatRange.2
    return Decimal.write .literal (← Draw.floatBetween lo hi)
  blend a b :=
    match (readFloat? a).filter (·.isFinite), (readFloat? b).filter (·.isFinite) with
    | some x, some y => do return Decimal.write .literal (x + (← Draw.unit) * (y - x))
    | _, _ => return a

/-- A probability brought into the bounds of zero and one. -/
def clampChance (p : Float) : Float := if p < 0 then 0 else if 1 < p then 1 else p

def bool : LiteralType where
  name := "bool"
  read? text :=
    match Text.trimmed text with
    | "true" => some (.bool true)
    | "false" => some (.bool false)
    | _ => none
  random o := do return if ← Draw.chance (clampChance o.trueChance) then "true" else "false"
  blend := either

def code : LiteralType where
  name := "code"
  read? text :=
    match Program.parse text with
    | .ok p => some (.code p)
    | .error _ => none
  random o := do
    return String.ofList (← randomPoint { o with types := [] } .empty (max o.size 1)).compact
  blend := either

end Evolution.LiteralType

namespace Evolution.Registry

def builtin : Registry :=
  (((empty.register .int).register .float).register .bool).register .code

end Evolution.Registry
