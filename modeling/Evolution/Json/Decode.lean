import Evolution.Json.Basic

/-!
Reading typed values out of JSON. A record is an object with a set of known fields: a known field
may stand once, the values of other members are passed over, whatever they are. An integer field
refuses a number with a fraction or an exponent; a float field takes integers too.
-/

namespace Evolution.Json

def bool? : Json → Option Bool
  | .bool value => some value
  | _ => none

def text? : Json → Option String
  | .text value => some value
  | _ => none

/-- A count: an integer from zero up. -/
def nat? : Json → Option Nat
  | .natural n => some n.toNat
  | _ => none

/-- An integer of 64 bits. -/
def int64? : Json → Option Int64
  | .natural n => if n.toNat ≤ Int64.maxValue.toInt then some (Int64.ofInt n.toNat) else none
  | .negative n => some n
  | _ => none

/-- A float; an integer is rounded to the nearest. -/
def float? : Json → Option Float
  | .natural n => some (Float.ofNat n.toNat)
  | .negative n => some (Float.ofInt n.toInt)
  | .real x => if x.isFinite then some x else none
  | _ => none

def list? {α : Type} (item? : Json → Option α) : Json → Option (List α)
  | .array items => items.mapM item?
  | _ => none

def pair? {α : Type} (item? : Json → Option α) : Json → Option (α × α)
  | .array [first, second] => do return (← item? first, ← item? second)
  | _ => none

def nullable? {α : Type} (item? : Json → Option α) : Json → Option (Option α)
  | .null => some none
  | value => (item? value).map some

def members? : Json → Option (List (String × Json))
  | .object members => some members
  | _ => none

/-- Any value that nests less than 128 deep inside its document and can be read in all its parts;
`outer` counts the levels around it. -/
def any? (outer : Nat) (value : Json) : Option Json :=
  if value.depth + outer < 128 && value.isReadable then some value else none

def record? (known : List String) : Json → Option (List (String × Json))
  | .object members =>
    let fields := members.filter fun (name, _) => known.contains name
    if (fields.map (·.1)).eraseDups.length = fields.length then some fields else none
  | _ => none

/-- A field that must be there. -/
def required? {α : Type} (fields : List (String × Json)) (name : String)
    (item? : Json → Option α) : Option α :=
  (fields.lookup name).bind item?

/-- A field that may be missing and then has a value of its own. -/
def defaulted? {α : Type} (fields : List (String × Json)) (name : String) (value : α)
    (item? : Json → Option α) : Option α :=
  match fields.lookup name with
  | none => some value
  | some found => item? found

/-- A field that may be missing or null. -/
def optional? {α : Type} (fields : List (String × Json)) (name : String)
    (item? : Json → Option α) : Option (Option α) :=
  defaulted? fields name none (nullable? item?)

end Evolution.Json
