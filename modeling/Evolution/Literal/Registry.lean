import Evolution.Draw.Basic
import Evolution.Generation.Options
import Evolution.Table
import Evolution.Value

/-!
Types of literals. A type reads texts as values, makes random texts and blends two texts into one. A
registry holds the types that are in use under their names. A type that is not registered reads
nothing, makes nothing and blends two texts into the first.
-/

namespace Evolution

/-- A type of literals. -/
structure LiteralType where
  name : String
  /-- The value that a text stands for. -/
  read? : String → Option Value
  random : GenerationOptions → Draw String
  /-- A text made of two. -/
  blend : String → String → Draw String

/-- Why a literal has no value, or a registry cannot be made. -/
inductive LiteralError where
  | unknownType (name : String)
  | invalid (type text : String)
deriving DecidableEq, Inhabited

def LiteralError.name : LiteralError → String
  | unknownType .. => "UnknownType"
  | invalid .. => "Invalid"

def LiteralError.message : LiteralError → String
  | unknownType name => s!"unknown literal type: {name}"
  | invalid type text => s!"'{text}' is not a valid {type} literal"

/-- Literal types by name. -/
structure Registry where
  types : Table LiteralType

namespace Registry

def empty : Registry := ⟨.empty⟩

/-- The registry with one more type, or with another one of its name. -/
def register (r : Registry) (type : LiteralType) : Registry := ⟨r.types.insert type.name type⟩

def names (r : Registry) : List String := r.types.names

def contains (r : Registry) (name : String) : Bool := r.types.contains name

/-- The registry of the named types alone. The first name that is not registered is refused. -/
def restrict (r : Registry) (names : List String) : Except LiteralError Registry :=
  match r.types.restrict names with
  | .ok types => .ok ⟨types⟩
  | .error name => .error (.unknownType name)

/-- The value of a literal. -/
def read (r : Registry) (type text : String) : Except LiteralError Value :=
  match r.types.get? type with
  | none => .error (.unknownType type)
  | some found =>
    match found.read? text with
    | some value => .ok value
    | none => .error (.invalid found.name text)

def random (r : Registry) (type : String) (options : GenerationOptions) : Draw (Option String) :=
  match r.types.get? type with
  | none => return none
  | some found => return some (← found.random options)

/-- A literal made of two of its type. -/
def blend (r : Registry) (type a b : String) : Draw String :=
  match r.types.get? type with
  | none => return a
  | some found => found.blend a b

end Registry

end Evolution
