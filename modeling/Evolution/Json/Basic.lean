/-!
JSON values. Members of an object stay in the order of the text and may repeat a name; who reads the
object decides what a repetition means. A number remembers how it was written: without fraction and
exponent it is an integer while 64 bits hold it, otherwise it is a float. A string may be written
with escapes that spell no characters; nothing can be read from it, but it may stand where nobody
reads it.
-/

namespace Evolution

inductive Json where
  | null
  | bool (value : Bool)
  /-- An integer that is not negative. -/
  | natural (value : UInt64)
  | negative (value : Int64)
  /-- Any other number; an infinity stands for one beyond the range of floats. -/
  | real (value : Float)
  | text (value : String)
  | array (items : List Json)
  | object (members : List (String × Json))
  /-- A string whose escapes spell no characters, or an object with a name of that kind. -/
  | garbled
deriving Inhabited

namespace Json

mutual

/-- How deep arrays and objects are nested. -/
def depth : Json → Nat
  | .array items => depths items + 1
  | .object members => memberDepths members + 1
  | .null => 0
  | .bool _ => 0
  | .natural _ => 0
  | .negative _ => 0
  | .real _ => 0
  | .text _ => 0
  | .garbled => 0

def depths : List Json → Nat
  | [] => 0
  | item :: rest => max item.depth (depths rest)

def memberDepths : List (String × Json) → Nat
  | [] => 0
  | (_, value) :: rest => max value.depth (memberDepths rest)

end

mutual

/-- Whether all numbers are in the range of floats and all strings spell characters. -/
def isReadable : Json → Bool
  | .real x => x.isFinite
  | .array items => areReadable items
  | .object members => membersReadable members
  | .garbled => false
  | .null => true
  | .bool _ => true
  | .natural _ => true
  | .negative _ => true
  | .text _ => true

def areReadable : List Json → Bool
  | [] => true
  | item :: rest => item.isReadable && areReadable rest

def membersReadable : List (String × Json) → Bool
  | [] => true
  | (_, value) :: rest => value.isReadable && membersReadable rest

end

end Json

end Evolution
