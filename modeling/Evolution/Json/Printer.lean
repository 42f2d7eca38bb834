import Evolution.Decimal.Notation
import Evolution.Json.Basic

/-!
Writing JSON text, without blanks between tokens. In strings the quote, the backslash and the
control characters are escaped and all else stands as it is. A float that is not finite is written
as null, as is what could not be read.
-/

namespace Evolution.Json

def hexChar (n : Nat) : Char :=
  if n < 10 then Char.ofNat ('0'.toNat + n) else Char.ofNat ('a'.toNat + (n - 10))

/-- One character inside a string. -/
def escape (c : Char) : List Char :=
  match c with
  | '"' => ['\\', '"']
  | '\\' => ['\\', '\\']
  | '\x08' => ['\\', 'b']
  | '\x0c' => ['\\', 'f']
  | '\n' => ['\\', 'n']
  | '\r' => ['\\', 'r']
  | '\t' => ['\\', 't']
  | c =>
    if c.toNat < 0x20 then ['\\', 'u', '0', '0', hexChar (c.toNat / 16), hexChar (c.toNat % 16)]
    else [c]

def quote (text : String) : String :=
  String.ofList ('"' :: text.toList.flatMap escape ++ ['"'])

mutual

/-- A value as text. -/
def render : Json → String
  | .null => "null"
  | .bool value => if value then "true" else "false"
  | .natural n => toString n.toNat
  | .negative n => toString n.toInt
  | .real x => if x.isFinite then Decimal.write .interchange x else "null"
  | .text value => quote value
  | .array items => "[" ++ renderItems items ++ "]"
  | .object members => "\x7b" ++ renderMembers members ++ "\x7d"
  | .garbled => "null"

def renderItems : List Json → String
  | [] => ""
  | [item] => item.render
  | item :: next :: rest => item.render ++ "," ++ renderItems (next :: rest)

def renderMembers : List (String × Json) → String
  | [] => ""
  | [(name, value)] => quote name ++ ":" ++ value.render
  | (name, value) :: next :: rest =>
    quote name ++ ":" ++ value.render ++ "," ++ renderMembers (next :: rest)

end

end Evolution.Json
