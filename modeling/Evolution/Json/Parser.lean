import Evolution.Json.Number

/-!
Reading JSON text. A text holds one value, with blanks around it. Every call of the reader takes a
character before the next, so the length of the text bounds the recursion.
-/

namespace Evolution.Json

def isSpace (c : Char) : Bool :=
  c == ' ' || c == '\n' || c == '\t' || c == '\r'

/-- The text without the blanks at its start. -/
def skip (text : List Char) : List Char :=
  text.dropWhile isSpace

def hexDigit? (c : Char) : Option Nat :=
  if c.isDigit then some (c.toNat - '0'.toNat)
  else if 'a' ≤ c && c ≤ 'f' then some (c.toNat - 'a'.toNat + 10)
  else if 'A' ≤ c && c ≤ 'F' then some (c.toNat - 'A'.toNat + 10)
  else none

/-- The code unit that four hexadecimal digits write. -/
def hexUnit? (a b c d : Char) : Option Nat := do
  return (((← hexDigit? a) * 16 + (← hexDigit? b)) * 16 + (← hexDigit? c)) * 16 + (← hexDigit? d)

/-- The character that an escape of one letter stands for. -/
def escaped? (c : Char) : Option Char :=
  match c with
  | '"' => some '"'
  | '\\' => some '\\'
  | '/' => some '/'
  | 'b' => some '\x08'
  | 'f' => some '\x0c'
  | 'n' => some '\n'
  | 'r' => some '\r'
  | 't' => some '\t'
  | _ => none

/-- Reads the rest of a string up to its closing quote, as code units: four hexadecimal digits write
the unit that they stand for, all else the number of its character. -/
def takeString? : List Char → Option (List Nat × List Char)
  | [] => none
  | '"' :: rest => some ([], rest)
  | '\\' :: 'u' :: a :: b :: c :: d :: rest =>
    match hexUnit? a b c d with
    | none => none
    | some unit => (takeString? rest).map fun (units, rest) => (unit :: units, rest)
  | '\\' :: c :: rest =>
    match escaped? c with
    | none => none
    | some c => (takeString? rest).map fun (units, rest) => (c.toNat :: units, rest)
  | c :: rest =>
    if c.toNat < 0x20 || c == '\\' then none
    else (takeString? rest).map fun (units, rest) => (c.toNat :: units, rest)

def isFirstHalf (unit : Nat) : Bool := 0xD800 ≤ unit && unit < 0xDC00

def isSecondHalf (unit : Nat) : Bool := 0xDC00 ≤ unit && unit < 0xE000

/-- The characters that code units spell. A half of a character needs the other one. -/
def spell? : List Nat → Option (List Char)
  | [] => some []
  | [unit] =>
    if isFirstHalf unit || isSecondHalf unit then none else some [Char.ofNat unit]
  | unit :: next :: rest =>
    if isFirstHalf unit then
      if isSecondHalf next then
        let point := 0x10000 + (unit - 0xD800) * 0x400 + (next - 0xDC00)
        (spell? rest).map (Char.ofNat point :: ·)
      else none
    else if isSecondHalf unit then none
    else (spell? (next :: rest)).map (Char.ofNat unit :: ·)

/-- The string of some code units. -/
def ofUnits (units : List Nat) : Json :=
  match spell? units with
  | some chars => .text (String.ofList chars)
  | none => .garbled

/-- An object; one name that spells no characters spoils it. -/
def ofMembers (members : List (List Nat × Json)) : Json :=
  let named := members.mapM fun (name, value) =>
    (spell? name).map fun chars => (String.ofList chars, value)
  match named with
  | some members => .object members
  | none => .garbled

def takeWord? (word : String) (value : Json) (chars : List Char) : Option (Json × List Char) :=
  let letters := word.toList
  if letters.isPrefixOf chars then some (value, chars.drop letters.length) else none

mutual

/-- Reads a value at the start of a text, after blanks. -/
def takeValue? : Nat → List Char → Option (Json × List Char)
  | 0, _ => none
  | fuel + 1, chars =>
    match skip chars with
    | [] => none
    | '"' :: rest => (takeString? rest).map fun (units, rest) => (ofUnits units, rest)
    | '[' :: rest =>
      match skip rest with
      | ']' :: rest => some (.array [], rest)
      | rest => (takeItems? fuel rest).map fun (items, rest) => (.array items, rest)
    | '\x7b' :: rest =>
      match skip rest with
      | '\x7d' :: rest => some (.object [], rest)
      | rest => (takeMembers? fuel rest).map fun (members, rest) => (ofMembers members, rest)
    | 't' :: rest => takeWord? "true" (.bool true) ('t' :: rest)
    | 'f' :: rest => takeWord? "false" (.bool false) ('f' :: rest)
    | 'n' :: rest => takeWord? "null" .null ('n' :: rest)
    | rest => takeNumber? rest

def takeItems? : Nat → List Char → Option (List Json × List Char)
  | 0, _ => none
  | fuel + 1, chars =>
    match takeValue? fuel chars with
    | none => none
    | some (item, rest) =>
      match skip rest with
      | ']' :: rest => some ([item], rest)
      | ',' :: rest => (takeItems? fuel rest).map fun (items, rest) => (item :: items, rest)
      | _ => none

def takeMembers? : Nat → List Char → Option (List (List Nat × Json) × List Char)
  | 0, _ => none
  | fuel + 1, chars =>
    match skip chars with
    | '"' :: rest =>
      match takeString? rest with
      | none => none
      | some (name, rest) =>
        match skip rest with
        | ':' :: rest =>
          match takeValue? fuel rest with
          | none => none
          | some (value, rest) =>
            match skip rest with
            | '\x7d' :: rest => some ([(name, value)], rest)
            | ',' :: rest =>
              (takeMembers? fuel rest).map fun (members, rest) =>
                ((name, value) :: members, rest)
            | _ => none
        | _ => none
    | _ => none

end

def parse? (text : String) : Option Json :=
  let chars := text.toList
  match takeValue? (chars.length + 1) chars with
  | some (value, rest) => if (skip rest).isEmpty then some value else none
  | none => none

end Evolution.Json
