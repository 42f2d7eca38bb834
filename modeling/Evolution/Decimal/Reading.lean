/-!
Reading numbers. Digits are the ten ASCII digits. An integer may carry a sign and has to fit into 64
bits. A float may have a sign, a point with digits on at least one side of it, and an exponent, or
be one of the words for infinity and for what is not a number, in any mix of cases; the value is the
nearest float.
-/

namespace Evolution.Decimal

def ofDigits (digits : List Char) : Nat :=
  digits.foldl (fun n c => 10 * n + (c.toNat - '0'.toNat)) 0

/-- A sign, if there is one, and the text after it. -/
def takeSign : List Char → Bool × List Char
  | '-' :: rest => (true, rest)
  | '+' :: rest => (false, rest)
  | rest => (false, rest)

def readInt? (text : List Char) : Option Int :=
  let (negative, digits) := takeSign text
  if digits.isEmpty || !digits.all Char.isDigit then none
  else some (if negative then -(ofDigits digits : Int) else ofDigits digits)

def readInt64? (text : List Char) : Option Int64 :=
  (readInt? text).bind fun n =>
    if Int64.minValue.toInt ≤ n && n ≤ Int64.maxValue.toInt then some (Int64.ofInt n) else none

/-- The float nearest to `m * 10 ^ e`. Beyond the range of floats the power is not computed. -/
def nearest (m : Nat) (e : Int) : Float :=
  let power := (Nat.toDigits 10 m).length + e
  if m = 0 || power < -400 then 0
  else if 400 < power then Float.ofScientific 1 false 400
  else Float.ofScientific m (e < 0) e.natAbs

/-- Reads what may follow the digits of a float: nothing, or the mark of the exponent and an
integer. -/
def readExponent? : List Char → Option Int
  | [] => some 0
  | c :: rest => if c = 'e' || c = 'E' then readInt? rest else none

/-- Reads a float without its sign. -/
def readMagnitude? (text : List Char) : Option Float :=
  let whole := text.takeWhile Char.isDigit
  let (fraction, rest) :=
    match text.dropWhile Char.isDigit with
    | '.' :: rest => (rest.takeWhile Char.isDigit, rest.dropWhile Char.isDigit)
    | rest => ([], rest)
  if whole.isEmpty && fraction.isEmpty then
    let word := String.ofList (text.map Char.toLower)
    if word = "inf" || word = "infinity" then some (1 / 0)
    else if word = "nan" then some (0 / 0)
    else none
  else
    (readExponent? rest).map fun exponent =>
      nearest (ofDigits (whole ++ fraction)) (exponent - fraction.length)

def readFloat? (text : List Char) : Option Float :=
  let (negative, rest) := takeSign text
  (readMagnitude? rest).map fun x => if negative then -x else x

end Evolution.Decimal
