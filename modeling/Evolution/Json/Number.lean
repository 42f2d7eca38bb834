import Evolution.Decimal.Reading
import Evolution.Json.Basic

/-!
Numbers in JSON text. A number without fraction and exponent is an integer while 64 bits hold it;
any other number is the nearest float. A zero before the point stands alone, and both the point and
the mark of the exponent need a digit after them.
-/

namespace Evolution.Json

/-- An integer without fraction and exponent. A negative zero is a float, as is an integer that 64
bits do not hold. -/
def ofInteger (below : Bool) (n : Nat) : Json :=
  if below then
    if n = 0 || -(n : Int) < Int64.minValue.toInt then .real (-(Decimal.nearest n 0))
    else .negative (Int64.ofInt (-n))
  else if n < UInt64.size then .natural (UInt64.ofNat n)
  else .real (Decimal.nearest n 0)

/-- The digits of a fraction and the text after them. -/
def takeFraction? : List Char → Option (List Char × List Char)
  | '.' :: rest =>
    let digits := rest.takeWhile Char.isDigit
    if digits.isEmpty then none else some (digits, rest.dropWhile Char.isDigit)
  | rest => some ([], rest)

/-- The exponent, if one is written, and the text after it. -/
def takePower? : List Char → Option (Option Int × List Char)
  | [] => some (none, [])
  | c :: rest =>
    if c = 'e' || c = 'E' then
      let (below, rest) := Decimal.takeSign rest
      let digits := rest.takeWhile Char.isDigit
      if digits.isEmpty then none
      else
        let n : Int := Decimal.ofDigits digits
        some (some (if below then -n else n), rest.dropWhile Char.isDigit)
    else some (none, c :: rest)

/-- Reads a number without its sign at the start of a text. -/
def takeMagnitude? (below : Bool) (text : List Char) : Option (Json × List Char) :=
  let whole := text.takeWhile Char.isDigit
  if whole.isEmpty || (whole.head? = some '0' && whole.length ≠ 1) then none
  else
    match takeFraction? (text.dropWhile Char.isDigit) with
    | none => none
    | some (fraction, rest) =>
      match takePower? rest with
      | none => none
      | some (power, rest) =>
        if fraction.isEmpty && power.isNone then
          some (ofInteger below (Decimal.ofDigits whole), rest)
        else
          let x := Decimal.nearest (Decimal.ofDigits (whole ++ fraction))
            (power.getD 0 - fraction.length)
          some (.real (if below then -x else x), rest)

/-- Reads a number at the start of a text. -/
def takeNumber? : List Char → Option (Json × List Char)
  | '-' :: rest => takeMagnitude? true rest
  | rest => takeMagnitude? false rest

end Evolution.Json
