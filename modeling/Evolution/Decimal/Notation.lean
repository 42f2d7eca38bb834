import Evolution.Decimal.Shortest

/-!
Writing numbers. The digits of a float are the shortest that read back; a `Style` settles where they
are written positionally and where with an exponent, and whether a whole number shows a fraction.
Three styles are used: `literal` in program text, `display` for people, `interchange` in JSON.
-/

namespace Evolution.Decimal

/-- An integer, with a sign only if it is negative. -/
def writeInt (n : Int) : List Char :=
  if n < 0 then '-' :: Nat.toDigits 10 n.natAbs else Nat.toDigits 10 n.natAbs

structure Style where
  /-- The least power of ten of the first digit that is written positionally. -/
  least : Int
  /-- The greatest power of ten of the first digit that is written positionally. -/
  greatest : Int
  /-- Whether a whole number ends in `.0`. -/
  fraction : Bool
  /-- Which of two shortest decimals is written. -/
  tie : Tie

/-- Positional from a ten-thousandth up to sixteen digits, always with a fraction. -/
def Style.literal : Style := ⟨-4, 15, true, .up⟩

/-- Always positional; a whole number has no fraction. -/
def Style.display : Style := ⟨-400, 400, false, .up⟩

/-- Positional from a hundred-thousandth up to sixteen digits, always with a fraction. -/
def Style.interchange : Style := ⟨-5, 15, true, .even⟩

/-- Digits with a point after the first `place` of them, filled up with zeros where they do not
reach. -/
def positional (fraction : Bool) (digits : List Char) (place : Int) : List Char :=
  if place ≤ 0 then '0' :: '.' :: List.replicate (-place).toNat '0' ++ digits
  else
    let whole := place.toNat
    if digits.length ≤ whole then
      digits ++ List.replicate (whole - digits.length) '0' ++ (if fraction then ['.', '0'] else [])
    else digits.take whole ++ '.' :: digits.drop whole

/-- Digits with a point after the first, then the power of ten. A single digit has no point. -/
def exponential (digits : List Char) (power : Int) : List Char :=
  let mantissa :=
    match digits with
    | first :: second :: more => first :: '.' :: second :: more
    | few => few
  mantissa ++ 'e' :: writeInt power

/-- A positive decimal in a style. -/
def Scaled.write (style : Style) (value : Scaled) : List Char :=
  let digits := Nat.toDigits 10 value.digits
  let power := value.exponent + (digits.length : Int) - 1
  if style.least ≤ power && power ≤ style.greatest then
    positional style.fraction digits (power + 1)
  else exponential digits power

/-- A float in a style. What is not a number has no sign; zero keeps its own. -/
def write (style : Style) (x : Float) : String :=
  let signed (sign : Float.Model.UnpackedFloat.Sign) (text : List Char) : String :=
    match sign with
    | .negative => String.ofList ('-' :: text)
    | .positive => String.ofList text
  match x.toModel.unpack with
  | .notANumber => "NaN"
  | .infinity sign => signed sign ['i', 'n', 'f']
  | .zero sign => signed sign (if style.fraction then ['0', '.', '0'] else ['0'])
  | .finite sign m q _ => signed sign ((shortest style.tie m q).write style)

end Evolution.Decimal
