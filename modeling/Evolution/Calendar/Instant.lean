import Evolution.Calendar.Date
import Evolution.Decimal.Reading
import Evolution.Text.Blank

/-!
Instants of universal time and their written form, `2024-01-02T03:04:05.5Z`. The reader is lenient:
it takes blanks around the parts of the date and the time, a blank or either case of the letter
between the two, parts without leading zeros, and an offset from universal time. A leap second
counts to the second before it.
-/

namespace Evolution

/-- A date with a second of its day and the billionths after that second. A leap second goes on for
another billion of them after the last second of a minute. -/
structure Instant where
  date : Date
  second : Fin 86400
  nanosecond : Fin 2000000000
  leap : nanosecond.val < 1000000000 ∨ second.val % 60 = 59
deriving DecidableEq

namespace Instant

def epoch : Instant := ⟨⟨1970, 1, 1, by decide⟩, 0, 0, by decide⟩

/-! Writing -/

/-- A number with zeros in front, up to a width. -/
def padded (width n : Nat) : List Char :=
  let digits := Nat.toDigits 10 n
  List.replicate (width - digits.length) '0' ++ digits

/-- A year with four digits; outside of them it has its sign. -/
def writeYear (year : Int) : List Char :=
  if 0 ≤ year && year ≤ 9999 then padded 4 year.natAbs
  else (if year < 0 then '-' else '+') :: padded 4 year.natAbs

/-- The instant as text. A leap second is the sixtieth of its minute. -/
def write (t : Instant) : String :=
  let leap := if t.nanosecond.val < 1000000000 then 0 else 1
  let nano := t.nanosecond.val % 1000000000
  let s := t.second.val
  String.ofList (
    writeYear t.date.year ++ '-' :: padded 2 t.date.month ++ '-' :: padded 2 t.date.day ++
    'T' :: padded 2 (s / 3600) ++ ':' :: padded 2 (s / 60 % 60) ++
    ':' :: padded 2 (s % 60 + leap) ++
    (if nano = 0 then [] else '.' :: padded 9 nano) ++ ['Z'])

/-! Reading -/

/-- Reads a number of one to `width` digits after blanks. -/
def takeNumber? (width : Nat) (text : List Char) : Option (Nat × List Char) :=
  let rest := Text.trimStart text
  let digits := (rest.take width).takeWhile Char.isDigit
  if digits.isEmpty then none else some (Decimal.ofDigits digits, rest.drop digits.length)

/-- Reads a year after blanks: four digits at most, or any number of them after a sign. -/
def takeYear? (text : List Char) : Option (Int × List Char) :=
  match Text.trimStart text with
  | '-' :: rest => digits rest |>.map fun (n, rest) => (-(n : Int), rest)
  | '+' :: rest => digits rest |>.map fun (n, rest) => ((n : Int), rest)
  | rest => (takeNumber? 4 rest).map fun (n, rest) => ((n : Int), rest)
where
  /-- All digits at the start of the text. -/
  digits (text : List Char) : Option (Nat × List Char) :=
    let run := text.takeWhile Char.isDigit
    if run.isEmpty then none else some (Decimal.ofDigits run, text.dropWhile Char.isDigit)

/-- Reads one character after blanks. -/
def takeMark? (mark : Char) (text : List Char) : Option (List Char) :=
  match Text.trimStart text with
  | c :: rest => if c = mark then some rest else none
  | [] => none

/-- Reads billionths of a second, if a point follows. Digits beyond the ninth are passed over. -/
def takeNanos? : List Char → Option (Nat × List Char)
  | '.' :: rest =>
    let digits := (rest.take 9).takeWhile Char.isDigit
    if digits.isEmpty then none
    else some (Decimal.ofDigits (digits ++ List.replicate (9 - digits.length) '0'),
      (rest.drop digits.length).dropWhile Char.isDigit)
  | rest => some (0, rest)

/-- Reads the hours and minutes of an offset, with colons and blanks between them, as seconds. -/
def takeShift? : List Char → Option (Nat × List Char)
  | h₁ :: h₂ :: rest =>
    match rest.dropWhile fun c => c == ':' || Text.isBlank c with
    | m₁ :: m₂ :: rest =>
      if [h₁, h₂, m₁, m₂].all Char.isDigit && m₁.toNat < '6'.toNat then
        some (3600 * Decimal.ofDigits [h₁, h₂] + 60 * Decimal.ofDigits [m₁, m₂], rest)
      else none
    | _ => none
  | _ => none

/-- Reads the offset from universal time, in seconds: a letter for none, or a sign with hours and
minutes. -/
def takeOffset? (text : List Char) : Option (Int × List Char) :=
  let shift (sign : Int) (rest : List Char) : Option (Int × List Char) :=
    (takeShift? rest).map fun (n, rest) => (sign * n, rest)
  match text with
  | 'Z' :: rest => some (0, rest)
  | 'z' :: rest => some (0, rest)
  | '+' :: rest => shift 1 rest
  | '-' :: rest => shift (-1) rest
  | '−' :: rest => shift (-1) rest
  | a :: b :: c :: rest =>
    if [a, b, c].map Char.toUpper = ['U', 'T', 'C'] then some (0, rest) else none
  | _ => none

/-- The instant of a local date and time at an offset. -/
def atOffset? (date : Date) (second nanosecond : Nat) (offset : Int) : Option Instant := do
  if offset.natAbs < 86400 ∧ second < 86400 then
    let moved := (second : Int) - offset
    let date ← if moved < 0 then date.previous? else if moved < 86400 then some date else date.next?
    let s := (moved % 86400).toNat
    if h : (s < 86400 ∧ nanosecond < 2000000000) ∧ (nanosecond < 1000000000 ∨ s % 60 = 59) then
      return ⟨date, ⟨s, h.1.1⟩, ⟨nanosecond, h.1.2⟩, h.2⟩
    else none
  else none

def read? (text : String) : Option Instant := do
  let (year, rest) ← takeYear? text.toList
  let (month, rest) ← takeNumber? 2 (← takeMark? '-' rest)
  let (day, rest) ← takeNumber? 2 (← takeMark? '-' rest)
  let date ← Date.of? year month day
  let rest ← match rest with
    | 'T' :: rest => some rest
    | 't' :: rest => some rest
    | ' ' :: rest => some rest
    | _ => none
  let (hour, rest) ← takeNumber? 2 rest
  let (minute, rest) ← takeNumber? 2 (← takeMark? ':' rest)
  let (second, rest) ← takeNumber? 2 (← takeMark? ':' rest)
  let (nano, rest) ← takeNanos? rest
  let (offset, rest) ← takeOffset? (Text.trimStart rest)
  if hour < 24 ∧ minute < 60 ∧ second ≤ 60 ∧ (Text.trimStart rest).isEmpty then
    let leap := second / 60
    atOffset? date (3600 * hour + 60 * minute + (second - leap)) (nano + 1000000000 * leap) offset
  else none

end Instant

end Evolution
