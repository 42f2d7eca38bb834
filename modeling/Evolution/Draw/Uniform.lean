import Evolution.Draw.Basic

/-!
Uniform choices among finitely many. A number below `n` is drawn from a word of `w` bits by the high
half of their product; the low half decides whether the word is kept, which makes all numbers
equally likely. Choices among the members of a list use 32-bit words, everything else 64-bit words.
-/

namespace Evolution.Draw

def wordCount (w : Nat) : Nat := Nat.pow 2 w

/-- The largest low half that is kept for a choice below `n`: `n` shifted up to `w` bits, less one.
-/
def zone (w n : Nat) : Nat := n * wordCount (w - 1 - n.log2) - 1

/-- The number below `n` that a word stands for. -/
def highHalf (w n : Nat) (h : 0 < n) (v : UInt64) : Fin n :=
  ⟨v.toNat % wordCount w * n / wordCount w,
    Nat.div_lt_of_lt_mul (Nat.mul_lt_mul_of_pos_right (Nat.mod_lt _ (Nat.two_pow_pos w)) h)⟩

def keeps (w n : Nat) (v : UInt64) : Bool :=
  v.toNat % wordCount w * n % wordCount w ≤ zone w n

/-- Draws words until one is kept. -/
def belowWithin (w n : Nat) (h : 0 < n) : Nat → Draw (Fin n)
  | 0 => fault .stalled
  | tries + 1 => do
    let v ← word
    if keeps w n v then return highHalf w n h v else belowWithin w n h tries

/-- A number below `n`, from words of `w` bits. -/
def below (w n : Nat) (h : 0 < n) : Draw (Fin n) := do
  belowWithin w n h ((← patience) + 1)

def place (n : Nat) (h : 0 < n) : Draw (Fin n) :=
  if n < wordCount 32 then below 32 n h else below 64 n h

def member {α : Type} (xs : List α) : Draw (Option α) :=
  if h : 0 < xs.length then return some (xs.get (← place xs.length h)) else return none

/-- An integer from `lo` to `hi`, both included. For all integers of 64 bits the word is taken as it
is. -/
def int64Between (lo hi : Int64) : Draw Int64 := do
  let n := (hi.toInt - lo.toInt + 1).toNat
  if n = wordCount 64 then return (← word).toInt64
  else if h : 0 < n then
    let k ← below 64 n h
    return Int64.ofInt (lo.toInt + k.val)
  else fault .badRange

/-- Settles the places up to `i` from the last one down: each takes a member from the places up to
and including its own. -/
def shuffleTo {α : Type} {n : Nat} : (i : Nat) → i < n → Vector α n → Draw (Vector α n)
  | 0, _, xs => return xs
  | i + 1, h, xs => do
    let j ← place (i + 2) (by omega)
    shuffleTo i (by omega) (xs.swap (i + 1) j.val h (by omega))

def shuffle {α : Type} (xs : List α) : Draw (List α) := do
  if h : 0 < xs.length then
    let v : Vector α xs.length := ⟨xs.toArray, by simp⟩
    return (← shuffleTo (xs.length - 1) (by omega) v).toList
  else return []

end Evolution.Draw
