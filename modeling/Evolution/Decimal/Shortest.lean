/-!
The shortest decimal that reads back as a given float. A finite float `m * 2 ^ q` is the nearest
float to every real of an interval around it, half a unit to either side; the ends belong to the
interval when `m` is even. At a power of two the unit below is half as large. Decimals are looked
for on coarser grids first: of a grid `10 ^ k` only the two neighbours of the float can be the
answer, the first grid with a hit wins, and of two hits the nearer.
-/

namespace Evolution.Decimal

/-- A positive decimal, `digits * 10 ^ exponent`. -/
structure Scaled where
  digits : Nat
  exponent : Int
deriving DecidableEq, Inhabited

/-- Which of two decimals equally near to a float is written. -/
inductive Tie where
  | up
  | even
deriving DecidableEq, Inhabited

/-- The significand that only the least float of a binade has. -/
def leastNormal : Nat := Nat.pow 2 52

/-- The decimal on the grid `10 ^ k` that reads back as `m * 2 ^ q`, if there is one. All numbers
are brought to one denominator; the interval and the float are counted in quarters of a unit. -/
def onGrid? (tie : Tie) (m : Nat) (q k : Int) : Option Scaled :=
  let left := Nat.pow 2 (q - 2).toNat * Nat.pow 10 (-k).toNat
  let right := Nat.pow 2 (2 - q).toNat * Nat.pow 10 k.toNat
  let low := (4 * m - (if m = leastNormal then 1 else 2)) * left
  let high := (4 * m + 2) * left
  let value := 4 * m * left
  let fits (n : Nat) : Bool :=
    if m % 2 = 0 then low ≤ n * right && n * right ≤ high
    else low < n * right && n * right < high
  let n := value / right
  let rest := value - n * right
  let nearer :=
    if 2 * rest < right then n
    else if right < 2 * rest then n + 1
    else match tie with
      | .up => n + 1
      | .even => n + n % 2
  match fits n, fits (n + 1) with
  | true, true => some ⟨nearer, k⟩
  | true, false => some ⟨n, k⟩
  | false, true => some ⟨n + 1, k⟩
  | false, false => none

/-- The first hit on the grids `10 ^ k`, `10 ^ (k - 1)` and so on. -/
def onGrids? (tie : Tie) (m : Nat) (q : Int) : Nat → Int → Option Scaled
  | 0, _ => none
  | tries + 1, k => (onGrid? tie m q k).or (onGrids? tie m q tries (k - 1))

/-- A grid coarser than `m * 2 ^ q`, by less than a thousandfold. -/
def coarsest (m : Nat) (q : Int) : Int :=
  ((m.log2 + 1 : Int) + q) * 30103 / 100000 + 1

/-- The shortest decimal for the positive float `m * 2 ^ q`. Seventeen digits are always enough, so
the search ends with a hit. -/
def shortest (tie : Tie) (m : Nat) (q : Int) : Scaled :=
  (onGrids? tie m q 22 (coarsest m q)).getD ⟨m, 0⟩

end Evolution.Decimal
