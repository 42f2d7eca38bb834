/-!
Identifiers of answers: numbers of 128 bits, written as 26 characters that stand for five bits each,
the highest first. The alphabet has the ten digits and the letters without I, L, O and U. Both cases
are read; bits that a text has beyond the 128 are dropped.
-/

namespace Evolution

structure AnswerId where
  bits : BitVec 128
deriving DecidableEq, Inhabited

namespace AnswerId

def alphabet : List Char := "0123456789ABCDEFGHJKMNPQRSTVWXYZ".toList

def symbol (n : Nat) : Char := alphabet.getD n '0'

def value? (c : Char) : Option Nat := alphabet.findIdx? (· == c.toUpper)

/-- The last characters of the written form, as many as asked for. -/
def symbols : Nat → Nat → List Char
  | 0, _ => []
  | count + 1, n => symbols count (n / 32) ++ [symbol (n % 32)]

def write (id : AnswerId) : String := String.ofList (symbols 26 id.bits.toNat)

def read? (text : String) : Option AnswerId := do
  let values ← text.toList.mapM value?
  if values.length = 26 then
    return ⟨BitVec.ofNat 128 (values.foldl (fun n v => 32 * n + v) 0)⟩
  else none

end AnswerId

end Evolution
