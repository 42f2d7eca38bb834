/-!
Random choices. A source is an endless sequence of 64-bit words; a choice reads words from a
position on and says where it stopped, so the words it took can be counted and a run can be
repeated. All choices are made of single words.
-/

namespace Evolution

/-- An endless sequence of random words. -/
structure Words where
  word : Nat → UInt64
  /-- How many words, or factors for a word, a choice may turn down in a row. -/
  patience : Nat

instance : CoeFun Words fun _ => Nat → UInt64 := ⟨Words.word⟩

/-- Why a choice cannot be made. -/
inductive DrawFault where
  /-- Too many words in a row were turned down. -/
  | stalled
  /-- A float range is empty or wider than the largest float. -/
  | badRange
  /-- A weight or the sum of the weights is no finite number. -/
  | badWeight
  /-- A probability lies outside of zero to one. -/
  | badProbability
  /-- More is asked for than there is room for. -/
  | tooMany
deriving DecidableEq, Inhabited

/-- A choice: reads the words from a position on and gives its outcome with the next position. -/
abbrev Draw := ReaderT Words (StateT Nat (Except DrawFault))

namespace Draw

/-- Makes a choice on a sequence of words, from a position on. -/
def runFrom {α : Type} (draw : Draw α) (words : Words) (position : Nat) :
    Except DrawFault (α × Nat) :=
  (draw.run words).run position

def word : Draw UInt64 := fun words position => .ok (words position, position + 1)

/-- A choice that cannot be made. -/
def fault {α : Type} (cause : DrawFault) : Draw α := fun _ _ => .error cause

def patience : Draw Nat := fun words position => .ok (words.patience, position)

end Draw

end Evolution
