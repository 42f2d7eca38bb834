import Evolution.Answer.Id
import Evolution.Calendar.Instant

/-!
What new answers and new revisions take from outside: identifiers that are not in use, and the time.
Identifiers are given out in order, each once.
-/

namespace Evolution

/-- The next identifier, and the time that answers bear which come into being now. -/
structure Supply where
  next : BitVec 128
  now : Instant

namespace Supply

def fresh (s : Supply) : AnswerId × Supply := (⟨s.next⟩, { s with next := s.next + 1 })

end Supply

end Evolution
