import Evolution.Answer.Basic

/-!
Dominance between answers; smaller scores are better. An answer is dominated by another one under a
list of criteria if both have a score for each of them, none of its scores is less, and they are not
equal throughout. Comparisons are those of floats, so a score that is not a number is neither less
than nor equal to any.
-/

namespace Evolution.Answer

/-- The criteria among those given for which the answer has a score. -/
def known (a : Answer) (criteria : List String) : List String := criteria.filter a.scores.contains

/-- Goes through the criteria: `same` says whether the scores have been equal so far. -/
def compareScores (a b : Answer) (same : Bool) : List String → Bool
  | [] => !same
  | criterion :: rest =>
    match a.score? criterion, b.score? criterion with
    | some mine, some theirs =>
      if mine < theirs then false else compareScores a b (same && mine == theirs) rest
    | _, _ => false

/-- Whether the other answer is at least as good under all criteria and better under one. -/
def dominatedBy (a b : Answer) (criteria : List String) : Bool :=
  if a.known criteria = b.known criteria then compareScores a b true criteria else false

/-- Dominance under the criteria for which the answer has scores. -/
def dominatedByKnown (a b : Answer) : Bool := a.dominatedBy b a.scores.names

end Evolution.Answer
