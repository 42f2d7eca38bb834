import Evolution.Answer.Supply
import Evolution.Decimal.Notation
import Evolution.Program.Edit
import Evolution.SortedTable

/-!
Answers: candidate programs with their scores, tags and descent. The program of an answer never
changes; scores, tags and the marks that a store leaves on it do.
-/

namespace Evolution

/-- A candidate program. -/
structure Answer where
  id : AnswerId
  program : Program
  scores : SortedTable Float
  /-- The number of generations behind it. -/
  progress : UInt64
  /-- The parents' identifiers, the first parent's first. -/
  ancestors : List AnswerId
  tags : NameSet
  born : Instant
  /-- Answers are blended with answers of the same language only. -/
  language : String
  /-- The name under which a store keeps the answer. -/
  externalId : Option String
  /-- The revision that the store had when the answer was last saved. -/
  revision : Option String
deriving DecidableEq

/-- The call breaks a rule that is checked before any work. -/
inductive ArgumentError where
  | emptyBatch (operator : String)
  | invalidKey (key : String)
  | invalidProbability (p : Float)
  | missingScoreLabel
  | noTestCases
  | uncoveredExpectation (case : Nat) (output : String)
  | unparseableReplacement (cause : Blueprint.ParseError)
deriving DecidableEq

def ArgumentError.name : ArgumentError → String
  | emptyBatch .. => "EmptyBatch"
  | invalidKey .. => "InvalidKey"
  | invalidProbability .. => "InvalidProbability"
  | missingScoreLabel => "MissingScoreLabel"
  | noTestCases => "NoTestCases"
  | uncoveredExpectation .. => "UncoveredExpectation"
  | unparseableReplacement .. => "UnparseableReplacement"

def ArgumentError.message : ArgumentError → String
  | emptyBatch operator => s!"{operator} cannot work on an empty batch"
  | invalidKey key => s!"'{key}' is not a valid score or tag key"
  | invalidProbability p =>
    "probability " ++ Decimal.write .display p ++ " is outside [0, 1]"
  | missingScoreLabel => "evaluator needs a score label"
  | noTestCases => "evaluation needs at least one test case"
  | uncoveredExpectation case output =>
    s!"test case {case} expects '{output}' but nothing measures it"
  | unparseableReplacement cause =>
    "replacement point cannot be parsed: " ++ cause.message

namespace Answer

def defaultLanguage : String := "nudge"

def new (id : AnswerId) (born : Instant) (program : Program) : Answer where
  id
  program
  scores := .empty
  progress := 0
  ancestors := []
  tags := .empty
  born
  language := defaultLanguage
  externalId := none
  revision := none

def size (a : Answer) : Nat := a.program.size

def score? (a : Answer) (key : String) : Option Float := a.scores.get? key

def scoreVector (a : Answer) (keys : List String) : List (Option Float) := keys.map a.score?

/-- The answer with a score under a key that is known to be one. -/
def withScore (a : Answer) (key : String) (value : Float) : Answer :=
  { a with scores := a.scores.insert key value }

def setScore (a : Answer) (key : String) (value : Float) : Except ArgumentError Answer :=
  if Text.isKey key.toList then .ok (a.withScore key value) else .error (.invalidKey key)

def hasTag (a : Answer) (tag : String) : Bool := a.tags.contains tag

def addTag (a : Answer) (tag : String) : Except ArgumentError (Bool × Answer) :=
  if Text.isKey tag.toList then
    .ok (!a.hasTag tag, { a with tags := a.tags.insert tag () })
  else .error (.invalidKey tag)

def removeTag (a : Answer) (tag : String) : Bool × Answer :=
  (a.hasTag tag, { a with tags := a.tags.erase tag })

def setExternal (a : Answer) (id revision : String) : Answer :=
  { a with externalId := some id, revision := some revision }

/-- The program without a point; unchanged if there is no such point. -/
def deletePoint (a : Answer) (i : Nat) : Program :=
  (a.program.deletePoint i).toOption.getD a.program

/-- The program with a point replaced; unchanged if there is no such point. -/
def replacePoint (a : Answer) (i : Nat) (q : Point) : Program :=
  (a.program.replacePoint i q).toOption.getD a.program

/-- The program with a point replaced by a blueprint; unchanged if there is no such point. -/
def replaceWithText (a : Answer) (i : Nat) (text : String) : Except ArgumentError Program :=
  match a.program.replaceWithText i text with
  | .ok p => .ok p
  | .error (.unreadable cause) => .error (.unparseableReplacement cause)
  | .error (.outOfRange _ _) => .ok a.program

end Answer

end Evolution
