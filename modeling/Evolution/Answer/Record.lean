import Evolution.Answer.Basic
import Evolution.Json.Decode
import Evolution.Program.Record

/-!
Answers as documents. The record of an answer is what a store keeps of it: all but the marks of the
store, with the program as its blueprint. Records and whole answers have a JSON form. A score that
is not finite turns into null there, and null is not read as a score.
-/

namespace Evolution

/-- What a store keeps of an answer. -/
structure AnswerRecord where
  id : AnswerId
  blueprint : String
  tags : NameSet
  scores : SortedTable Float
  born : Instant
  progress : UInt64
  ancestors : List AnswerId
  language : String
deriving DecidableEq

def Answer.record (a : Answer) : AnswerRecord where
  id := a.id
  blueprint := a.program.blueprint
  tags := a.tags
  scores := a.scores
  born := a.born
  progress := a.progress
  ancestors := a.ancestors
  language := a.language

namespace Json

/-- A float; null unless it is finite. -/
def ofFloat (x : Float) : Json := if x.isFinite then .real x else .null

def ofId (id : AnswerId) : Json := .text id.write

def id? (json : Json) : Option AnswerId := do AnswerId.read? (← json.text?)

def ofIds (ids : List AnswerId) : Json := .array (ids.map ofId)

def ofScores (scores : SortedTable Float) : Json :=
  .object (scores.entries.map fun (key, x) => (key, ofFloat x))

/-- An object of floats; of a repeated key the last value counts. -/
def scores? (json : Json) : Option (SortedTable Float) := do
  let pairs ← (← json.members?).mapM fun (key, x) => do return (key, ← x.float?)
  return .ofList pairs

def ofTags (tags : NameSet) : Json := .array (tags.names.map .text)

/-- Reads tags; repetitions count once. -/
def tags? (json : Json) : Option NameSet := do return NameSet.ofNames (← json.list? text?)

def ofInstant (t : Instant) : Json := .text t.write

def instant? (json : Json) : Option Instant := do Instant.read? (← json.text?)

def ofWord (n : UInt64) : Json := .natural n

def word? : Json → Option UInt64
  | .natural n => some n
  | _ => none

/-- A text; null for none. -/
def ofText? : Option String → Json
  | some found => .text found
  | none => .null

end Json

namespace AnswerRecord

def toJson (r : AnswerRecord) : Json :=
  .object [("id", .ofId r.id), ("blueprint", .text r.blueprint), ("tags", .ofTags r.tags),
    ("scores", .ofScores r.scores), ("timestamp", .ofInstant r.born),
    ("progress", .ofWord r.progress), ("ancestors", .ofIds r.ancestors),
    ("language", .text r.language)]

def ofJson? (json : Json) : Option AnswerRecord := do
  let f ← json.record?
    ["id", "blueprint", "tags", "scores", "timestamp", "progress", "ancestors", "language"]
  return {
    id := ← Json.required? f "id" Json.id?
    blueprint := ← Json.required? f "blueprint" Json.text?
    tags := ← Json.required? f "tags" Json.tags?
    scores := ← Json.required? f "scores" Json.scores?
    born := ← Json.required? f "timestamp" Json.instant?
    progress := ← Json.required? f "progress" Json.word?
    ancestors := ← Json.required? f "ancestors" (Json.list? Json.id?)
    language := ← Json.required? f "language" Json.text? }

end AnswerRecord

namespace Answer

def toJson (a : Answer) : Json :=
  .object [("id", .ofId a.id), ("program", a.program.toJson), ("scores", .ofScores a.scores),
    ("progress", .ofWord a.progress), ("ancestors", .ofIds a.ancestors), ("tags", .ofTags a.tags),
    ("timestamp", .ofInstant a.born), ("language", .text a.language),
    ("external_id", .ofText? a.externalId), ("external_revision", .ofText? a.revision)]

/-- Reads the JSON form of an answer. The two marks of a store may be missing. -/
def ofJson? (json : Json) : Option Answer := do
  let f ← json.record?
    ["id", "program", "scores", "progress", "ancestors", "tags", "timestamp", "language",
      "external_id", "external_revision"]
  return {
    id := ← Json.required? f "id" Json.id?
    program := ← Json.required? f "program" Program.ofJson?
    scores := ← Json.required? f "scores" Json.scores?
    progress := ← Json.required? f "progress" Json.word?
    ancestors := ← Json.required? f "ancestors" (Json.list? Json.id?)
    tags := ← Json.required? f "tags" Json.tags?
    born := ← Json.required? f "timestamp" Json.instant?
    language := ← Json.required? f "language" Json.text?
    externalId := ← Json.optional? f "external_id" Json.text?
    revision := ← Json.optional? f "external_revision" Json.text? }

end Answer

end Evolution
