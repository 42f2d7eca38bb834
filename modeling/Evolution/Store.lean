import Evolution.Answer.Record
import Evolution.Table

/-!
A store of answers with optimistic locking. An answer that carries no name of the store is a new
document under its identifier; one that does is an update and has to carry the revision that the
document has. All answers of a call are checked before any of them is written. A revision is the
number of times that the document was written, and a new identifier.
-/

namespace Evolution

structure Document where
  generation : Nat
  revision : String
  body : Json

/-- Documents by name. -/
structure Store where
  documents : Table Document

/-- What saving an answer did. -/
structure Receipt where
  externalId : String
  revision : String
  /-- Whether the answer carried no name of the store before. -/
  inserted : Bool
deriving DecidableEq, Inhabited

/-- Why a call is refused. -/
inductive StoreError where
  | notFound (id : String)
  /-- The answer holds another revision than the document has. -/
  | conflict (id : String) (held : Option String) (current : String)
  /-- The document cannot be read, or none that could be read can be made. -/
  | unreadable (id : String)
deriving DecidableEq, Inhabited

namespace Store

def empty : Store := ⟨.empty⟩

def size (s : Store) : Nat := s.documents.size

def revision? (s : Store) (id : String) : Option String := (s.documents.get? id).map (·.revision)

/-- Refuses an update of a document that is not there or has another revision. -/
def check (s : Store) (a : Answer) : Except StoreError Unit :=
  match a.externalId with
  | none => .ok ()
  | some id =>
    match s.documents.get? id with
    | none => .error (.notFound id)
    | some d =>
      if a.revision = some d.revision then .ok () else .error (.conflict id a.revision d.revision)

def nameOf (a : Answer) : String := a.externalId.getD a.id.write

/-- What the writing of an answer leaves behind. -/
structure Written where
  store : Store
  supply : Supply
  answer : Answer
  receipt : Receipt

/-- Writes an answer. -/
def write (s : Store) (supply : Supply) (a : Answer) : Written :=
  let id := nameOf a
  let (stamp, later) := supply.fresh
  let generation := ((s.documents.get? id).map (·.generation)).getD 0 + 1
  let revision := toString generation ++ "-" ++ stamp.write
  { store := ⟨s.documents.insert id ⟨generation, revision, a.record.toJson⟩⟩
    supply := later
    answer := a.setExternal id revision
    receipt := ⟨id, revision, a.externalId.isNone⟩ }

/-- Writes answers, one after the other. -/
def writeAll (s : Store) (supply : Supply) :
    List Answer → Store × Supply × List Answer × List Receipt
  | [] => (s, supply, [], [])
  | a :: rest =>
    let w := s.write supply a
    let (store, supply, answers, receipts) := writeAll w.store w.supply rest
    (store, supply, w.answer :: answers, w.receipt :: receipts)

/-- Saves answers, all of them or none. -/
def save (s : Store) (supply : Supply) (answers : List Answer) :
    Except StoreError (Store × Supply × List Answer × List Receipt) :=
  match answers.forM s.check with
  | .error e => .error e
  | .ok () => .ok (s.writeAll supply answers)

/-- A call on a store and on answers in their places: how it leaves them, and how it ended. -/
structure Saving where
  store : Store
  supply : Supply
  answers : List Answer
  outcome : Except StoreError (List Receipt)

/-- Writes answers in their places, one after the other. A record that cannot be encoded ends it with
the answers before it written. -/
def writeInPlace (encodes : AnswerRecord → Bool) (s : Store) (supply : Supply) :
    List Answer → Saving
  | [] => ⟨s, supply, [], .ok []⟩
  | a :: rest =>
    if encodes a.record then
      let w := s.write supply a
      let later := w.store.writeInPlace encodes w.supply rest
      { later with
        answers := w.answer :: later.answers
        outcome := later.outcome.map (w.receipt :: ·) }
    else ⟨s, supply, a :: rest, .error (.unreadable (nameOf a))⟩

/-- Saves answers in their places: all are checked first, then they are written. -/
def saveInPlace (encodes : AnswerRecord → Bool) (s : Store) (supply : Supply)
    (answers : List Answer) : Saving :=
  match answers.forM s.check with
  | .error cause => ⟨s, supply, answers, .error cause⟩
  | .ok () => s.writeInPlace encodes supply answers

/-- What a call gives that is made on copies: nothing if it was refused. -/
def Saving.result (done : Saving) : Except StoreError (Store × Supply × List Answer × List Receipt) :=
  done.outcome.map fun receipts => (done.store, done.supply, done.answers, receipts)

/-- The record that was saved under a name. -/
def load (s : Store) (id : String) : Except StoreError AnswerRecord :=
  match s.documents.get? id with
  | none => .error (.notFound id)
  | some d =>
    match AnswerRecord.ofJson? d.body with
    | some r => .ok r
    | none => .error (.unreadable id)

end Store

end Evolution
