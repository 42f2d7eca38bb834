import Evolution.Blueprint.Error
import Evolution.Point.Basic

/-!
The footnote section of a blueprint and its link to the code. The section starts at the first line
that opens an entry. Blank lines in it count for nothing; a line that opens no entry goes on with
the text of the one before. Linking goes through the literals in pre-order: each takes the first
entry of its type that no literal before it took, and the entries that nobody takes stay in their
order.
-/

namespace Evolution.Blueprint

/-- Reads the line with number `line` as the first of an entry. -/
def readEntry (line : Nat) (text : List Char) : Except ParseError Footnote :=
  match Footnote.ofLine? text with
  | some note => .ok note
  | none => .error (.malformedFootnote line (String.ofList (Text.trim text)))

/-- The entries of a section whose first line has number `line`, and before them the trimmed lines
that go on with an entry further up. -/
def readNotes (line : Nat) :
    List (List Char) → Except ParseError (List (List Char) × List Footnote)
  | [] => .ok ([], [])
  | text :: rest =>
    if Footnote.opens text then do
      let note ← readEntry line text
      let (more, notes) ← readNotes (line + 1) rest
      return ([], note.extend more :: notes)
    else do
      let (more, notes) ← readNotes (line + 1) rest
      let part := Text.trim text
      return (if part.isEmpty then more else part :: more, notes)

/-- Takes the first footnote of a type out of the pool. -/
def claim? (tag : String) : List Footnote → Option (Footnote × List Footnote)
  | [] => none
  | note :: pool =>
    if note.tag = tag then some (note, pool)
    else (claim? tag pool).map fun (found, left) => (found, note :: left)

mutual

/-- Gives each literal its footnote out of the pool; what stays in the pool comes back with the
tree. -/
def link : Point → List Footnote → Except ParseError (Point × List Footnote)
  | .block inner, pool => (linkIn inner pool).map fun (linked, left) => (.block linked, left)
  | .literal note, pool =>
    match claim? note.tag pool with
    | none => .error (.missingFootnote note.tag)
    | some (found, left) => .ok (.literal found, left)
  | .instruction name, pool => .ok (.instruction name, pool)
  | .reference name, pool => .ok (.reference name, pool)

def linkIn : List Point → List Footnote → Except ParseError (List Point × List Footnote)
  | [], pool => .ok ([], pool)
  | p :: rest, pool => do
    let (p, pool) ← link p pool
    let (rest, pool) ← linkIn rest pool
    return (p :: rest, pool)

end

end Evolution.Blueprint
