import Evolution.Text.Blank
import Evolution.Text.Lines
import Evolution.Text.Identifier

/-!
Footnotes: the typed texts that the code of a program refers to by position. A footnote is written
as its tag in guillemets, then a blank and its text if it has one. A text may run over several
lines; the lines after the first carry no tag.
-/

namespace Evolution

/-- A literal's type, here called its tag, and its text as written. -/
structure Footnote where
  tag : String
  text : String
deriving DecidableEq, Inhabited

namespace Footnote

/-- The written form; an empty text leaves the tag alone. -/
def render (note : Footnote) : List Char :=
  '«' :: note.tag.toList ++ '»' ::
    (if note.text.toList.isEmpty then [] else ' ' :: note.text.toList)

def opens (line : List Char) : Bool :=
  (Text.trimStart line).head? == some '«'

/-- Reads a line that opens an entry. The text is what follows the tag, trimmed; it stays on one
line. -/
def ofLine? (line : List Char) : Option Footnote :=
  match Text.trim line with
  | '«' :: rest =>
    let tag := rest.takeWhile (· != '»')
    match rest.dropWhile (· != '»') with
    | [] => none
    | _ :: tail =>
      let text := Text.trim tail
      if Text.isTypeName tag && !text.contains '\n' then
        some ⟨String.ofList tag, String.ofList text⟩
      else
        none
  | _ => none

/-- The entry with further lines of text; an empty text takes the first of them in its place. -/
def extend (note : Footnote) (more : List (List Char)) : Footnote :=
  let first := note.text.toList
  let parts := if first.isEmpty then more else first :: more
  { note with text := String.ofList (Text.joinLines parts) }

end Footnote

end Evolution
