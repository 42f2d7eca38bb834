import Evolution.Blueprint.Code
import Evolution.Blueprint.Notes
import Evolution.Point.Layout

/-!
Programs and their written form, the blueprint: the code, then the footnotes of its literals in
pre-order, then the footnotes that no literal claims. Reading looks at the footnote section first,
so a malformed entry is reported before anything that is wrong with the code.
-/

namespace Evolution

open Blueprint

/-- A tree of points with the footnotes that none of its literals claims. -/
structure Program where
  root : Point
  unused : List Footnote
deriving DecidableEq, Inhabited

namespace Program

def ofPoint (root : Point) : Program := ⟨root, []⟩

def empty : Program := ofPoint .emptyBlock

def size (p : Program) : Nat := p.root.size

/-- All footnotes: the claimed ones in pre-order, then the unused. -/
def footnotes (p : Program) : List Footnote :=
  p.root.footnotes ++ p.unused

def code (p : Program) : List Char := p.root.code

def notes (p : Program) : List Char :=
  Text.joinLines (p.footnotes.map Footnote.render)

def written (p : Program) : List Char :=
  if p.footnotes.isEmpty then p.code else p.code ++ '\n' :: p.notes

/-- The blueprint: code, then footnotes. -/
def blueprint (p : Program) : String := String.ofList p.written

/-- Reads a blueprint. -/
def read (text : List Char) : Except ParseError Program :=
  let all := Text.lines text
  let code := all.takeWhile (!Footnote.opens ·)
  let below := all.dropWhile (!Footnote.opens ·)
  match readNotes (code.length + 1) below with
  | .error e => .error e
  | .ok (_, notes) =>
    match readCode (Text.joinLines code) with
    | .error e => .error e
    | .ok root =>
      match link root notes with
      | .error e => .error e
      | .ok (root, unused) => .ok ⟨root, unused⟩

def parse (blueprint : String) : Except ParseError Program :=
  read blueprint.toList

end Program

end Evolution
