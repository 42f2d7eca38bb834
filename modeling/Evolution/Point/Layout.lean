import Evolution.Point.Basic

/-!
The two renderings of a tree as code. `compact` puts it on one line. `codeLines` gives every point a
line of its own, two blanks deeper than the block it stands in; a block with contents closes on a
line of its own.
-/

namespace Evolution.Point

mutual

/-- The code on a single line. -/
def compact : Point → List Char
  | .block inner => "block \x7b".toList ++ compacts inner
  | .instruction name => "do ".toList ++ name.toList
  | .reference name => "ref ".toList ++ name.toList
  | .literal note => "value «".toList ++ note.tag.toList ++ ['»']

/-- The rest of a block after its opening brace: each point between blanks, then the closing brace.
-/
def compacts : List Point → List Char
  | [] => ['}']
  | [p] => ' ' :: p.compact ++ " \x7d".toList
  | p :: q :: rest => ' ' :: p.compact ++ compacts (q :: rest)

end

/-- The blanks at the start of a line. -/
def indent (depth : Nat) : List Char :=
  List.replicate (2 * depth) ' '

mutual

/-- The code with one point on a line, at a depth of nesting. -/
def codeLines (depth : Nat) : Point → List (List Char)
  | .block [] => [indent depth ++ "block \x7b\x7d".toList]
  | .block (p :: rest) =>
    (indent depth ++ "block \x7b".toList) :: codeLines (depth + 1) p ++
      codeLinesIn (depth + 1) rest ++
      [indent depth ++ ['}']]
  | .instruction name => [indent depth ++ "do ".toList ++ name.toList]
  | .reference name => [indent depth ++ "ref ".toList ++ name.toList]
  | .literal note => [indent depth ++ "value «".toList ++ note.tag.toList ++ ['»']]

def codeLinesIn (depth : Nat) : List Point → List (List Char)
  | [] => []
  | p :: rest => codeLines depth p ++ codeLinesIn depth rest

end

/-- The indented code. Blanks that a name leaves at the very end are dropped. -/
def code (p : Point) : List Char :=
  Text.trimEnd (Text.joinLines (codeLines 0 p))

/-- The code, then the footnotes of the literals. -/
def blueprint (p : Point) : String :=
  String.ofList (Text.joinLines (p.code :: p.footnotes.map Footnote.render))

end Evolution.Point
