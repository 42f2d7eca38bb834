/-!
Why a blueprint cannot be read, with the words for it. Positions count tokens from zero, lines count
from one in the whole text.
-/

namespace Evolution.Blueprint

inductive ParseError where
  /-- There is no code at all. -/
  | empty
  /-- The token at this position cannot stand there. -/
  | unexpectedToken (token : String) (position : Nat)
  /-- The code ends where this keyword still needs something. -/
  | unexpectedEnd (after : String)
  /-- The code ends inside the block whose brace is at this position. -/
  | unterminatedBlock (position : Nat)
  /-- The root point is complete and more tokens follow. -/
  | trailingCode (rest : String)
  /-- A line of the footnote section is no entry. -/
  | malformedFootnote (line : Nat) (text : String)
  /-- A literal's tag is no type name. -/
  | invalidTypeName (name : String)
  /-- A literal has no footnote of its type left. -/
  | missingFootnote (tag : String)
deriving DecidableEq, Inhabited

namespace ParseError

def name : ParseError → String
  | empty => "Empty"
  | unexpectedToken .. => "UnexpectedToken"
  | unexpectedEnd .. => "UnexpectedEnd"
  | unterminatedBlock .. => "UnterminatedBlock"
  | trailingCode .. => "TrailingCode"
  | malformedFootnote .. => "MalformedFootnote"
  | invalidTypeName .. => "InvalidTypeName"
  | missingFootnote .. => "MissingFootnote"

def message : ParseError → String
  | empty => "blueprint has no code section"
  | unexpectedToken token position => s!"unexpected token '{token}' at position {position}"
  | unexpectedEnd after => s!"unexpected end of code after '{after}'"
  | unterminatedBlock position => s!"unterminated block opened at token {position}"
  | trailingCode rest => s!"trailing code after the root point: '{rest}'"
  | malformedFootnote line text => s!"malformed footnote on line {line}: '{text}'"
  | invalidTypeName name => s!"invalid type name: '{name}'"
  | missingFootnote tag => s!"no footnote left for value «{tag}»"

end ParseError

end Evolution.Blueprint
