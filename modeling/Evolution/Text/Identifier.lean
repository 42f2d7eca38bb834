/-!
The two kinds of identifier. Both are written in ASCII letters, digits and underscores; a type name
starts with a letter, a key with a letter or an underscore. Letters outside ASCII are refused.
-/

namespace Evolution.Text

/-- What may follow the first character of an identifier. -/
def isIdentifierTail (c : Char) : Bool :=
  c.isAlphanum || c == '_'

/-- The name of a literal type: a letter, then letters, digits and underscores. -/
def isTypeName : List Char → Bool
  | [] => false
  | c :: rest => c.isAlpha && rest.all isIdentifierTail

/-- The key of a score or a tag: a letter or an underscore, then letters, digits and underscores. -/
def isKey : List Char → Bool
  | [] => false
  | c :: rest => (c.isAlpha || c == '_') && rest.all isIdentifierTail

end Evolution.Text
