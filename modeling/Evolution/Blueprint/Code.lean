import Evolution.Blueprint.Error
import Evolution.Blueprint.Token
import Evolution.Point.Basic

/-!
Reading code. The grammar of a point is

    point ::= block { point* } | do name | ref name | value «type»

and a text holds exactly one. The reader goes through the tokens once and keeps the blocks that are
open; a finished point goes into the innermost of them. Literals come out without their texts, which
the footnote section holds. `Point.tokens` is the other direction.
-/

namespace Evolution.Blueprint

/-- A block whose closing brace is still to come: where its opening brace stands, and its points so
far, the last one first. -/
structure OpenBlock where
  position : Nat
  contents : List Point
deriving Inhabited

/-- Puts a finished point into the innermost open block and reads on. A point outside all blocks is
the root, and the reading ends there. -/
def settle (p : Point) (rest : List Token)
    (more : List OpenBlock → Except ParseError (Point × List Token)) :
    List OpenBlock → Except ParseError (Point × List Token)
  | [] => .ok (p, rest)
  | b :: outer => more ({ b with contents := p :: b.contents } :: outer)

/-- Whether a word can be the name after `do` or `ref`. A keyword can. -/
def isName (word : String) : Bool :=
  word.toList.head? != some '«'

/-- What stands between the guillemets of a literal's tag. -/
def tagName? (word : String) : Option (List Char) :=
  match word.toList with
  | '«' :: rest => if rest.getLast? = some '»' then some rest.dropLast else none
  | _ => none

/-- Reads on from the token at `position` with some blocks open, to the end of the root point. -/
def readPoint (position : Nat) (opened : List OpenBlock) :
    List Token → Except ParseError (Point × List Token)
  | [] =>
    match opened with
    | [] => .error (.unexpectedEnd "")
    | b :: _ => .error (.unterminatedBlock b.position)
  | .openBrace :: _ => .error (.unexpectedToken (Token.text .openBrace) position)
  | .closeBrace :: rest =>
    match opened with
    | [] => .error (.unexpectedToken (Token.text .closeBrace) position)
    | b :: outer =>
      settle (.block b.contents.reverse) rest (fun os => readPoint (position + 1) os rest) outer
  | .word keyword :: rest =>
    if keyword = "block" then
      match rest with
      | [] => .error (.unexpectedEnd keyword)
      | .openBrace :: rest => readPoint (position + 2) (⟨position + 1, []⟩ :: opened) rest
      | other :: _ => .error (.unexpectedToken other.text (position + 1))
    else if keyword = "do" ∨ keyword = "ref" then
      match rest with
      | [] => .error (.unexpectedEnd keyword)
      | .word name :: rest =>
        if isName name then
          settle (if keyword = "do" then .instruction name else .reference name) rest
            (fun os => readPoint (position + 2) os rest) opened
        else .error (.unexpectedToken name (position + 1))
      | brace :: _ => .error (.unexpectedToken brace.text (position + 1))
    else if keyword = "value" then
      match rest with
      | [] => .error (.unexpectedEnd keyword)
      | .word tag :: rest =>
        match tagName? tag with
        | none => .error (.unexpectedToken tag (position + 1))
        | some name =>
          if Text.isTypeName name then
            settle (.literal ⟨String.ofList name, ""⟩) rest
              (fun os => readPoint (position + 2) os rest) opened
          else .error (.invalidTypeName (String.ofList name))
      | brace :: _ => .error (.unexpectedToken brace.text (position + 1))
    else .error (.unexpectedToken keyword position)

/-- The tree that the tokens write. -/
def readTokens (tokens : List Token) : Except ParseError Point :=
  if tokens.isEmpty then .error .empty
  else
    match readPoint 0 [] tokens with
    | .error e => .error e
    | .ok (root, []) => .ok root
    | .ok (_, rest) => .error (.trailingCode (" ".intercalate (rest.map Token.text)))

/-- The tree that a code text writes, its literals without texts. -/
def readCode (code : List Char) : Except ParseError Point :=
  readTokens (Token.ofChars code)

end Evolution.Blueprint

namespace Evolution.Point

open Evolution.Blueprint

mutual

/-- The tokens that write a point. -/
def tokens : Point → List Token
  | .block inner => .word "block" :: .openBrace :: tokensIn inner ++ [.closeBrace]
  | .instruction name => [.word "do", .word name]
  | .reference name => [.word "ref", .word name]
  | .literal note => [.word "value", .word ("«" ++ note.tag ++ "»")]

def tokensIn : List Point → List Token
  | [] => []
  | p :: rest => tokens p ++ tokensIn rest

end

end Evolution.Point
