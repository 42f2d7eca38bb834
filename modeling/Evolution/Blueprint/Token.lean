import Evolution.Text.Blank

/-!
Tokens of the code section. A brace is a token of its own wherever it stands; every other token is a
longest run of characters that are neither blank nor brace.
-/

namespace Evolution.Blueprint

inductive Token where
  | openBrace
  | closeBrace
  | word (text : String)
deriving DecidableEq, Inhabited

namespace Token

def text : Token → String
  | openBrace => "\x7b"
  | closeBrace => "\x7d"
  | word w => w

/-- Puts a word in front of tokens; a word without characters is none. -/
def cons (run : List Char) (tokens : List Token) : List Token :=
  if run.isEmpty then tokens else .word (String.ofList run) :: tokens

/-- The characters up to the first blank or brace, and the tokens from there on. -/
def scan : List Char → List Char × List Token
  | [] => ([], [])
  | c :: rest =>
    let (run, tokens) := scan rest
    if c = '\x7b' then ([], .openBrace :: cons run tokens)
    else if c = '\x7d' then ([], .closeBrace :: cons run tokens)
    else if Text.isBlank c then ([], cons run tokens)
    else (c :: run, tokens)

def ofChars (code : List Char) : List Token :=
  let (run, tokens) := scan code
  cons run tokens

end Token

end Evolution.Blueprint
