import RoutePattern.LexemeNames
import RoutePattern.SourcePositions
import RoutePattern.QuotedText

/-! # Tokens and their written form, alone and in sequence -/
namespace RoutePattern

structure Token where
  lexeme : Lexeme
  /-- The text covered, without quotes and escapes. -/
  literal : String
  start : Position
  stop : Position
  deriving DecidableEq

namespace Token

instance : Inhabited Token := ⟨.invalid, "", .unknown, .unknown⟩

def endOfInput (p : Position) : Token := ⟨.endOfInput, "", p, p⟩

def isValid (t : Token) : Bool := t.lexeme.isValid && t.start.isValid && t.stop.isValid

def text (t : Token) : String :=
  if t.literal.isEmpty then
    if t.start.isValid then "token (" ++ t.lexeme.name ++ ") at " ++ t.start.text
    else "token (" ++ t.lexeme.name ++ ")"
  else "token " ++ QuotedText.quote t.literal ++ " (" ++ t.lexeme.name ++ ") at " ++ t.start.text

/-- Where a sequence that ends with this token ends, as far as it is known. -/
def lastPosition (t : Token) : Position := if t.stop.isValid then t.stop else t.start

/-- The lexemes with the range from the first token to the last, or the only token. -/
def summary (conjunction : String) : List Token → String
  | [] => "(NONE)"
  | [t] => t.text
  | first :: second :: rest =>
    Lexeme.listing conjunction ((first :: second :: rest).map lexeme) ++
      " from " ++ first.start.text ++ " to " ++ (rest.getLastD second).lastPosition.text

end Token
end RoutePattern
