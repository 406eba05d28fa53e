import RoutePattern.JsonValues
import RoutePattern.TokenSequences

/-!
# Lexemes, positions and tokens as JSON

Records are written as objects. They are read from objects whose members stand in any order, with
unknown members passed over, or from arrays of exactly their fields in order.
-/
namespace RoutePattern

namespace Lexeme

def toJson (l : Lexeme) : JsonValue := .string l.name

/-- A name, or an object whose only member is a name without a value. -/
def ofJson? : JsonValue → Option Lexeme
  | .string s => ofName? s
  | .object [(s, .null)] => ofName? s
  | _ => none

end Lexeme

namespace Position

def toJson (p : Position) : JsonValue :=
  .object [("line", .ofNat p.line), ("column", .ofNat p.column), ("offset", .ofNat p.offset)]

def ofFields? (line column offset : JsonValue) : Option Position := do
  return ⟨← line.word?, ← column.word?, ← offset.word?⟩

def ofJson? : JsonValue → Option Position
  | .object members => do
    ofFields? (← JsonValue.member? "line" members) (← JsonValue.member? "column" members)
      (← JsonValue.member? "offset" members)
  | .array [line, column, offset] => ofFields? line column offset
  | _ => none

end Position

namespace Token

def toJson (t : Token) : JsonValue :=
  .object [("lexeme", t.lexeme.toJson), ("literal", .string t.literal), ("begin", t.start.toJson),
    ("end", t.stop.toJson)]

def ofFields? (lexeme literal start stop : JsonValue) : Option Token := do
  return ⟨← Lexeme.ofJson? lexeme, ← literal.string?, ← Position.ofJson? start,
    ← Position.ofJson? stop⟩

def ofJson? : JsonValue → Option Token
  | .object members => do
    ofFields? (← JsonValue.member? "lexeme" members) (← JsonValue.member? "literal" members)
      (← JsonValue.member? "begin" members) (← JsonValue.member? "end" members)
  | .array [lexeme, literal, start, stop] => ofFields? lexeme literal start stop
  | _ => none

end Token

namespace JsonValue

def ofLexemes (ls : List Lexeme) : JsonValue := array (ls.map Lexeme.toJson)

def lexemes? : JsonValue → Option (List Lexeme) := listOf? Lexeme.ofJson?

def ofTokens (ts : List Token) : JsonValue := array (ts.map Token.toJson)

def tokens? : JsonValue → Option (List Token) := listOf? Token.ofJson?

end JsonValue
end RoutePattern
