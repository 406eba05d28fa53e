/-!
# Lexemes

A lexeme is the category of a token. Nonterminals stand for a run of code points, terminals for a
single one.
-/
namespace RoutePattern

inductive Lexeme where
  | invalid
  | identifier | literal | method | number | regexp | string | segment | whitespace
  | slash | backslash | colon | upper | comma | digit | minus | wildcard
  | backquote | singleQuote | doubleQuote
  | leftParen | rightParen | leftBrace | rightBrace | leftBracket | rightBracket
  | endOfInput
  deriving DecidableEq

/-- Items with commas between them, except that the conjunction stands in front of the last. -/
def enumerate (conjunction : String) : List String → String
  | [] => ""
  | [item] => item
  | [item, last] => item ++ conjunction ++ last
  | item :: rest => item ++ ", " ++ enumerate conjunction rest

namespace Lexeme

def all : List Lexeme :=
  [invalid, identifier, literal, method, number, regexp, string, segment, whitespace,
   slash, backslash, colon, upper, comma, digit, minus, wildcard, backquote, singleQuote, doubleQuote,
   leftParen, rightParen, leftBrace, rightBrace, leftBracket, rightBracket, endOfInput]

instance : Inhabited Lexeme := ⟨invalid⟩

def ordinal (l : Lexeme) : Nat := all.idxOf l

/-- Every number past the last ordinal stands for the invalid lexeme. -/
def ofOrdinal (n : Nat) : Lexeme := all.getD n invalid

def name : Lexeme → String
  | invalid => "BAD" | identifier => "IDENT" | literal => "LIT" | method => "METHOD"
  | number => "NUMBER" | regexp => "REGEXP" | string => "STRING" | segment => "SEGMENT"
  | whitespace => "WHITESPACE" | slash => "FSLASH" | backslash => "BSLASH" | colon => "COLON"
  | upper => "UPPER" | comma => "COMMA" | digit => "DIGIT" | minus => "MINUS" | wildcard => "WILD"
  | backquote => "BQUOTE" | singleQuote => "SQUOTE" | doubleQuote => "DQUOTE"
  | leftParen => "LPAREN" | rightParen => "RPAREN" | leftBrace => "LBRACE" | rightBrace => "RBRACE"
  | leftBracket => "LBRACK" | rightBracket => "RBRACK" | endOfInput => "EOF"

def ofName? (s : String) : Option Lexeme := all.find? (·.name == s)

def isValid (l : Lexeme) : Bool := l ≠ invalid

def isTerminal (l : Lexeme) : Bool :=
  slash.ordinal ≤ l.ordinal && l.ordinal ≤ rightBracket.ordinal

def isNonterminal (l : Lexeme) : Bool :=
  identifier.ordinal ≤ l.ordinal && l.ordinal ≤ whitespace.ordinal

/-- The lexeme of a character that stands for itself. -/
def ofMark? : Char → Option Lexeme
  | '/' => some slash | '\x5c' => some backslash | ':' => some colon | ',' => some comma
  | '-' => some minus | '*' => some wildcard
  | '\x60' => some backquote | '\x27' => some singleQuote | '\x22' => some doubleQuote
  | '(' => some leftParen | ')' => some rightParen
  | '\x7b' => some leftBrace | '\x7d' => some rightBrace
  | '[' => some leftBracket | ']' => some rightBracket
  | _ => none

/-- The names in double quotes, as a list in running text. -/
def listing (conjunction : String) (ls : List Lexeme) : String :=
  if ls.isEmpty then "(NONE)" else enumerate conjunction (ls.map fun l => "\x22" ++ l.name ++ "\x22")

end Lexeme
end RoutePattern
