import RoutePattern.LexemeNames

/-!
# Traits of ASCII characters

Each byte has a set of traits, empty above 7F. Sets of traits are lists in the order of `all`.
-/
namespace RoutePattern

inductive AsciiTrait where
  | whitespace | upper | identifierStart | digit | segment | control | mark
  deriving DecidableEq

namespace AsciiTrait

def all : List AsciiTrait := [whitespace, upper, identifierStart, digit, segment, control, mark]

def name : AsciiTrait → String
  | whitespace => "WHITESPACE" | upper => "UPPER" | identifierStart => "IDENT_START"
  | digit => "DIGIT" | segment => "SEGMENT" | control => "CONTROL" | mark => "TERMINAL"

def blank (c : Char) : Bool := c = ' ' || c = '\t' || c = '\n' || c = '\r'

def holds : AsciiTrait → Char → Bool
  | whitespace, c => blank c
  | upper, c => c.isUpper
  | identifierStart, c => c.isAlpha || c = '_'
  | digit, c => c.isDigit
  | segment, c => c.toNat < 128 && c ≠ '\x00' && c ≠ '/' && !blank c
  | control, c => c.toNat < 32 || c.toNat = 127
  | mark, c => (Lexeme.ofMark? c).isSome

def ofByte (b : UInt8) : List AsciiTrait := all.filter (·.holds (Char.ofNat b.toNat))

def union (s t : List AsciiTrait) : List AsciiTrait := all.filter fun a => s.contains a || t.contains a

def includes (s t : List AsciiTrait) : Bool := t.all s.contains

def meets (s t : List AsciiTrait) : Bool := t.any s.contains

end AsciiTrait
end RoutePattern
