import RoutePattern.AsciiTraits
import RoutePattern.CodePointRanges

/-!
# Classes of code points

A code point is a character or one of two sentinels, and the sentinels are in no class. ASCII
characters are answered by their traits and all others by Unicode categories.
-/
namespace RoutePattern

inductive CodePoint where
  | reset | eof
  | char (c : Char)
  deriving DecidableEq

namespace CodePoint

def byteOrderMark : Char := '\uFEFF'

def char? : CodePoint → Option Char
  | char c => some c
  | _ => none

def is (p : CodePoint) (c : Char) : Bool := p = char c

def isAny (p : CodePoint) (set : List Char) : Bool := p.char?.any set.contains

def utf8Size (p : CodePoint) : Nat := p.char?.elim 0 Char.utf8Size

/-- The character as text, nothing for a sentinel. -/
def text (p : CodePoint) : String := p.char?.elim "" Char.toString

def satisfies (p : CodePoint) (ascii : AsciiTrait) (wide : Char → Bool) : Bool :=
  p.char?.any fun c => if c.toNat < 128 then ascii.holds c else wide c

def isWhitespace (p : CodePoint) : Bool := p.satisfies .whitespace fun _ => false

def isUpper (p : CodePoint) : Bool := p.satisfies .upper fun _ => false

def isDigit (p : CodePoint) : Bool := p.satisfies .digit decimalDigitRanges.has

def isIdentifierStart (p : CodePoint) : Bool := p.satisfies .identifierStart letterRanges.has

def isIdentifier (p : CodePoint) : Bool := p.isIdentifierStart || p.isDigit

def isSegment (p : CodePoint) : Bool := p.satisfies .segment fun _ => true

/-- Neither NUL nor the byte order mark nor the replacement character. -/
def isValid (p : CodePoint) : Bool :=
  p.char?.any fun c => c ≠ '\x00' && c ≠ byteOrderMark && c ≠ '\uFFFD'

/-- The characters of category Cc: C0 controls, DEL and C1 controls. -/
def isControl (c : Char) : Bool := c.toNat < 0x20 || (0x7F ≤ c.toNat && c.toNat ≤ 0x9F)

def isLiteral (p : CodePoint) : Bool := p.isValid && p.char?.any fun c => !isControl c

/-- A backslash in front of a member of the set. -/
def isEscaped (p ahead : CodePoint) (set : List Char) : Bool := p.is '\x5c' && ahead.isAny set

/-- The lexeme of a single code point, whatever stands around it. -/
def classify : CodePoint → Lexeme
  | eof => .endOfInput
  | reset => .invalid
  | char c =>
    let p := char c
    if p.isWhitespace then .whitespace
    else match Lexeme.ofMark? c with
    | some l => l
    | none =>
      if AsciiTrait.digit.holds c then .digit
      else if !p.isValid then .invalid
      else if p.isUpper then .upper
      else if p.isIdentifierStart then .identifier
      else if p.isLiteral then .literal
      else .invalid

def classifyAll (set : List Char) : List Lexeme := set.map fun c => (char c).classify

end CodePoint
end RoutePattern
