import RoutePattern.LexemeNames
import RoutePattern.OffsetMarkers

/-!
# Failures of a scan

Each failure carries its cause and the offset that it is reported at. Illegal input is a byte
sequence that is no UTF-8, a NUL, or a byte order marker that is not first.
-/
namespace RoutePattern

inductive Failure where
  | illegalEncoding (offset : Nat)
  | illegalNul (offset : Nat)
  | illegalMarker (offset : Nat)
  | unexpected (found : Lexeme) (expected : List Lexeme) (offset : Nat)
  | unterminated (opener found : Lexeme) (offset : Nat)
  | unbalanced (opener closer found : Lexeme) (depth : Int) (offset : Nat)
  | ambiguous (found : Lexeme) (suggestions : List String) (offset : Nat)
  deriving DecidableEq

namespace Failure

def offset : Failure → Nat
  | illegalEncoding n | illegalNul n | illegalMarker n => n
  | unexpected _ _ n | unterminated _ _ n | unbalanced _ _ _ _ n | ambiguous _ _ n => n

def cause : Failure → String
  | illegalEncoding _ => "illegal UTF-8 encoding"
  | illegalNul _ => "illegal NUL character"
  | illegalMarker _ => "illegal byte order marker"
  | unexpected found expected _ => "unexpected " ++ found.name ++ ", expecting " ++ Lexeme.listing " or " expected
  | unterminated opener found _ => "unterminated " ++ opener.name ++ ", gave up on \x22" ++ found.name ++ "\x22"
  | unbalanced opener closer found depth _ =>
    if depth < 0 then
      "unbalanced " ++ closer.name ++ ", " ++ toString depth ++ " open " ++ opener.name ++
        " remains but got " ++ found.name
    else
      "unbalanced " ++ opener.name ++ ", " ++ toString depth ++ " unclosed " ++ closer.name ++
        " remains but got " ++ found.name
  | ambiguous found _ _ => "ambiguous " ++ found.name

def advice : Failure → String
  | ambiguous _ (first :: more) _ => ", did you mean " ++ enumerate " or " (first :: more)
  | _ => ""

def message (e : Failure) : String := e.cause ++ " at byte " ++ toString e.offset ++ e.advice

def annotate (e : Failure) (pattern : String) : String := Marker.annotate pattern e.message e.offset

end Failure
end RoutePattern
