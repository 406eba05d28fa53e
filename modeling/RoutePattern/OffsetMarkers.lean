import RoutePattern.TextPadding

/-!
# Marker lines

One box drawing character under each code point of a pattern. The code point that holds a given byte
is marked, and an offset past the end shows in the last place.
-/
namespace RoutePattern

structure Marker where
  /-- Drawn when the marked code point is the first. -/
  left : Char
  mark : Char
  line : Char
  /-- Drawn last when the offset is past the end. -/
  overflow : Char
  deriving DecidableEq

namespace Marker

def edgeAbove : Marker := ⟨'┌', '┬', '─', '╖'⟩
def edgeBelow : Marker := ⟨'└', '┴', '─', '╜'⟩
def lineBelow : Marker := ⟨'┵', '┴', '─', '┺'⟩

/-- The first code point is drawn with `here` if it is the marked one, later ones with the mark. -/
def drawFrom (m : Marker) (here : Char) : List Char → Nat → List Char
  | [], _ => []
  | [c], offset => [if offset < c.utf8Size then here else m.overflow]
  | c :: rest, offset =>
    if offset < c.utf8Size then here :: List.replicate rest.length m.line
    else m.line :: m.drawFrom m.mark rest (offset - c.utf8Size)

def draw (m : Marker) (pattern : String) (offset : Nat) : String :=
  String.ofList (m.drawFrom m.left pattern.toList offset)

/-- A message, the pattern with its length in bytes, and a marker line with the offset. -/
def annotate (pattern message : String) (offset : Nat) : String :=
  let size := TextPadding.padLeft 3 (toString pattern.utf8ByteSize)
  let edge := edgeBelow.draw pattern offset
  let place := TextPadding.padLeft 3 (toString offset)
  s!"{message}\n{pattern} [{size}]\n{edge} [{place}]\n"

end Marker
end RoutePattern
