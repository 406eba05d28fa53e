/-!
# Positions in a pattern

Lines and columns count from one and offsets from zero. Columns count code points and do not start
over on a new line. A position without a line or column is unknown.
-/
namespace RoutePattern

structure Position where
  line : Nat
  column : Nat
  offset : Nat
  deriving DecidableEq

namespace Position

def start : Position := ⟨1, 1, 0⟩
def unknown : Position := ⟨0, 0, 0⟩

/-- The greatest line, column and offset in the supported range. -/
def limit : Position := ⟨127, 4095, 4095⟩

instance : Inhabited Position := ⟨start⟩

def isValid (p : Position) : Bool := 0 < p.line && 0 < p.column

def inBounds (p : Position) : Bool :=
  p.line ≤ limit.line && p.column ≤ limit.column && p.offset ≤ limit.offset

def advance (p : Position) (lines columns bytes : Nat) : Position :=
  ⟨p.line + lines, p.column + columns, p.offset + bytes⟩

/-- The line is written only after the first line, and the byte only after the first byte. -/
def text (p : Position) : String :=
  if !p.isValid then "?"
  else if p.offset = 0 then s!"rune {p.column}"
  else if p.line = 1 then s!"rune {p.column} (byte {p.offset})"
  else s!"{p.line}:{p.column} (byte {p.offset})"

end Position
end RoutePattern
