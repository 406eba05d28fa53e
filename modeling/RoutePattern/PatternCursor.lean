import RoutePattern.Utf8Decoding
import RoutePattern.SourcePositions
import RoutePattern.CodePointClasses
import RoutePattern.ScanFailures

/-!
# Moving over a pattern

A cursor stands on one code point of a byte list and may hold the next one as its lookahead. The
first failure is kept, moves the cursor to the end, and is reported once.
-/
namespace RoutePattern

/-- What stands at an offset: nothing, a character and the bytes up to the next one, or no legal code point. -/
inductive Decoded where
  | stop
  | char (c : Char) (width : Nat)
  | illegal (failure : Failure)
  deriving DecidableEq

namespace Decoded

def codePoint : Decoded → CodePoint
  | char c _ => .char c
  | _ => .eof

def widen (n : Nat) : Decoded → Decoded
  | char c width => char c (width + n)
  | d => d

def ofChar (c : Char) (offset : Nat) : Decoded :=
  if c = '\x00' then illegal (.illegalNul offset)
  else if c = CodePoint.byteOrderMark then illegal (.illegalMarker offset)
  else char c c.utf8Size

/-- Decodes without exception for a byte order marker. -/
def strict (pattern : List UInt8) (offset : Nat) : Decoded :=
  match pattern.drop offset with
  | [] => stop
  | b :: bytes => match Utf8.first? (b :: bytes) with
    | none => illegal (.illegalEncoding offset)
    | some c => ofChar c offset

/-- A byte order marker in front belongs to the code point after it. -/
def ofPattern (pattern : List UInt8) (offset : Nat) : Decoded :=
  if offset = 0 ∧ Utf8.first? pattern = some CodePoint.byteOrderMark then
    (strict pattern CodePoint.byteOrderMark.utf8Size).widen CodePoint.byteOrderMark.utf8Size
  else strict pattern offset

end Decoded

structure Cursor where
  pattern : List UInt8
  position : Position
  /-- Where the current code point starts. -/
  offset : Nat
  /-- Where the unread bytes start. -/
  readOffset : Nat
  current : CodePoint
  lookahead : Option CodePoint
  failure : Option Failure
  /-- Failures not yet handed to an observer. -/
  reports : List Failure
  deriving DecidableEq

namespace Cursor

def start (pattern : List UInt8) : Cursor := ⟨pattern, .start, 0, 0, .reset, none, none, []⟩

def more (c : Cursor) : Bool := c.failure.isNone && c.current ≠ .eof

def next (c : Cursor) : Decoded := if c.failure.isSome then .stop else .ofPattern c.pattern c.readOffset

def fail (c : Cursor) (e : Failure) : Cursor :=
  if c.failure.isSome then c
  else { c with current := .eof, lookahead := none, failure := some e, reports := c.reports ++ [e] }

def finish (c : Cursor) : Cursor :=
  { c with offset := c.pattern.length, current := .eof, lookahead := none }

/-- The first code point moves the offset but not the column. -/
def moveTo (c : Cursor) (ch : Char) (width : Nat) : Cursor :=
  { c with
    position := c.position.advance (if ch = '\n' then 1 else 0) (if c.current = .reset then 0 else 1) width
    offset := c.readOffset + width - ch.utf8Size
    readOffset := c.readOffset + width
    current := .char ch
    lookahead := none }

def advance (c : Cursor) : Cursor :=
  match c.next with
  | .char ch width => c.moveTo ch width
  | .stop => c.finish
  | .illegal e => (c.fail e).finish

/-- Finds the code point after the current one and remembers it. -/
def look (c : Cursor) : Cursor :=
  match c.lookahead with
  | some _ => c
  | none => match c.next with
    | .illegal e => { c.fail e with lookahead := some .eof }
    | d => { c with lookahead := some d.codePoint }

/-- What the last look found. -/
def ahead (c : Cursor) : CodePoint := c.lookahead.getD .eof

def unexpected (c : Cursor) (found : CodePoint) (expected : List Lexeme) : Cursor :=
  c.fail (.unexpected found.classify expected c.offset)

def unterminated (c : Cursor) (opener : Char) (found : CodePoint) : Cursor :=
  c.fail (.unterminated (CodePoint.char opener).classify found.classify c.offset)

def unbalanced (c : Cursor) (opener closer : Char) (found : CodePoint) (depth : Int) : Cursor :=
  c.fail (.unbalanced (CodePoint.char opener).classify (CodePoint.char closer).classify found.classify
    depth c.offset)

def ambiguous (c : Cursor) (found : CodePoint) (suggestions : List String) : Cursor :=
  c.fail (.ambiguous found.classify suggestions c.offset)

def expect (c : Cursor) (set : List Char) : Cursor :=
  if c.current.isAny set then c else c.unexpected c.current (CodePoint.classifyAll set)

def take (c : Cursor) (set : List Char) : Cursor :=
  if c.current.isAny set then c.advance else c.unexpected c.current (CodePoint.classifyAll set)

/-- The text of the bytes between two offsets, up to the first ill-formed byte. -/
def slice (c : Cursor) (first last : Nat) : String :=
  if last ≤ c.pattern.length then Utf8.text ((c.pattern.drop first).take (last - first)) else ""

/-- Falls with every step forward, to the end or to a failure. -/
def remaining (c : Cursor) : Nat :=
  if c.failure.isSome then 0 else 2 * (c.pattern.length - c.readOffset) + if c.current = .eof then 0 else 1

end Cursor
end RoutePattern
