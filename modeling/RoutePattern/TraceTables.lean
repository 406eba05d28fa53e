import RoutePattern.PatternScanner

/-!
# Trace of a scan as a table

A header and then, for every token, a row with the offsets, the pattern and the token, followed by a
rule with a marker under the offset. The table is written to a sink that may fill up.
-/
namespace RoutePattern

/-- Takes bytes up to a limit, if it has one. -/
structure Sink where
  limit : Option Nat
  taken : List UInt8
  deriving DecidableEq

namespace Sink

def empty (limit : Option Nat) : Sink := ⟨limit, []⟩

/-- Takes what fits, and tells whether that was all. -/
def write (s : Sink) (text : String) : Bool × Sink :=
  let bytes := text.toByteArray.toList
  match s.limit with
  | none => (true, { s with taken := s.taken ++ bytes })
  | some n =>
    let room := n - s.taken.length
    (decide (bytes.length ≤ room), { s with taken := s.taken ++ bytes.take room })

/-- Takes texts one after the other, up to the first that does not fit. -/
def writeAll (s : Sink) : List String → Bool × Sink
  | [] => (true, s)
  | text :: texts =>
    let (fits, s) := s.write text
    if fits then s.writeAll texts else (false, s)

end Sink

namespace TraceTable
open TextPadding

structure Widths where
  /-- The pattern column is at least this wide. -/
  pattern : Nat
  token : Nat
  deriving DecidableEq

instance : Inhabited Widths := ⟨12, 45⟩

inductive Fault where
  | scan (failure : Failure)
  | full
  deriving DecidableEq

def Fault.message : Fault → String
  | scan failure => failure.message
  | full => "IO error: writer is full"

def columnWidth (w : Widths) (pattern : String) : Nat := max pattern.length w.pattern

def header (w : Widths) (pattern : String) : List String :=
  let width := columnWidth w pattern
  let bar := spread '═' width
  let rule := spread '═' (w.token + 2)
  ["╔═════╤═════╤═" ++ bar ++ "═╤" ++ rule ++ "╗\n",
   "║ Off │ Pos │ " ++ padRight width ("Pattern (" ++ toString width ++ ")") ++ " │ " ++
    padRight w.token "Token" ++ " ║\n",
   "╠═════╪═════╪═" ++ bar ++ "═╪" ++ rule ++ "╣\n"]

def row (w : Widths) (pattern : String) (s : Step) : String :=
  "║ " ++ padLeft 3 (toString s.scanner.cursor.offset) ++ " │ " ++
    padLeft 3 (toString s.scanner.cursor.readOffset) ++ " │ " ++
    padRight (columnWidth w pattern) pattern ++ " │ " ++ padRight w.token s.token.text ++ " ║\n"

/-- The rule is open below while there is more to scan, and closes the table at the end. -/
def separator (w : Widths) (pattern : String) (s : Step) : String :=
  let mark := Marker.lineBelow.draw pattern s.scanner.cursor.offset
  let bar := spread '─' (columnWidth w pattern - pattern.length)
  let rule := spread '─' (w.token + 2)
  if s.scanner.more then "║─────┼─────┼─" ++ mark ++ bar ++ "─┼" ++ rule ++ "╢\n"
  else "╙─────┴─────┴─" ++ mark ++ bar ++ "─┴" ++ rule ++ "╜\n"

def block (w : Widths) (pattern : String) (s : Step) : List String := [row w pattern s, separator w pattern s]

structure Outcome where
  tokens : List Token
  fault : Option Fault
  sink : Sink
  deriving DecidableEq

/-- Scans while there is more and writes a block for every token, until one does not fit. Its token still counts. -/
def writeBlocks (w : Widths) (pattern : String) (s : Scanner) (sink : Sink) : Outcome :=
  if _h : s.more then
    let step := s.step
    let (fits, sink) := sink.writeAll (block w pattern step)
    if fits then
      let rest := writeBlocks w pattern step.scanner sink
      { rest with tokens := step.token :: rest.tokens }
    else ⟨[step.token], some .full, sink⟩
  else ⟨[], s.failure.map .scan, sink⟩
termination_by s.cursor.remaining
decreasing_by exact Scanner.remaining_step_lt _h

def trace (w : Widths) (pattern : String) (sink : Sink) : Outcome :=
  let (fits, sink) := sink.writeAll (header w pattern)
  if fits then writeBlocks w pattern (.start pattern.toByteArray.toList) sink else ⟨[], some .full, sink⟩

/-- A rule takes three bytes for a character, and the length of a text in bytes has 63 bits. -/
def Repeatable (w : Widths) (pattern : String) : Prop :=
  3 * columnWidth w pattern ≤ 0x7FFFFFFFFFFFFFFF ∧ 3 * (w.token + 2) ≤ 0x7FFFFFFFFFFFFFFF

/-- The width that a text is padded to has 16 bits. -/
def Paddable (w : Widths) (pattern : String) : Prop := columnWidth w pattern ≤ 0xFFFF ∧ w.token ≤ 0xFFFF

instance (w : Widths) (pattern : String) : Decidable (Repeatable w pattern) := inferInstanceAs (Decidable (_ ∧ _))

instance (w : Widths) (pattern : String) : Decidable (Paddable w pattern) := inferInstanceAs (Decidable (_ ∧ _))

/-- A trace, unless a column is too wide for one. The rules are made before anything is written. But nothing is padded
before the second line, so a sink that does not take the first is full before that. -/
def attempt (w : Widths) (pattern : String) (sink : Sink) : Option Outcome :=
  if ¬ Repeatable w pattern then none
  else if (sink.writeAll ((header w pattern).take 1)).1 ∧ ¬ Paddable w pattern then none
  else some (trace w pattern sink)

end TraceTable
end RoutePattern
