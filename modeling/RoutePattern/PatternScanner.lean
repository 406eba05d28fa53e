import RoutePattern.ModeTokens

/-!
# Scanning a pattern into tokens

A scanner is a cursor with the mode for the next token. One step reads one token, and draining takes
steps while there is more to read. A failed scanner only repeats the end of input.
-/
namespace RoutePattern

/-- What a scanner tells an observer. -/
inductive Event where
  | reset (length : Nat)
  | failed (failure : Failure)
  | scanned (lexeme : Lexeme) (offset readOffset : Nat)
  deriving DecidableEq

structure Scanner where
  cursor : Cursor
  mode : Mode
  deriving DecidableEq

def Scanner.failure (s : Scanner) : Option Failure := s.cursor.failure

/-- A token, the scanner behind it, and the events on the way. -/
structure Step where
  token : Token
  scanner : Scanner
  events : List Event
  deriving DecidableEq

/-- The token, unless the scanner has failed by then. -/
def Step.result (s : Step) : Except Failure Token := s.scanner.failure.elim (.ok s.token) .error

namespace Scanner

def start (pattern : List UInt8) : Scanner := ⟨.start pattern, .reset⟩

def more (s : Scanner) : Bool := s.cursor.more

/-- What could have stood in the place of an invalid token. -/
def recovery : List Lexeme := [.method, .slash, .segment, .colon, .leftBrace]

/-- The token of a finding ends where the cursor is. An invalid one is a failure, if there is none yet. -/
def accept (found : Finding) : Step :=
  let token := ⟨found.lexeme, found.literal, found.start, found.cursor.position⟩
  let cursor := if token.isValid then found.cursor else found.cursor.unexpected found.cursor.current recovery
  ⟨token, ⟨{ cursor with reports := [] }, .after token.lexeme⟩,
    cursor.reports.map .failed ++ [.scanned token.lexeme cursor.offset cursor.readOffset]⟩

def step (s : Scanner) : Step :=
  if s.failure.isSome then ⟨.endOfInput s.cursor.position, s, []⟩
  else accept (s.cursor.advance.token s.mode s.cursor.position)

theorem remaining_accept_le (found : Finding) :
    (accept found).scanner.cursor.remaining ≤ found.cursor.remaining := by
  unfold accept
  dsimp only
  split
  · exact Nat.le_refl _
  · have : (found.cursor.unexpected found.cursor.current recovery).remaining = 0 := found.cursor.remaining_fail _
    exact this ▸ Nat.zero_le _

theorem remaining_step_lt {s : Scanner} (h : s.more = true) :
    s.step.scanner.cursor.remaining < s.cursor.remaining := by
  have hf : s.failure.isSome = false := by
    simp only [more, Cursor.more, Bool.and_eq_true] at h
    simpa [failure] using h.1
  have ha := Cursor.remaining_advance_lt h
  have ht := Cursor.remaining_token_le s.mode s.cursor.position s.cursor.advance
  have hc := remaining_accept_le (s.cursor.advance.token s.mode s.cursor.position)
  simp only [step, hf]
  exact Nat.lt_of_le_of_lt hc (Nat.lt_of_le_of_lt ht ha)

def drain (s : Scanner) : List Step :=
  if _h : s.more then s.step :: drain s.step.scanner else []
termination_by s.cursor.remaining
decreasing_by exact remaining_step_lt _h

/-- The scanner after some steps. -/
def afterAll (s : Scanner) (steps : List Step) : Scanner := (steps.getLast?.map Step.scanner).getD s

def next (s : Scanner) : Except Failure Token × Scanner := (s.step.result, s.step.scanner)

def text (s : Scanner) : String :=
  let pattern := Utf8.lossyText s.cursor.pattern
  match s.failure with
  | some e => "Scanner(" ++ pattern ++ ": err " ++ e.message ++ " at " ++ toString s.cursor.offset ++ ")"
  | none => "Scanner(" ++ QuotedText.quote pattern ++ ": " ++ s.cursor.position.text ++ ")"

end Scanner

/-- All tokens of a pattern, or its first failure. -/
def scan (pattern : List UInt8) : Except Failure (List Token) :=
  let steps := (Scanner.start pattern).drain
  ((Scanner.start pattern).afterAll steps).failure.elim (.ok (steps.map Step.token)) .error

end RoutePattern
