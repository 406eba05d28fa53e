import RoutePattern.TextExtraction
import RoutePattern.TokenSequences

/-!
# Tokens by mode

The lexeme of the last token decides how the next one is read: a method can only come first, a path
holds segments and marks, and a pattern holds names, text, numbers and expressions. Each reader starts
on the first code point of the token.
-/
namespace RoutePattern

inductive Mode where
  | reset | path | pattern
  deriving DecidableEq

namespace Mode

def name : Mode → String
  | reset => "Reset" | path => "Path" | pattern => "Pattern"

def after : Lexeme → Mode
  | .slash | .segment | .method | .rightBrace => path
  | _ => pattern

end Mode

/-- A lexeme with its text and start, and the cursor on its last code point. -/
structure Finding where
  lexeme : Lexeme
  literal : String
  start : Position
  cursor : Cursor
  deriving DecidableEq

namespace CodePoint

/-- What a segment goes on with: a brace starts a pattern of its own. -/
def continuesSegment (p : CodePoint) : Bool := p.isSegment && !p.is '\x7b'

def continuesLiteral (p : CodePoint) : Bool := p.classify = .literal

end CodePoint

namespace ExpressionLayout

/-- Whitespace around an expression on lines of its own is layout and no part of the expression. -/
def trim (body : String) : String :=
  let rest := body.toList.dropWhile AsciiTrait.blank
  String.ofList (rest.reverse.dropWhile AsciiTrait.blank).reverse

/-- How many bytes `trim` takes off in front. -/
def margin (body : String) : Nat := (body.toList.takeWhile AsciiTrait.blank).length

end ExpressionLayout

namespace Cursor

def blankLoop (start : Position) (c : Cursor) : Position × Cursor :=
  if _h : c.more && c.current.isWhitespace then blankLoop c.position c.advance else (start, c)
termination_by c.remaining
decreasing_by
  simp only [Bool.and_eq_true] at _h
  exact remaining_advance_lt _h.1

theorem remaining_blankLoop_le (start : Position) (c : Cursor) :
    (c.blankLoop start).2.remaining ≤ c.remaining := by
  fun_induction blankLoop start c with
  | case1 _ c _ ih => have := c.remaining_advance_le; omega
  | case2 _ c _ => exact Nat.le_refl _

/-- A finding that covers the current code point alone. -/
def single (c : Cursor) (l : Lexeme) (start : Position) : Finding :=
  ⟨l, c.slice c.offset c.readOffset, start, c⟩

/-- Whitespace in front belongs to no token. -/
def pathToken (start : Position) (c : Cursor) : Finding :=
  let (start, c) := c.blankLoop start
  match c.current.classify with
  | .colon => c.single .colon start
  | .slash => c.single .slash start
  | .leftBrace => c.single .leftBrace start
  | .endOfInput => ⟨.endOfInput, "", start, c⟩
  | _ => let (literal, c) := c.run [CodePoint.continuesSegment]; ⟨.segment, literal, start, c⟩

/-- What may be meant by a word of capitals. -/
def readings (word : String) : List String :=
  ["\x22" ++ word ++ " /\x22 (METHOD + SEGMENT)", "\x22/" ++ word ++ "\x22 (SEGMENT)"]

/-- A word that may be meant as a method or as a segment. -/
def undecided (word : String) (start : Position) (c : Cursor) : Finding :=
  ⟨.invalid, "", start, c.ambiguous c.current (readings word)⟩

/-- A run of capitals is a method if one space or tab stands between it and a slash. -/
def methodToken (start : Position) (c : Cursor) : Finding :=
  let (word, c) := c.run [CodePoint.isUpper]
  let c := c.look
  if c.ahead.isAny [' ', '\t'] then
    let c := c.advance.look
    if c.ahead.is '/' then ⟨.method, word, start, c⟩ else c.undecided word start
  else c.undecided word start

def firstToken (start : Position) (c : Cursor) : Finding :=
  if c.current.isUpper then c.methodToken start else c.pathToken start

/-- An expression in parentheses is quoted, laid out on lines of its own, or plain. -/
def expressionToken (start : Position) (c : Cursor) : Finding :=
  let c := c.look
  match c.ahead with
  | .char '\x60' =>
    let (literal, c) := (c.take ['(']).raw '\x60' '\x60'
    ⟨.regexp, literal, start, (c.take ['\x60']).expect [')']⟩
  | .char '\x27' =>
    let (literal, c) := (c.take ['(']).quoted '\x27' '\x27' []
    ⟨.regexp, literal, start, (c.take ['\x27']).expect [')']⟩
  | .char '\x22' =>
    let (literal, c) := (c.take ['(']).quoted '\x22' '\x22' []
    ⟨.regexp, literal, start, (c.take ['\x22']).expect [')']⟩
  | .char '\n' =>
    let (body, c) := c.balanced '(' ')'
    let margin := ExpressionLayout.margin body
    ⟨.regexp, ExpressionLayout.trim body, start.advance 0 margin margin, c⟩
  | _ => let (literal, c) := c.balanced '(' ')'; ⟨.regexp, literal, start, c⟩

def patternToken (start : Position) (c : Cursor) : Finding :=
  match c.current.classify with
  | .invalid => ⟨.invalid, "", start, c⟩
  | .endOfInput => ⟨.endOfInput, "", start, c⟩
  | .leftParen => c.expressionToken start
  | .backquote => let (literal, c) := c.raw '\x60' '\x60'; ⟨.string, literal, start, c⟩
  | .singleQuote => let (literal, c) := c.quoted '\x27' '\x27' []; ⟨.string, literal, start, c⟩
  | .doubleQuote => let (literal, c) := c.quoted '\x22' '\x22' []; ⟨.string, literal, start, c⟩
  | .identifier =>
    let (literal, c) := c.run [CodePoint.isIdentifierStart, CodePoint.isIdentifier]
    ⟨.identifier, literal, start, c⟩
  | .literal => let (literal, c) := c.run [CodePoint.continuesLiteral]; ⟨.literal, literal, start, c⟩
  | .digit => let (literal, c) := c.run [CodePoint.isDigit]; ⟨.number, literal, start, c⟩
  | l => c.single l start

def token (mode : Mode) (start : Position) (c : Cursor) : Finding :=
  match mode with
  | .reset => c.firstToken start
  | .path => c.pathToken start
  | .pattern => c.patternToken start

theorem remaining_pathToken_le (start : Position) (c : Cursor) :
    (c.pathToken start).cursor.remaining ≤ c.remaining := by
  have hb := c.remaining_blankLoop_le start
  unfold pathToken
  dsimp only
  split <;> try exact hb
  exact Nat.le_trans (remaining_run_le _ _) hb

theorem remaining_methodToken_le (start : Position) (c : Cursor) :
    (c.methodToken start).cursor.remaining ≤ c.remaining := by
  have hr := c.remaining_run_le [CodePoint.isUpper]
  have hl := (c.run [CodePoint.isUpper]).2.remaining_look_le
  have ha := (c.run [CodePoint.isUpper]).2.look.remaining_advance_le
  have hh := (c.run [CodePoint.isUpper]).2.look.advance.remaining_look_le
  unfold methodToken
  dsimp only
  split
  · split
    · dsimp only; omega
    · exact Nat.le_trans (Nat.le_of_eq (remaining_fail _ _)) (by omega)
  · exact Nat.le_trans (Nat.le_of_eq (remaining_fail _ _)) (by omega)

theorem remaining_expressionToken_le (start : Position) (c : Cursor) :
    (c.expressionToken start).cursor.remaining ≤ c.remaining := by
  have hl := c.remaining_look_le
  have ht := c.look.remaining_take_le ['(']
  unfold expressionToken
  dsimp only
  split
  · exact Nat.le_trans (remaining_expect_le _ _) (Nat.le_trans (remaining_take_le _ _)
      (Nat.le_trans (remaining_raw_le _ _ _) (by omega)))
  · exact Nat.le_trans (remaining_expect_le _ _) (Nat.le_trans (remaining_take_le _ _)
      (Nat.le_trans (remaining_quoted_le _ _ _ _) (by omega)))
  · exact Nat.le_trans (remaining_expect_le _ _) (Nat.le_trans (remaining_take_le _ _)
      (Nat.le_trans (remaining_quoted_le _ _ _ _) (by omega)))
  · exact Nat.le_trans (remaining_balanced_le _ _ _) hl
  · exact Nat.le_trans (remaining_balanced_le _ _ _) hl

theorem remaining_patternToken_le (start : Position) (c : Cursor) :
    (c.patternToken start).cursor.remaining ≤ c.remaining := by
  unfold patternToken
  split
  · exact Nat.le_refl _
  · exact Nat.le_refl _
  · exact c.remaining_expressionToken_le start
  · exact c.remaining_raw_le _ _
  · exact c.remaining_quoted_le _ _ _
  · exact c.remaining_quoted_le _ _ _
  · exact c.remaining_run_le _
  · exact c.remaining_run_le _
  · exact c.remaining_run_le _
  · exact Nat.le_refl _

theorem remaining_token_le (mode : Mode) (start : Position) (c : Cursor) :
    (c.token mode start).cursor.remaining ≤ c.remaining := by
  cases mode with
  | reset =>
    show (c.firstToken start).cursor.remaining ≤ _
    unfold firstToken
    split
    · exact c.remaining_methodToken_le start
    · exact c.remaining_pathToken_le start
  | path => exact c.remaining_pathToken_le start
  | pattern => exact c.remaining_patternToken_le start

end Cursor
end RoutePattern
