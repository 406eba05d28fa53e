import RoutePattern.PatternScanner
import RoutePattern.Proofs.ExtractedText
import RoutePattern.Proofs.PatternGrammar

/-!
# What a finding says of the text

A finding reads a chunk when it has its lexeme, literal and start and the cursor stands behind it. The
only other way is that the look behind the chunk has met what ends the text. The failures that a scan of a
text can have are those of reading on and those of text that no token fits.
-/
namespace RoutePattern
open EnclosedText

namespace SourceText

/-- The token that a chunk behind some text is read as. -/
def token (s : SourceText) (before : List Char) (k : Chunk) : Token :=
  ⟨k.lexeme, String.ofList k.literal, (s.position (before ++ k.blanks)).advance 0 k.margin k.margin,
    s.position (before ++ k.text)⟩

/-- The tokens that chunks one behind the other are read as. -/
def tokens (s : SourceText) (before : List Char) : List Chunk → List Token
  | [] => []
  | k :: ks => s.token before k :: s.tokens (before ++ k.text) ks

theorem token_finish (s : SourceText) (before blanks : List Char) :
    s.token before (.finish blanks) = .endOfInput (s.position (before ++ blanks)) := by
  simp only [token, Token.endOfInput, Chunk.finish, Chunk.text, Chunk.margin, List.append_nil]
  rfl

theorem isValid_advance {p : Position} (h : p.isValid = true) (lines columns bytes : Nat) :
    (p.advance lines columns bytes).isValid = true := by
  simp only [Position.isValid, Position.advance, Bool.and_eq_true] at h ⊢
  exact ⟨decide_eq_true (Nat.add_pos_left (of_decide_eq_true h.1) lines),
    decide_eq_true (Nat.add_pos_left (of_decide_eq_true h.2) columns)⟩

theorem isValid_token (s : SourceText) (before : List Char) (k : Chunk) :
    (s.token before k).isValid = k.lexeme.isValid := by
  have hstart : (s.token before k).start.isValid = true := isValid_advance s.isValid_position 0 k.margin k.margin
  have hstop : (s.token before k).stop.isValid = true := s.isValid_position
  simp only [Token.isValid, hstart, hstop, Bool.and_true]
  rfl

/-- The failures of a scan, each with what stands at its offset. -/
inductive Flaw (s : SourceText) : Failure → Prop where
  | obstacle {e} (he : s.obstacle = some e) : Flaw s e
  | unreadable {before x after} (ht : s.text = before ++ x :: after)
      (hx : (CodePoint.char x).classify = .invalid) :
      Flaw s (.unexpected .invalid Scanner.recovery (s.place before))
  | unclosed {before x after} (ht : s.text = before ++ x :: after) (hx : x ≠ ')') :
      Flaw s (.unexpected (CodePoint.char x).classify [.rightParen] (s.place before))
  | unclosedEnd (he : s.obstacle = none) : Flaw s (.unexpected .endOfInput [.rightParen] s.bytes.length)
  | undecided {before x after suggestions} (ht : s.text = before ++ x :: after)
      (hx : (CodePoint.char x).isUpper = true ∨ x = ' ' ∨ x = '\t')
      (hu : (CodePoint.ofHead s.text).isUpper = true) :
      Flaw s (.ambiguous (CodePoint.char x).classify suggestions (s.place before))
  | unterminated {quote} (he : s.obstacle = none) :
      Flaw s (.unterminated (CodePoint.char quote).classify .endOfInput s.bytes.length)
  | unbalanced {depth} (he : s.obstacle = none) (hd : 1 ≤ depth) :
      Flaw s (.unbalanced .leftParen .rightParen .endOfInput depth s.bytes.length)

/-- The cursor behind a chunk that a finding has read. -/
def Reached (s : SourceText) (l : Lexeme) (done rest : List Char) (c : Cursor) : Prop :=
  if l = .endOfInput then Cursor.Ended s c else Cursor.OnLast s done rest c

/-- A finding has read a chunk. -/
structure Found (s : SourceText) (before : List Char) (k : Chunk) (rest : List Char) (f : Finding) : Prop where
  lexeme : f.lexeme = k.lexeme
  literal : f.literal = String.ofList k.literal
  start : f.start = (s.position (before ++ k.blanks)).advance 0 k.margin k.margin
  reached : s.Reached k.lexeme (before ++ k.text) rest f.cursor

/-- A finding has the literal of a chunk, and the look behind it has met what ends the text. -/
structure Blocked (s : SourceText) (k : Chunk) (rest : List Char) (f : Finding) : Prop where
  seesEnd : k.SeesEnd rest
  literal : f.literal = String.ofList k.literal
  halted : ∃ e, s.obstacle = some e ∧ Cursor.Halted s s.text e f.cursor

/-- A finding has read a chunk, or has failed with what stands right behind it. -/
def Reads (s : SourceText) (before : List Char) (k : Chunk) (rest : List Char) (f : Finding) : Prop :=
  s.Found before k rest f ∧ (k.SeesEnd rest → s.obstacle = none) ∨ s.Blocked k rest f

/-- A literal comes from a part of the text, or from its end and what can be read behind it. -/
inductive Takes (s : SourceText) (text : List Char) (literal : String) : Prop where
  | inside (h : Yields text literal.toList)
  | beyond (front part : List Char) (ht : text = front ++ part) (hn : part ≠ [])
      (he : Excerpt (part ++ Utf8.wellFormedPart s.rest) literal.toList)

theorem Takes.cons {s : SourceText} {text : List Char} {literal : String} (h : s.Takes text literal) (x : Char) :
    s.Takes (x :: text) literal := by
  cases h with
  | inside h => exact .inside (by simpa using h.mono [x] [])
  | beyond front part ht hn he => exact .beyond (x :: front) part (by simp [ht]) hn he

theorem takes_unclosed (s : SourceText) (after : List Char) : s.Takes after (s.unclosed after) := by
  unfold unclosed
  split
  · rename_i hn
    exact .inside (hn ▸ Excerpt.verbatim.yields)
  · rename_i hn
    exact .beyond [] after rfl hn (by simpa using Excerpt.verbatim)

/-- The cursor has failed with one of the failures of its text. -/
def Fails (s : SourceText) (c : Cursor) : Prop := ∃ e, c.failure = some e ∧ s.Flaw e

end SourceText

theorem SourceText.flaw_getD {s : SourceText} {f : Failure} (hf : s.obstacle = none → s.Flaw f) :
    s.Flaw (s.obstacle.getD f) := by
  cases he : s.obstacle with
  | none => exact hf he
  | some e => exact .obstacle he

@[simp] theorem Position.advance_zero (p : Position) : p.advance 0 0 0 = p := rfl

theorem Chunk.start_of_ne {k : Chunk} (hk : k.lexeme ≠ .regexp) (p : Position) :
    p.advance 0 k.margin k.margin = p := by
  simp [Chunk.margin, hk]

namespace Cursor
open SourceText

section
variable {s : SourceText} {before after rest : List Char} {k : Chunk} {c : Cursor} {e : Failure}

/-- A finding whose cursor has looked at what stands behind the chunk. -/
theorem OnLast.reads_look (h : OnLast s (before ++ k.text) rest c) (hk : k.lexeme ≠ .endOfInput)
    (hc : k.closed = false) {start : Position}
    (hs : start = (s.position (before ++ k.blanks)).advance 0 k.margin k.margin) :
    s.Reads before k rest ⟨k.lexeme, String.ofList k.literal, start, c.look⟩ := by
  by_cases ho : rest = [] ∧ s.obstacle ≠ none
  · obtain ⟨rfl, ho⟩ := ho
    obtain ⟨e, he⟩ := Option.ne_none_iff_exists'.1 ho
    have ht : before ++ k.text = s.text := by simpa using h.behind.text.symm
    exact .inr ⟨⟨rfl, hc⟩, rfl, e, he, (ht ▸ h.behind.placed : Placed s s.text c).look, h.behind.failure_look he⟩
  · have hend : rest = [] → s.obstacle = none := fun hr => Decidable.byContradiction fun hn => ho ⟨hr, hn⟩
    obtain ⟨prior, x, hd, h⟩ := h
    have hlast : OnLast s (before ++ k.text) rest c.look := ⟨prior, x, hd, h.look hend⟩
    exact .inl ⟨⟨rfl, rfl, hs, by simpa [SourceText.Reached, hk] using hlast⟩, fun hsees => hend hsees.1⟩

theorem OnLast.found (h : OnLast s (before ++ k.text) rest c) (hk : k.lexeme ≠ .endOfInput)
    {start : Position} (hs : start = (s.position (before ++ k.blanks)).advance 0 k.margin k.margin) :
    s.Found before k rest ⟨k.lexeme, String.ofList k.literal, start, c⟩ :=
  ⟨rfl, rfl, hs, by simpa [SourceText.Reached, hk] using h⟩

theorem OnLast.reads (h : OnLast s (before ++ k.text) rest c) (hk : k.lexeme ≠ .endOfInput)
    (hc : ¬ k.SeesEnd rest) {start : Position}
    (hs : start = (s.position (before ++ k.blanks)).advance 0 k.margin k.margin) :
    s.Reads before k rest ⟨k.lexeme, String.ofList k.literal, start, c⟩ :=
  .inl ⟨h.found hk hs, fun hsees => absurd hsees hc⟩

/-- The end behind some whitespace. -/
theorem Spent.reads (h : Spent s c) (blanks : List Char) :
    s.Reads before (.finish blanks) [] ⟨.endOfInput, "", s.position (before ++ blanks), c⟩ := by
  cases ho : s.obstacle with
  | none => exact .inl ⟨⟨rfl, rfl, rfl, h.ended ho⟩, fun _ => ho⟩
  | some e => exact .inr ⟨⟨rfl, rfl⟩, rfl, e, ho, h.toPlaced, h.failure e ho⟩

end
end Cursor
end RoutePattern
