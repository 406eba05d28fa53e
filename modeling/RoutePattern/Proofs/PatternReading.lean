import RoutePattern.Proofs.PathReading
import RoutePattern.Proofs.ExpressionReading

/-!
# Reading a pattern

In a pattern a chunk that fits is read by its first character: a run in the class of the character, quoted
text or an expression behind its opening, and any other character alone.
-/
namespace RoutePattern
open EnclosedText SourceText

namespace Cursor

section
variable {s : SourceText} {before after rest literal inner : List Char} {x quote : Char} {c : Cursor}

theorem On.patternToken_quote (hq : quote ∈ quotes) (h : On s before quote after c) (start : Position) :
    c.patternToken start = ⟨.string, (c.quotation quote).1, start, (c.quotation quote).2⟩ := by
  rw [Cursor.patternToken, h.currentChar]
  simp only [quotes, List.mem_cons, List.not_mem_nil, or_false] at hq
  rcases hq with rfl | rfl | rfl <;> rfl

theorem On.patternToken_paren (h : On s before '(' after c) (start : Position) :
    c.patternToken start = c.expressionToken start := by
  rw [Cursor.patternToken, h.currentChar]
  rfl

theorem On.patternToken_single (hx : (CodePoint.char x).classify ∈ Lexeme.singles) (h : On s before x rest c) :
    s.Found before (.run [] (CodePoint.char x).classify [x]) rest (c.patternToken (s.position before)) := by
  have ht : c.patternToken (s.position before) =
      c.single (CodePoint.char x).classify (s.position (before ++ [])) := by
    rw [Cursor.patternToken, h.currentChar, List.append_nil]
    generalize (CodePoint.char x).classify = l at hx
    cases l <;> first | rfl | exact absurd hx (by decide)
  rw [ht]
  refine On.found_single (by simpa using h) fun hm => ?_
  generalize (CodePoint.char x).classify = l at hx hm
  revert hm
  cases l <;> first | decide | exact absurd hx (by decide)

/-- A class read from its first member on makes a token of its own lexeme. -/
theorem On.reads_run {xs : List Char} {l : Lexeme} {f : Cursor → String × Cursor}
    (hf : ∃ c', OnLast s (before ++ x :: xs) rest c' ∧ f c = (String.ofList (x :: xs), c'.look))
    (hl : l ∈ [.identifier, .literal, .number]) :
    s.Reads before (.run [] l (x :: xs)) rest ⟨l, (f c).1, s.position before, (f c).2⟩ := by
  obtain ⟨c', hc, he⟩ := hf
  have hc : OnLast s (before ++ (Chunk.run [] l (x :: xs)).text) rest c' := by
    simpa [Chunk.run, Chunk.text] using hc
  have hkind : l ≠ .regexp ∧ l ≠ .endOfInput ∧ (Chunk.run [] l (x :: xs)).closed = false := by
    simp only [List.mem_cons, List.not_mem_nil, or_false] at hl
    rcases hl with rfl | rfl | rfl <;> exact ⟨Lexeme.noConfusion, Lexeme.noConfusion, rfl⟩
  have hs : s.position before = (s.position (before ++ [])).advance 0 (Chunk.run [] l (x :: xs)).margin
      (Chunk.run [] l (x :: xs)).margin := by
    rw [Chunk.start_of_ne hkind.1, List.append_nil]
  rw [he]
  exact hc.reads_look hkind.2.1 hkind.2.2 hs

theorem isIdentifier_of_start (p : CodePoint) (h : p.isIdentifierStart = true) : p.isIdentifier = true := by
  simp [CodePoint.isIdentifier, h]

theorem On.patternToken_string (hq : Quotation literal quote inner)
    (h : On s before quote (inner ++ quote :: rest) c) :
    s.Reads before ⟨[], .string, literal, quote :: (inner ++ [quote])⟩ rest
      (c.patternToken (s.position before)) := by
  have hquote : quote ∈ quotes := mem_quotes hq
  obtain ⟨c', hc, he⟩ := h.quotation hq
  have hk : OnLast s (before ++ (⟨[], .string, literal, quote :: (inner ++ [quote])⟩ : Chunk).text) rest c' := by
    simpa [Chunk.text] using hc.onLast
  have hs : s.position before = (s.position (before ++ [])).advance 0 0 0 := by simp
  rw [h.patternToken_quote hquote, he]
  unfold Cursor.closing
  split
  · rename_i hr
    subst hr
    exact hk.reads Lexeme.noConfusion (Chunk.not_seesEnd rfl _) hs
  · rename_i hr
    exact hk.reads_look Lexeme.noConfusion (by simpa [Chunk.closed] using hr) hs

theorem Behind.patternToken {k : Chunk} (h : Behind s before (k.text ++ rest) c) (hk : Fits .pattern k rest) :
    s.Reads before k rest (c.advance.patternToken (s.position before)) := by
  cases hk with
  | mark hm | segment hm | finish hm => exact absurd rfl hm
  | single hx =>
    exact .inl ⟨h.advance.patternToken_single hx,
      fun hs => absurd hs (Chunk.not_seesEnd (Chunk.closed_of_singles hx) _)⟩
  | identifier hx hu hs hr =>
    have hl := CodePoint.classify_identifier_iff.2 ⟨hx, hu⟩
    rw [Cursor.patternToken, h.advance.currentChar, hl]
    exact On.reads_run (h.advance.run_classes isIdentifier_of_start hs hr) (by decide)
  | literal hs hr =>
    rw [Cursor.patternToken, h.advance.currentChar, hs _ (by simp)]
    refine On.reads_run (h.advance.run_class (fun y hy => ?_) ?_) (by decide)
    · simp [CodePoint.continuesLiteral, hs y (by simp [hy])]
    · simp [CodePoint.continuesLiteral, hr]
  | number hx hs hr =>
    rw [Cursor.patternToken, h.advance.currentChar, CodePoint.classify_digit_iff.2 hx]
    exact On.reads_run (h.advance.run_class hs hr) (by decide)
  | string hq => exact (by simpa [Chunk.text] using h.advance : On ..).patternToken_string hq
  | regexp hs =>
    obtain ⟨tail, rfl⟩ := hs.exists_paren
    have ha : On s before '(' (tail ++ rest) c.advance := by simpa [Chunk.text] using h.advance
    rw [ha.patternToken_paren]
    exact ha.expressionToken hs rfl
  | patternEnd =>
    have ha : Spent s c.advance := h.advance_spent
    have ht : c.advance.patternToken (s.position before) = ⟨.endOfInput, "", s.position (before ++ []), c.advance⟩ := by
      rw [Cursor.patternToken, ha.current, List.append_nil]
      rfl
    rw [ht]
    exact ha.reads []

end
end Cursor
end RoutePattern
