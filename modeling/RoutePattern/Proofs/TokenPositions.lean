import RoutePattern.Proofs.ReachedScanners

/-!
# What positions count

A position counts the lines and the code points of the bytes that have been read. A token starts where a
call starts to read, or behind the whitespace that the call skips, and ends where the call leaves the
scanner. Only an expression that is laid out on lines of its own starts later.
-/
namespace RoutePattern
open SourceText EnclosedText
open Utf8 (encode size first? wellFormedPart)

/-- The position behind the first bytes of a pattern. A byte order marker in front counts for no column. -/
def positionAt (pattern : List UInt8) (k : Nat) : Position :=
  let text := wellFormedPart (pattern.take k)
  let counted := if text.head? = some CodePoint.byteOrderMark then text.tail else text
  ⟨1 + text.count '\n', max 1 counted.length, k⟩

/-- The whitespace that stands at an offset. -/
def blanksAt (pattern : List UInt8) (k : Nat) : List Char :=
  (wellFormedPart (pattern.drop k)).takeWhile AsciiTrait.blank

namespace Scanner

/-- The byte order marker that the next code point is read with. -/
def unreadMarker (scanner : Scanner) : List Char :=
  if scanner.cursor.readOffset = 0 ∧ first? scanner.cursor.pattern = some CodePoint.byteOrderMark then
    [CodePoint.byteOrderMark]
  else []

/-- Where the next token starts, behind the whitespace that is skipped unless the mode is for patterns. -/
def tokenOffset (scanner : Scanner) : Nat :=
  let first := scanner.cursor.readOffset
  let blanks := blanksAt scanner.cursor.pattern (first + size scanner.unreadMarker)
  if scanner.failure.isSome ∨ scanner.mode = .pattern ∨ blanks = [] then first
  else first + size (scanner.unreadMarker ++ blanks)

/-- Where a token starts. An expression on lines of its own starts behind as many columns as whitespace. -/
def tokenStart (scanner : Scanner) (l : Lexeme) : Position :=
  let pattern := scanner.cursor.pattern
  let first := scanner.cursor.readOffset
  if l = .regexp ∧ encode ['(', '\n'] <+: pattern.drop first then
    let margin := (blanksAt pattern (first + 1)).length
    (positionAt pattern first).advance 0 margin margin
  else positionAt pattern scanner.tokenOffset

/-- A token starts where its call looks for one, and ends no earlier. -/
structure Starts (scanner : Scanner) (t : Token) : Prop where
  start : t.start = scanner.tokenStart t.lexeme
  ordered : t.start.offset ≤ t.stop.offset

/-- How the token of a call lies in its pattern and in front of the next one. -/
structure Locates (scanner : Scanner) (t : Token) : Prop extends Starts scanner t where
  stop : t.stop = scanner.step.scanner.cursor.position
  next : t.stop.offset ≤ scanner.step.scanner.step.token.start.offset

/-- The bytes up to where a scanner has read are text, and its position counts that text. -/
structure Counts (pattern : List UInt8) (scanner : Scanner) : Prop where
  source : scanner.cursor.pattern = pattern
  readable : encode (wellFormedPart (pattern.take scanner.cursor.readOffset)) =
    pattern.take scanner.cursor.readOffset
  inside : scanner.cursor.readOffset ≤ pattern.length
  position : scanner.cursor.position = positionAt pattern scanner.cursor.readOffset

end Scanner

namespace SourceText

section
variable (s : SourceText) {before after : List Char} {x : Char}

theorem take_reached (h : before <+: s.text) :
    s.bytes.take (s.reached before) = encode (if before = [] then [] else s.lead ++ before) := by
  obtain ⟨after, ht⟩ := h
  unfold reached
  split
  · rfl
  · have hb : s.bytes = encode (s.lead ++ before) ++ (encode after ++ s.rest) := by simp [bytes, ← ht]
    rw [hb]
    exact List.take_left' rfl

theorem positionAt_reached (h : before <+: s.text) : positionAt s.bytes (s.reached before) = s.position before := by
  have hl : ∀ y ∈ before, CodePoint.IsLegal y := fun y hy => s.legal y (h.subset hy)
  have hn : CodePoint.byteOrderMark ≠ '\n' := by decide
  unfold positionAt
  rw [s.take_reached h, Utf8.wellFormedPart_encode]
  cases before with
  | nil => rfl
  | cons x before =>
    have hx : x ≠ CodePoint.byteOrderMark := (hl x (by simp)).2
    cases hm : s.marked <;> simp [lead, hm, hx, hn, position]

theorem reached_mono {front done : List Char} (h : front <+: done) : s.reached front ≤ s.reached done := by
  obtain ⟨more, rfl⟩ := h
  unfold reached
  split
  · exact Nat.zero_le _
  · rename_i hf
    rw [if_neg (List.append_ne_nil_of_left_ne_nil hf _), place_append]
    exact Nat.le_add_right _ _

/-- Whitespace in front of the unread text is not prolonged by what ends the text. -/
theorem takeWhile_blank_unread (after : List Char) :
    (after ++ wellFormedPart s.rest).takeWhile AsciiTrait.blank = after.takeWhile AsciiTrait.blank := by
  refine s.takeWhile_unread (fun x hx => ?_) after
  exact of_decide_eq_true (CodePoint.of_blank (p := fun y => decide (CodePoint.IsLegal y)) (by decide) hx)

theorem blanksAt_place (h : s.text = before ++ after) :
    blanksAt s.bytes (s.place before) = after.takeWhile AsciiTrait.blank := by
  rw [blanksAt, s.drop_place h, Utf8.wellFormedPart_encode_append, takeWhile_blank_unread]

end
end SourceText

namespace Cursor

section
variable {s : SourceText} {before after rest front : List Char} {x : Char} {c : Cursor} {mode : Mode}

/-- A finding starts at a position, and its cursor has read at least a part of the text. -/
structure Opens (s : SourceText) (front : List Char) (start : Position) (found : Finding) : Prop where
  start : found.start = start
  tracked : Tracked s front found.cursor

theorem Behind.blankLoop (h : Behind s before after c) :
    ∃ c', Tracked s (before ++ after.takeWhile AsciiTrait.blank) c' ∧ c.advance.blankLoop (s.position before) =
      (s.position (before ++ after.takeWhile AsciiTrait.blank), c') := by
  have hb : ∀ y ∈ after.takeWhile AsciiTrait.blank, AsciiTrait.blank y = true :=
    List.all_eq_true.1 List.all_takeWhile
  have hsplit : after = after.takeWhile AsciiTrait.blank ++ after.dropWhile AsciiTrait.blank :=
    List.takeWhile_append_dropWhile.symm
  cases hd : after.dropWhile AsciiTrait.blank with
  | nil =>
    rw [hd, List.append_nil] at hsplit
    obtain ⟨c', hc, he⟩ := (hsplit ▸ h : Behind s before (after.takeWhile AsciiTrait.blank) c).blankLoop_end hb
    refine ⟨c', ?_, he⟩
    rw [← hsplit, ← h.text]
    exact hc.tracked
  | cons x xs =>
    have hx : AsciiTrait.blank x = false := by
      have := List.head_dropWhile_not AsciiTrait.blank (l := after) (by simp [hd])
      simpa [hd] using this
    rw [hd] at hsplit
    obtain ⟨c', hc, he⟩ :=
      (hsplit ▸ h : Behind s before (after.takeWhile AsciiTrait.blank ++ x :: xs) c).blankLoop_char hb hx
    exact ⟨c', hc.toBehind.tracked.mono (List.prefix_append _ _), he⟩

theorem Behind.pathToken_opens (h : Behind s before after c) :
    Opens s (before ++ after.takeWhile AsciiTrait.blank)
      (s.position (before ++ after.takeWhile AsciiTrait.blank)) (c.advance.pathToken (s.position before)) ∧
      (c.advance.pathToken (s.position before)).lexeme ≠ .regexp := by
  obtain ⟨c', hc, he⟩ := h.blankLoop
  unfold Cursor.pathToken
  rw [he]
  dsimp only
  split
  case h_5 => exact ⟨⟨rfl, (kept_tracked s _).run hc _⟩, Lexeme.noConfusion⟩
  all_goals exact ⟨⟨rfl, hc⟩, Lexeme.noConfusion⟩

theorem methodToken_start (c : Cursor) (start : Position) :
    (c.methodToken start).start = start ∧ (c.methodToken start).lexeme ≠ .regexp := by
  unfold methodToken undecided
  dsimp only
  split
  · split <;> exact ⟨rfl, Lexeme.noConfusion⟩
  · exact ⟨rfl, Lexeme.noConfusion⟩

/-- In a path a token starts behind whitespace. -/
theorem Behind.token_opens (h : Behind s before after c) (hm : mode ≠ .pattern) :
    Opens s (before ++ after.takeWhile AsciiTrait.blank)
      (s.position (before ++ after.takeWhile AsciiTrait.blank)) (c.advance.token mode (s.position before)) ∧
      (c.advance.token mode (s.position before)).lexeme ≠ .regexp := by
  cases mode with
  | pattern => exact absurd rfl hm
  | path => exact h.pathToken_opens
  | reset =>
    show Opens _ _ _ (c.advance.firstToken _) ∧ (c.advance.firstToken _).lexeme ≠ _
    have ht := (kept_tracked s before).token h.tracked.advance .reset (s.position before)
    unfold Cursor.token firstToken at ht
    unfold firstToken
    cases hu : c.advance.current.isUpper with
    | false => exact h.pathToken_opens
    | true =>
      rw [hu] at ht
      have hb : after.takeWhile AsciiTrait.blank = [] := by
        rw [h.advance_current] at hu
        cases after with
        | nil => rfl
        | cons y ys =>
          have hy : AsciiTrait.blank y = false :=
            Bool.eq_false_iff.2 fun hb => by cases (CodePoint.isUpper_of_blank hb).symm.trans hu
          simp [hy]
      obtain ⟨hs, hl⟩ := c.advance.methodToken_start (s.position before)
      rw [hb, List.append_nil]
      exact ⟨⟨hs, ht⟩, hl⟩

/-- Only an expression that goes on with a new line starts elsewhere. -/
theorem patternToken_start (c : Cursor) (start : Position)
    (h : c.current.classify = .leftParen → c.look.ahead ≠ .char '\n') : (c.patternToken start).start = start := by
  unfold patternToken
  split
  case h_3 hl =>
    unfold expressionToken
    dsimp only
    split
    case h_4 ha => exact absurd ha (h hl)
    all_goals rfl
  all_goals rfl

theorem Behind.patternToken_start (h : Behind s before after c) (hn : ¬ ['(', '\n'] <+: after) (start : Position) :
    (c.advance.patternToken start).start = start := by
  apply Cursor.patternToken_start
  intro hl
  cases after with
  | nil =>
    rw [h.advance_spent.current] at hl
    cases hl
  | cons x after =>
    have ha : On s before x after c.advance := h.advance
    rw [ha.currentChar] at hl
    obtain rfl : x = '(' := CodePoint.eq_of_mark (CodePoint.mark_of_classify hl (by decide)) rfl
    rw [ha.ahead_look]
    cases after with
    | nil => exact CodePoint.noConfusion
    | cons y after =>
      intro hy
      obtain rfl : y = '\n' := CodePoint.char.inj hy
      exact hn ⟨after, rfl⟩

theorem margin_ofList (text : List Char) :
    ExpressionLayout.margin (String.ofList text) = (text.takeWhile AsciiTrait.blank).length := by
  rw [ExpressionLayout.margin, String.toList_ofList]

/-- A laid out expression starts at the first of its characters that is no whitespace, closed or not. -/
theorem On.expressionToken_opens (h : On s before '(' ('\n' :: after) c) (start : Position) :
    let blanks := ('\n' :: after).takeWhile AsciiTrait.blank
    Opens s (before ++ '(' :: blanks) (start.advance 0 blanks.length blanks.length) (c.expressionToken start) ∧
      (c.expressionToken start).lexeme = .regexp := by
  have hl : On s before '(' ('\n' :: after) c.look := h.look (by simp)
  rw [h.expressionToken_layout]
  dsimp only
  refine ⟨?_, rfl⟩
  -- A body that is not closed is all the text that is left, with what can still be read behind it.
  rcases @closes_or_inside '(' ')' 1 ('\n' :: after) (by decide) (Int.le_refl 1) with ⟨body, rest, ht, hi, hb⟩ | hi
  · obtain ⟨c', hc, he⟩ := (ht ▸ hl : On s before '(' (body ++ ')' :: rest) c.look).balanced (by decide)
      (balanced_iff.2 ⟨hi, hb⟩)
    have hparen : ∀ x, (')' :: rest).head? = some x → AsciiTrait.blank x = false := by
      rintro x ⟨⟩
      decide
    have hfront : before ++ '(' :: body.takeWhile AsciiTrait.blank <+: before ++ '(' :: body ++ [')'] :=
      ((List.prefix_append_right_inj before).2 (List.cons_prefix_cons.2 ⟨rfl, List.takeWhile_prefix _⟩)).trans
        (List.prefix_append _ _)
    rw [he, ht, takeWhile_append_of_head body hparen]
    exact ⟨by simp only [margin_ofList], hc.toBehind.tracked.mono hfront⟩
  · obtain ⟨c', hc, he⟩ := hl.balanced_open (by decide) hi
    have hfront : before ++ '(' :: ('\n' :: after).takeWhile AsciiTrait.blank <+: s.text := by
      rw [h.sourceText]
      exact (List.prefix_append_right_inj before).2 (List.cons_prefix_cons.2 ⟨rfl, List.takeWhile_prefix _⟩)
    rw [he, SourceText.unclosed, if_neg (List.cons_ne_nil _ _)]
    exact ⟨by simp only [margin_ofList, s.takeWhile_blank_unread], (hc.tracked.fail _).mono hfront⟩

theorem Opens.ordered {start : Position} {found : Finding} (h : Opens s front start found)
    (hs : start.offset ≤ s.reached front) : found.start.offset ≤ found.cursor.position.offset := by
  obtain ⟨done, hd, hp, -⟩ := h.tracked
  rw [h.start, hp.position]
  exact Nat.le_trans hs (s.reached_mono hd)

end
end Cursor

namespace Scanner

section
variable {s : SourceText} {before after : List Char} {scanner : Scanner}

theorem tokenOffset_of_pattern (h : scanner.failure.isSome ∨ scanner.mode = .pattern) :
    scanner.tokenOffset = scanner.cursor.readOffset := by
  rw [tokenOffset, if_pos (by rcases h with h | h <;> simp [h])]

theorem Ready.place_eq (h : Ready s before after scanner) :
    scanner.cursor.readOffset + size scanner.unreadMarker = s.place before := by
  rw [unreadMarker, h.behind.readOffset, h.behind.pattern]
  by_cases hb : before = []
  · subst hb
    cases hm : s.marked with
    | true => simp [s.first?_bytes_of_marked hm, place, lead, hm]
    | false => simp [s.first?_bytes_ne_of_unmarked hm, place, lead, hm]
  · have hp : s.place before ≠ 0 := by simp [place, hb]
    simp [reached, hb, hp]

theorem Ready.tokenOffset_eq (h : Ready s before after scanner) (hm : scanner.mode ≠ .pattern) :
    scanner.tokenOffset = s.reached (before ++ after.takeWhile AsciiTrait.blank) := by
  have hf : scanner.failure.isSome = false := by rw [h.failure]; rfl
  rw [tokenOffset, h.place_eq, h.behind.pattern, s.blanksAt_place h.behind.text]
  simp only [hf, hm, Bool.false_eq_true, false_or]
  split
  · rename_i hb
    rw [hb, List.append_nil, h.behind.readOffset]
  · rename_i hb
    have hn : before ++ after.takeWhile AsciiTrait.blank ≠ [] := List.append_ne_nil_of_right_ne_nil _ hb
    rw [s.reached_of_ne_nil hn, Utf8.size_append, ← Nat.add_assoc, h.place_eq, s.place_append]

theorem tokenStart_of_ne {l : Lexeme} (hl : l ≠ .regexp) :
    scanner.tokenStart l = positionAt scanner.cursor.pattern scanner.tokenOffset := by
  simp [tokenStart, hl]

theorem starts_accept {front : List Char} {start : Position} {found : Finding}
    (h : Cursor.Opens s front start found) (hs : start = scanner.tokenStart found.lexeme)
    (ho : start.offset ≤ s.reached front) : scanner.Starts (accept found).token :=
  ⟨h.start.trans hs, h.ordered ho⟩

/-- In a path a token starts behind whitespace. -/
theorem Ready.starts_path (h : Ready s before after scanner) (hm : scanner.mode ≠ .pattern) :
    scanner.Starts scanner.step.token := by
  obtain ⟨ho, hl⟩ := h.behind.token_opens hm
  have hp : before ++ after.takeWhile AsciiTrait.blank <+: s.text := by
    rw [h.behind.text]
    exact (List.prefix_append_right_inj before).2 (List.takeWhile_prefix _)
  rw [h.step]
  refine starts_accept ho ?_ (Nat.le_refl _)
  rw [tokenStart_of_ne hl, h.tokenOffset_eq hm, h.behind.pattern, s.positionAt_reached hp]

theorem Ready.positionAt_eq (h : Ready s before after scanner) :
    positionAt scanner.cursor.pattern scanner.cursor.readOffset = s.position before := by
  rw [h.behind.readOffset, h.behind.pattern, s.positionAt_reached ⟨after, h.behind.text.symm⟩]

theorem Ready.laidOut_iff (h : Ready s before after scanner) (hb : before ≠ []) :
    encode ['(', '\n'] <+: scanner.cursor.pattern.drop scanner.cursor.readOffset ↔ ['(', '\n'] <+: after := by
  rw [h.behind.pattern, h.behind.readOffset, s.reached_of_ne_nil hb]
  exact s.encode_prefix_iff h.behind.text (List.forall_mem_cons.2 ⟨by decide, List.forall_mem_singleton.2 (by decide)⟩)

theorem Ready.tokenStart_laidOut {more : List Char} (h : Ready s before ('(' :: '\n' :: more) scanner)
    (hb : before ≠ []) : let blanks := ('\n' :: more).takeWhile AsciiTrait.blank
    scanner.tokenStart .regexp = (s.position before).advance 0 blanks.length blanks.length := by
  have hplace : scanner.cursor.readOffset + 1 = s.place (before ++ ['(']) := by
    rw [h.behind.readOffset, s.reached_of_ne_nil hb, s.place_append]
    rfl
  have hblanks : blanksAt scanner.cursor.pattern (scanner.cursor.readOffset + 1) =
      ('\n' :: more).takeWhile AsciiTrait.blank := by
    rw [hplace, h.behind.pattern]
    exact s.blanksAt_place (by simpa using h.behind.text)
  rw [tokenStart, if_pos ⟨rfl, (h.laidOut_iff hb).2 ⟨more, rfl⟩⟩, h.positionAt_eq, hblanks]

/-- Leading whitespace does not reach behind the expression, since each of its characters takes a byte. -/
theorem offset_laidOut_le {blanks : List Char} (hb : before ≠ []) :
    ((s.position before).advance 0 blanks.length blanks.length).offset ≤ s.reached (before ++ '(' :: blanks) := by
  have hsize := Utf8.length_le_size ('(' :: blanks)
  rw [s.reached_of_ne_nil (by simp), s.place_append]
  simp only [Position.advance, SourceText.position, s.reached_of_ne_nil hb, List.length_cons] at hsize ⊢
  omega

theorem Ready.starts_pattern (h : Ready s before after scanner) (hm : scanner.mode = .pattern) (hb : before ≠ []) :
    scanner.Starts scanner.step.token := by
  have hstep : scanner.step = accept (scanner.cursor.advance.patternToken (s.position before)) := by
    rw [h.step, hm]
    rfl
  rw [hstep]
  by_cases ha : ['(', '\n'] <+: after
  · obtain ⟨more, rfl⟩ := ha
    have hon : Cursor.On s before '(' ('\n' :: more) scanner.cursor.advance := h.behind.advance
    obtain ⟨ho, hl⟩ := hon.expressionToken_opens (s.position before)
    rw [hon.patternToken_paren]
    exact starts_accept ho (hl ▸ (h.tokenStart_laidOut hb).symm) (offset_laidOut_le hb)
  · have ho : Cursor.Opens s before (s.position before) (scanner.cursor.advance.patternToken (s.position before)) :=
      ⟨h.behind.patternToken_start ha _, (Cursor.kept_tracked s before).token h.behind.tracked.advance .pattern _⟩
    refine starts_accept ho ?_ (Nat.le_refl _)
    rw [tokenStart, if_neg fun hc => ha ((h.laidOut_iff hb).1 hc.2), tokenOffset_of_pattern (.inr hm), h.positionAt_eq]

/-- Where a call reads nothing, the end of input starts and ends at the position. -/
theorem starts_endOfInput {front : List Char} (hp : Cursor.Placed s front scanner.cursor)
    (hm : scanner.failure.isSome ∨ scanner.mode = .pattern)
    (ht : scanner.step.token = .endOfInput scanner.cursor.position) : scanner.Starts scanner.step.token := by
  rw [ht]
  refine ⟨?_, Nat.le_refl _⟩
  show scanner.cursor.position = scanner.tokenStart .endOfInput
  rw [tokenStart_of_ne Lexeme.noConfusion, tokenOffset_of_pattern hm, hp.readOffset, hp.pattern,
    s.positionAt_reached hp.text, hp.position]

theorem Standing.starts (h : Standing s scanner) : scanner.Starts scanner.step.token := by
  cases h with
  | ready h hr =>
    by_cases hm : scanner.mode = .pattern
    · exact h.starts_pattern hm fun hb => by cases hm.symm.trans (hr hb)
    · exact h.starts_path hm
  | ended h hm =>
    exact starts_endOfInput ⟨List.prefix_rfl, h.pattern, h.position, h.readOffset⟩ (.inr hm) (step_of_ended h hm).1
  | failed hf hp => exact starts_endOfInput hp (.inl (by rw [hf]; rfl)) (by rw [step_of_failure hf])

theorem readOffset_le_tokenStart (scanner : Scanner) (l : Lexeme) :
    scanner.cursor.readOffset ≤ (scanner.tokenStart l).offset := by
  have ht : scanner.cursor.readOffset ≤ scanner.tokenOffset := by
    unfold tokenOffset
    dsimp only
    split
    · exact Nat.le_refl _
    · exact Nat.le_add_right _ _
  unfold tokenStart
  dsimp only
  split
  · exact Nat.le_add_right _ _
  · exact ht

theorem Standing.counts (h : Standing s scanner) : scanner.Counts s.bytes := by
  obtain ⟨before, hp⟩ := h.placed
  obtain ⟨after, ht⟩ := hp.text
  refine ⟨hp.pattern, ?_, ?_, ?_⟩
  · rw [hp.readOffset, s.take_reached hp.text, Utf8.wellFormedPart_encode]
  · rw [hp.readOffset, reached]
    split
    · exact Nat.zero_le _
    · exact s.place_le_length ht.symm
  · rw [hp.readOffset, s.positionAt_reached hp.text, hp.position]

theorem Standing.locates (h : Standing s scanner) : scanner.Locates scanner.step.token := by
  refine ⟨h.starts, stop_step scanner, ?_⟩
  rw [stop_step, h.step.counts.position, h.step.starts.start]
  exact readOffset_le_tokenStart _ _

end
end Scanner

theorem positions_count_text {pattern : List UInt8} {scanner : Scanner} (h : scanner.Reached pattern) :
    scanner.Counts pattern ∧ ∀ t, t = scanner.step.token ∨ scanner.next.1 = .ok t → scanner.Locates t := by
  obtain ⟨s, rfl⟩ := SourceText.exists_bytes pattern
  refine ⟨h.standing.counts, fun t ht => ?_⟩
  have he : t = scanner.step.token := by
    rcases ht with ht | ht
    · exact ht
    · cases hf : scanner.step.scanner.failure with
      | none =>
        have hn : scanner.next.1 = .ok scanner.step.token := by rw [Scanner.next, Step.result, hf]; rfl
        exact Except.ok.inj (ht.symm.trans hn)
      | some e =>
        have hn : scanner.next.1 = .error e := by rw [Scanner.next, Step.result, hf]; rfl
        cases ht.symm.trans hn
  rw [he]
  exact h.standing.locates

/-- The scanner in front of an expression on lines of its own, in a pattern with a byte order marker. -/
def Scanner.beforeLaidOut : Scanner :=
  (start (encode (CodePoint.byteOrderMark :: "/\x7b(\n  a\n)".toList))).step.scanner.next.2

theorem positions_count_text_laid_out : Scanner.beforeLaidOut.cursor.position = ⟨1, 2, 5⟩ ∧
    Scanner.beforeLaidOut.Locates ⟨.regexp, "a", ⟨1, 5, 8⟩, ⟨3, 9, 12⟩⟩ := by
  obtain ⟨hc, ht⟩ := positions_count_text (.next (.step .start) : Scanner.beforeLaidOut.Reached _)
  refine ⟨hc.position.trans (by decide +kernel), ht _ (.inl (by decide +kernel))⟩

end RoutePattern
