import RoutePattern.Proofs.Phrases
import RoutePattern.Proofs.UnfitTexts

/-!
# Single steps of a scanner

One step reads a chunk that fits the mode. Where no chunk fits it fails, on the first characters of a dead text
or at the end of an open one.
-/
namespace RoutePattern
open SourceText

namespace Cursor

section
variable {s : SourceText} {before after rest word : List Char} {x : Char} {k : Chunk} {mode : Mode} {c : Cursor}

theorem Behind.advance_current (h : Behind s before after c) : c.advance.current = .ofHead after := by
  cases after with
  | nil =>
    cases he : s.obstacle <;> simp [Cursor.advance, h.next_end, SourceText.ending, he, finish, CodePoint.ofHead]
  | cons x after => exact h.advance.currentChar

theorem Behind.pathToken (h : Behind s before (k.text ++ rest) c) (hm : mode ≠ .pattern)
    (hk : Fits mode k rest) (hl : k.lexeme ≠ .method) :
    s.Reads before k rest (c.advance.pathToken (s.position before)) := by
  cases hk with
  | method => exact absurd rfl hl
  | mark _ hb hx =>
    exact .inl ⟨Behind.pathToken_mark (by simpa [Chunk.run, Chunk.text] using h) hb hx,
      fun hs => absurd hs (Chunk.not_seesEnd (Chunk.closed_of_singles (CodePoint.classify_mem_singles hx)) _)⟩
  | segment _ hb hs hc _ hr => exact Behind.pathToken_segment (by simpa [Chunk.run, Chunk.text] using h) hb hs hc hr
  | finish _ hb => exact Behind.pathToken_finish (by simpa [Chunk.finish, Chunk.text] using h) hb
  | _ => exact absurd rfl hm

theorem token_of_not_upper (h : c.current.isUpper = false) (start : Position) :
    c.token .reset start = c.pathToken start := by simp [Cursor.token, firstToken, h]

/-- In front of everything else capitals are read as a method. -/
theorem Behind.token_word (h : Behind s [] (word ++ rest) c) (hn : word ≠ [])
    (hw : ∀ y ∈ word, (CodePoint.char y).isUpper = true) (start : Position) :
    c.advance.token .reset start = c.advance.methodToken start := by
  have hu : c.advance.current.isUpper = true := h.advance_current ▸ CodePoint.member_ofHead hn hw rest
  simp [Cursor.token, firstToken, hu]

/-- A chunk that fits the mode is read. -/
theorem Behind.token (h : Behind s before (k.text ++ rest) c) (hm : mode = .reset → before = [])
    (hk : Fits mode k rest) : s.Reads before k rest (c.advance.token mode (s.position before)) := by
  cases mode with
  | reset =>
    obtain rfl := hm rfl
    by_cases hl : k.lexeme = .method
    · obtain ⟨-, word, gap, after, rfl, rfl, hn, hw, hg⟩ := hk.method_inv hl
      have hb : Behind s [] (word ++ gap :: '/' :: after) c := by simpa [Chunk.text] using h
      rw [hb.token_word hn hw]
      exact hb.methodToken hn hw hg
    · rw [token_of_not_upper (h.advance_current ▸ hk.head_not_upper hl)]
      exact h.pathToken Mode.noConfusion hk hl
  | path =>
    have hl : k.lexeme ≠ .method := fun hl => Mode.noConfusion (hk.method_inv hl).1
    exact h.pathToken Mode.noConfusion hk hl
  | pattern => exact h.patternToken hk

end
end Cursor

/-- A word in front of a legal text is undecided on its last character, if nothing follows. -/
theorem SourceText.undecided_end (s : SourceText) {front : List Char} {x : Char} (ht : s.text = front ++ [x])
    (hx : (CodePoint.char x).isUpper = true ∨ x = ' ' ∨ x = '\t') (hu : (CodePoint.ofHead s.text).isUpper = true)
    (suggestions : List String) (ho : s.obstacle = none) :
    s.Flaw (.ambiguous (CodePoint.char x).classify suggestions (s.place front)) ∧
      s.bytes.length ≤ s.place front + 1 := by
  have hsize : x.utf8Size = 1 := by
    rcases hx with hx | rfl | rfl
    · exact CodePoint.utf8Size_of_isUpper hx
    · rfl
    · rfl
  refine ⟨.undecided ht hx hu, ?_⟩
  rw [s.length_bytes, s.obstacle_eq_none.1 ho, ht, s.place_append, Utf8.size_cons, hsize]
  exact Nat.le_refl _

namespace Scanner

/-- A scanner that has read some of the text, and in its first mode nothing. -/
structure Ready (s : SourceText) (before after : List Char) (scanner : Scanner) : Prop where
  behind : Cursor.Behind s before after scanner.cursor
  reset : scanner.mode = .reset → before = []

/-- The scanner has read a chunk. -/
structure Passed (s : SourceText) (before : List Char) (k : Chunk) (rest : List Char) (step : Step) : Prop where
  token : step.token = s.token before k
  ready : k.lexeme ≠ .endOfInput → Ready s (before ++ k.text) rest step.scanner
  ended : k.lexeme = .endOfInput → Cursor.Ended s step.scanner.cursor
  mode : step.scanner.mode = .after k.lexeme

/-- The scanner has found a chunk, but has failed with what ends the text right behind it. -/
structure Barred (s : SourceText) (k : Chunk) (rest : List Char) (step : Step) : Prop where
  seesEnd : k.SeesEnd rest
  literal : step.token.literal = String.ofList k.literal
  halted : ∃ e, s.obstacle = some e ∧ Cursor.Halted s s.text e step.scanner.cursor

theorem ready_start (s : SourceText) : Ready s [] s.text (start s.bytes) :=
  ⟨Cursor.behind_start s, fun _ => rfl⟩

theorem after_ne_reset (l : Lexeme) : Mode.after l ≠ .reset := by cases l <;> exact Mode.noConfusion

section
variable {s : SourceText} {before after rest front ahead word : List Char} {x : Char} {k : Chunk} {scanner : Scanner}
  {e : Failure} {f : Nat → Failure}

theorem Ready.failure (h : Ready s before after scanner) : scanner.failure = none := h.behind.failure

/-- The text that is left fits a chunk, or is dead or open. -/
theorem Ready.outlook (h : Ready s before after scanner) : Outlook scanner.mode after :=
  RoutePattern.outlook scanner.mode fun x hx => s.legal x (by simp [h.behind.text, hx])

theorem step_of_unfailed (h : scanner.failure = none) :
    scanner.step = accept (scanner.cursor.advance.token scanner.mode scanner.cursor.position) := by
  simp [Scanner.step, h]

theorem Ready.step (h : Ready s before after scanner) :
    scanner.step = accept (scanner.cursor.advance.token scanner.mode (s.position before)) := by
  rw [step_of_unfailed h.failure, h.behind.position]

theorem placed_accept {found : Finding} (h : Cursor.Placed s before found.cursor) :
    Cursor.Placed s before (accept found).scanner.cursor := by
  have hreport {c : Cursor} (hc : Cursor.Placed s before c) : Cursor.Placed s before { c with reports := [] } :=
    ⟨hc.text, hc.pattern, hc.position, hc.readOffset⟩
  unfold accept
  dsimp only
  split
  · exact hreport h
  · exact hreport (h.fail _)

theorem failure_accept {found : Finding} (h : found.cursor.failure = some e) :
    (accept found).scanner.failure = some e := by
  have hu : (found.cursor.unexpected found.cursor.current recovery).failure = some e :=
    Cursor.failure_fail h _
  unfold accept Scanner.failure
  dsimp only
  split
  · exact h
  · exact hu

theorem halted_accept {found : Finding} (h : Cursor.Halted s before e found.cursor) :
    Cursor.Halted s before e (accept found).scanner.cursor := ⟨placed_accept h.toPlaced, failure_accept h.failure⟩

theorem accept_of_valid {found : Finding}
    (h : (⟨found.lexeme, found.literal, found.start, found.cursor.position⟩ : Token).isValid = true) :
    (accept found).token = ⟨found.lexeme, found.literal, found.start, found.cursor.position⟩ ∧
      (accept found).scanner = ⟨{ found.cursor with reports := [] }, .after found.lexeme⟩ := by
  unfold accept
  simp only [h, if_true, and_self]

theorem halted_accept_invalid {c : Cursor} {x : Char} (h : Cursor.On s before x after c) (start : Position)
    (hx : (CodePoint.char x).classify = .invalid) :
    Cursor.Halted s (before ++ [x]) (.unexpected .invalid recovery (s.place before))
      (accept ⟨.invalid, "", start, c⟩).scanner.cursor := by
  refine ⟨placed_accept h.placed, ?_⟩
  have hu : (accept ⟨.invalid, "", start, c⟩).scanner.cursor.failure = (c.unexpected c.current recovery).failure := rfl
  rw [hu, Cursor.unexpected, Cursor.failure_fail_of_none h.failure, h.currentChar, hx, h.offset]

theorem stop_of_found {found : Finding} {mode : Mode} (hk : Fits mode k rest)
    (ht : s.text = before ++ (k.text ++ rest)) (h : s.Found before k rest found) :
    found.cursor.position = s.position (before ++ k.text) := by
  have hr := h.reached
  unfold Reached at hr
  split at hr
  · rename_i hl
    obtain ⟨blanks, -, rfl⟩ := hk.finish_of_endOfInput hl
    rw [hr.position, ht, List.append_nil]
  · exact hr.behind.position

/-- A finding that has read a chunk makes a valid token. -/
theorem passed_accept {found : Finding} {mode : Mode} (hk : Fits mode k rest)
    (ht : s.text = before ++ (k.text ++ rest)) (h : s.Found before k rest found) :
    Passed s before k rest (accept found) := by
  have htoken : (⟨found.lexeme, found.literal, found.start, found.cursor.position⟩ : Token) = s.token before k := by
    rw [h.lexeme, h.literal, h.start, stop_of_found hk ht h]
    rfl
  have hvalid : (s.token before k).isValid = true := (s.isValid_token before k).trans hk.isValid
  obtain ⟨ht, hs⟩ := accept_of_valid (htoken ▸ hvalid)
  have hr := h.reached
  refine ⟨ht.trans htoken, fun hl => ⟨?_, fun hm => ?_⟩, fun hl => ?_, ?_⟩
  · rw [Reached, if_neg hl] at hr
    rw [hs]
    exact hr.behind.report []
  · rw [hs] at hm
    exact absurd hm (after_ne_reset _)
  · rw [Reached, if_pos hl] at hr
    rw [hs]
    exact hr.report []
  · rw [hs, h.lexeme]

/-- A step over a chunk that fits reads it, or fails with what ends the text right behind it. -/
theorem Ready.step_reads (h : Ready s before (k.text ++ rest) scanner) (hk : Fits scanner.mode k rest) :
    Passed s before k rest scanner.step ∧ (k.SeesEnd rest → s.obstacle = none) ∨ Barred s k rest scanner.step := by
  rw [h.step]
  rcases h.behind.token h.reset hk with ⟨hf, hend⟩ | ⟨hsees, hl, e, he, hc⟩
  · exact .inl ⟨passed_accept hk h.behind.text hf, hend⟩
  · exact .inr ⟨hsees, hl, e, he, halted_accept hc⟩

/-- Capitals in front that are no method are undecided on the last of them, or on the blank behind them. -/
theorem Ready.step_undecided (h : Ready s [] (word ++ rest) scanner) (hs : scanner.mode = .reset) (hn : word ≠ [])
    (hw : ∀ x ∈ word, (CodePoint.char x).isUpper = true) (hr : (CodePoint.ofHead rest).isUpper = false)
    (hm : ∀ gap after, gap = ' ' ∨ gap = '\t' → rest ≠ gap :: '/' :: after) :
    ∃ front x after, ((x = ' ' ∨ x = '\t') ∧ front = word ∧ rest = x :: after ∨
        x ∈ word ∧ word = front ++ [x] ∧ rest = after ∧ ∀ y ∈ rest.head?, y ≠ ' ' ∧ y ≠ '\t') ∧
      scanner.step.token.literal = "" ∧ Cursor.Halted s (front ++ [x]) ((s.obstacleAhead after).getD
        (.ambiguous (CodePoint.char x).classify (Cursor.readings (String.ofList word)) (s.place front)))
        scanner.step.scanner.cursor := by
  obtain ⟨front, x, after, d, hd, he, hx⟩ := h.behind.methodToken_undecided hn hw hr hm (s.position [])
  refine ⟨front, x, after, hx, ?_⟩
  rw [h.step, hs, h.behind.token_word hn hw, he]
  exact ⟨rfl, halted_accept (hd.undecided _ _)⟩

theorem Ready.step_pattern (h : Ready s before (x :: after) scanner) (hm : scanner.mode = .pattern) :
    ∃ c, Cursor.On s before x after c ∧ scanner.step = accept (c.patternToken (s.position before)) := by
  refine ⟨scanner.cursor.advance, h.behind.advance, ?_⟩
  rw [h.step, hm]
  rfl

/-- A step over an expression in quotes reads the quoted text, and then the parenthesis behind it. -/
theorem Ready.step_quoted {quote : Char} (h : Ready s before ('(' :: quote :: after) scanner)
    (hm : scanner.mode = .pattern) (hq : quote ∈ Cursor.quotes) :
    ∃ c, Cursor.On s (before ++ ['(']) quote after c ∧ scanner.step = accept
      ⟨.regexp, (c.quotation quote).1, s.position before, ((c.quotation quote).2.take [quote]).expect [')']⟩ := by
  obtain ⟨c, hc, hstep⟩ := h.step_pattern hm
  obtain ⟨d, hd, he⟩ := hc.expressionToken_quote hq
  exact ⟨d, hd, by rw [hstep, hc.patternToken_paren, he]⟩

/-- A step over a dead text fails with the failure of the text, whatever stands behind it. -/
theorem Ready.step_dead (h : Ready s before (front ++ x :: (ahead ++ rest)) scanner)
    (hd : Dead scanner.mode front x ahead f) : Yields front scanner.step.token.literal.toList ∧
      Cursor.Halted s (before ++ front ++ [x]) (f (s.place (before ++ front))) scanner.step.scanner.cursor := by
  generalize hm : scanner.mode = mode at hd
  have hempty : Yields front "".toList := ⟨[], [], front, rfl, .verbatim⟩
  cases hd with
  | unreadable hx =>
    obtain ⟨c, hc, hstep⟩ := h.step_pattern hm
    rw [hstep, Cursor.patternToken, hc.currentChar, hx, List.append_nil]
    exact ⟨hempty, halted_accept_invalid hc _ hx⟩
  | @unclosed literal quote inner _ hq hx =>
    have hquoted : Ready s before ('(' :: quote :: (inner ++ quote :: x :: rest)) scanner := by simpa using h
    obtain ⟨d, hd, hstep⟩ := hquoted.step_quoted hm (Cursor.mem_quotes hq)
    obtain ⟨c, hc, hl⟩ := hd.quotation hq
    rw [hstep, hl]
    refine ⟨?_, ?_⟩
    · show Yields _ (String.ofList literal).toList
      simpa using hq.excerpt.yields.mono ['(', quote] [quote]
    · have hfront : before ++ ['('] ++ quote :: inner ++ [quote] = before ++ '(' :: quote :: (inner ++ [quote]) := by
        simp
      rw [← hfront]
      exact halted_accept (hc.closing_other hx)
  | @letter _ _ y hw hy =>
    -- The word is undecided on its last letter or on a blank behind it, and here no blank follows.
    obtain rfl := h.reset hm
    have hword : Ready s [] ((front ++ [x]) ++ y :: rest) scanner := by simpa using h
    obtain ⟨front', x', after, hx, hl, hc⟩ := hword.step_undecided hm (by simp) hw hy.1 fun gap after hg he => by
      obtain rfl := (List.cons.inj he).1
      exact hg.elim hy.2.1 hy.2.2
    rcases hx with ⟨hx, -, he⟩ | ⟨-, he, rfl, -⟩
    · obtain rfl := (List.cons.inj he).1
      exact absurd hx (not_or.2 hy.2)
    · obtain ⟨rfl, hlast⟩ := List.append_inj' he rfl
      obtain rfl := (List.cons.inj hlast).1
      exact ⟨hl ▸ hempty, hc⟩
  | @gap _ _ y hn hw hx hy =>
    obtain rfl := h.reset hm
    have hr : (CodePoint.ofHead (x :: y :: rest)).isUpper = false := by rcases hx with rfl | rfl <;> rfl
    obtain ⟨front', x', after, hx', hl, hc⟩ := h.step_undecided hm hn hw hr fun gap after _ he =>
      hy (List.cons.inj (List.cons.inj he).2).1
    rcases hx' with ⟨-, rfl, he⟩ | ⟨-, -, -, hb⟩
    · obtain ⟨rfl, rfl⟩ := List.cons.inj he
      exact ⟨hl ▸ hempty, hc⟩
    · exact absurd hx (not_or.2 (hb x rfl))

/-- A step over an open text fails where the text ends: with what stands there, or with what is open. -/
theorem Ready.step_open (h : Ready s before after scanner) (ho : Open scanner.mode after) :
    s.Takes after scanner.step.token.literal ∧ ∃ e, (s.obstacle = none → s.Flaw e ∧ s.bytes.length ≤ e.offset + 1) ∧
      Cursor.Halted s s.text (s.obstacle.getD e) scanner.step.scanner.cursor := by
  generalize hm : scanner.mode = mode at ho
  have hempty : s.Takes after "" := .inside ⟨[], [], after, rfl, .verbatim⟩
  cases ho with
  | @quotes quote after hq hn =>
    obtain ⟨c, hon, hstep⟩ := h.step_pattern hm
    obtain ⟨hl, hc⟩ := hon.quotation_open hq hn
    rw [hstep, hon.patternToken_quote hq]
    exact ⟨hl.cons quote, _, fun he => ⟨.unterminated he, Nat.le_succ _⟩, halted_accept hc⟩
  | @quoted quote after hq hn =>
    obtain ⟨d, hd, hstep⟩ := h.step_quoted hm hq
    obtain ⟨hl, hc⟩ := hd.quotation_open hq hn
    have hk := Cursor.kept_halted s s.text
      (s.obstacle.getD (.unterminated (CodePoint.char quote).classify .endOfInput s.bytes.length))
    rw [hstep]
    -- The quotation has failed already: neither the quote nor the parenthesis taken after it changes that.
    exact ⟨(hl.cons quote).cons '(', _, fun he => ⟨.unterminated he, Nat.le_succ _⟩,
      halted_accept (hk.expect (hk.take hc _) _)⟩
  | @unclosed literal quote inner hq =>
    obtain ⟨d, hd, hstep⟩ := h.step_quoted hm (Cursor.mem_quotes hq)
    obtain ⟨c, hc, hl⟩ := hd.quotation hq
    rw [hstep, hl]
    refine ⟨.inside ?_, _, fun he => ⟨.unclosedEnd he, Nat.le_succ _⟩, halted_accept hc.closing_end⟩
    show Yields _ (String.ofList literal).toList
    simpa using hq.excerpt.yields.mono ['(', quote] [quote]
  | @nested after hh hi =>
    obtain ⟨c, hon, hstep⟩ := h.step_pattern hm
    obtain ⟨hl, hc⟩ := hon.nested_open hh hi (s.position before)
    rw [hstep, hon.patternToken_paren]
    exact ⟨hl.cons '(', _, fun he => ⟨.unbalanced he (hi after List.prefix_rfl), Nat.le_succ _⟩, halted_accept hc⟩
  | word hn hw =>
    obtain rfl := h.reset hm
    have hword : Ready s [] (after ++ []) scanner := by simpa using h
    obtain ⟨front, x, rest, hx, hl, hc⟩ := hword.step_undecided hm hn hw rfl nofun
    rcases hx with ⟨-, -, he⟩ | ⟨hmem, rfl, rfl, -⟩
    · cases he
    · have ht : s.text = front ++ [x] := h.behind.text
      refine ⟨hl ▸ hempty, _, s.undecided_end ht (.inl (hw x hmem)) ?_ _, by rwa [ht]⟩
      rw [ht, ← List.append_nil (front ++ [x])]
      exact CodePoint.member_ofHead hn hw []
  | @gap word x hn hw hx =>
    obtain rfl := h.reset hm
    have hr : (CodePoint.ofHead [x]).isUpper = false := by rcases hx with rfl | rfl <;> rfl
    obtain ⟨front, y, rest, hy, hl, hc⟩ := h.step_undecided hm hn hw hr nofun
    rcases hy with ⟨hblank, rfl, he⟩ | ⟨-, -, -, hb⟩
    · obtain ⟨rfl, rfl⟩ := List.cons.inj he
      have ht : s.text = front ++ [x] := h.behind.text
      refine ⟨hl ▸ hempty, _, s.undecided_end ht (.inr hx) ?_ _, by rwa [ht]⟩
      exact ht ▸ CodePoint.member_ofHead hn hw _
    · exact absurd hx (not_or.2 (hb x rfl))

/-- Every step reads a chunk that fits, or fails. -/
theorem Ready.step_cases (h : Ready s before after scanner) :
    (∃ k rest, after = k.text ++ rest ∧ Fits scanner.mode k rest ∧ Passed s before k rest scanner.step) ∨
      s.Fails scanner.step.scanner.cursor := by
  cases h.outlook with
  | fits rest ht hk =>
    subst ht
    rcases h.step_reads hk with ⟨hp, -⟩ | hb
    · exact .inl ⟨_, rest, rfl, hk, hp⟩
    · obtain ⟨e, he, hc⟩ := hb.halted
      exact .inr ⟨e, hc.failure, .obstacle he⟩
  | dead rest ht hd =>
    subst ht
    exact .inr ⟨_, (h.step_dead hd).2.failure, hd.flaw h.reset h.behind.text⟩
  | «open» ho =>
    obtain ⟨-, e, he, hc⟩ := h.step_open ho
    exact .inr ⟨_, hc.failure, SourceText.flaw_getD fun hn => (he hn).1⟩

theorem Passed.failure (h : Passed s before k rest scanner.step) : scanner.step.scanner.failure = none := by
  by_cases hl : k.lexeme = .endOfInput
  · exact (h.ended hl).failure
  · exact (h.ready hl).failure

/-- Where the end is met, a step fails with what stands there. -/
theorem Ready.step_meetsEnd (h : Ready s before after scanner) (hm : MeetsEnd scanner.mode after)
    (he : s.obstacle = some e) : scanner.step.scanner.failure = some e := by
  cases hm with
  | @chunk k hk hc =>
    rw [← List.append_nil k.text] at h
    rcases h.step_reads hk with ⟨-, hend⟩ | hb
    · cases (hend ⟨rfl, hc⟩).symm.trans he
    · obtain ⟨f, hf, hhalted⟩ := hb.halted
      rw [Scanner.failure, hhalted.failure, ← hf, he]
  | «open» ho =>
    obtain ⟨-, f, -, hc⟩ := h.step_open ho
    rw [Scanner.failure, hc.failure, he]
    rfl

/-- A step fails in a dead text, or where the end is met. -/
theorem Ready.step_failed (h : Ready s before after scanner) (hf : scanner.step.scanner.failure = some e) :
    (∃ front x ahead f rest, after = front ++ x :: (ahead ++ rest) ∧ Dead scanner.mode front x ahead f ∧
      e = f (s.place (before ++ front))) ∨
    MeetsEnd scanner.mode after ∧ (s.obstacle = some e ∨ s.obstacle = none ∧ s.bytes.length ≤ e.offset + 1) := by
  cases h.outlook with
  | @fits k rest ht hk =>
    subst ht
    rcases h.step_reads hk with ⟨hp, -⟩ | hb
    · cases hp.failure.symm.trans hf
    · obtain ⟨hrest, hc⟩ := hb.seesEnd
      obtain ⟨f, he, hhalted⟩ := hb.halted
      obtain rfl : f = e := Option.some.inj (hhalted.failure.symm.trans hf)
      subst hrest
      exact .inr ⟨(List.append_nil k.text).symm ▸ .chunk hk hc, .inl he⟩
  | dead rest ht hd =>
    subst ht
    exact .inl ⟨_, _, _, _, rest, rfl, hd, Option.some.inj (hf.symm.trans (h.step_dead hd).2.failure)⟩
  | «open» ho =>
    obtain ⟨-, f, hflaw, hc⟩ := h.step_open ho
    have he : s.obstacle.getD f = e := Option.some.inj (hc.failure.symm.trans hf)
    refine .inr ⟨.open ho, ?_⟩
    cases hs : s.obstacle with
    | none =>
      rw [hs] at he
      exact .inr ⟨rfl, he ▸ (hflaw hs).2⟩
    | some e' =>
      rw [hs] at he
      exact .inl (congrArg some he)

end
end Scanner
end RoutePattern
