import RoutePattern.Proofs.CursorSimulation
import RoutePattern.Proofs.ScanRuns

/-!
# Scanners between calls

A scanner that is reached from the start of a pattern has read a part of the text: it can read on, or it
stands at the end of a legal pattern, or it has failed. The last two are settled, and a call changes nothing
of them.
-/
namespace RoutePattern
open SourceText

namespace Cursor

/-- The cursor has read at least `front`, and it stands behind its part of the text or reads no further. -/
def Tracked (s : SourceText) (front : List Char) (c : Cursor) : Prop :=
  ∃ before, front <+: before ∧ Placed s before c ∧ ((∃ after, Behind s before after c) ∨ c.next = .stop)

section
variable {s : SourceText} {before after front : List Char} {c : Cursor}

theorem next_fail (c : Cursor) (e : Failure) : (c.fail e).next = .stop := by
  cases hf : c.failure with
  | none => exact next_of_failure (failure_fail_of_none hf e)
  | some f => exact next_of_failure (failure_fail hf e)

theorem next_look_of_stop (h : c.next = .stop) : c.look.next = .stop := by
  unfold look
  split
  · exact h
  · rw [h]
    exact h

theorem Spent.next (h : Spent s c) : c.next = .stop := by
  cases he : s.obstacle with
  | none => exact (h.ended he).next
  | some e => exact next_of_failure (h.failure e he)

theorem Behind.tracked (h : Behind s before after c) : Tracked s before c :=
  ⟨before, List.prefix_rfl, h.placed, .inl ⟨after, h⟩⟩

theorem Spent.tracked (h : Spent s c) : Tracked s s.text c := ⟨s.text, List.prefix_rfl, h.toPlaced, .inr h.next⟩

theorem Tracked.mono {front' : List Char} (h : Tracked s front c) (hf : front' <+: front) : Tracked s front' c := by
  obtain ⟨before, hb, hp, hc⟩ := h
  exact ⟨before, hf.trans hb, hp, hc⟩

theorem Tracked.advance (h : Tracked s front c) : Tracked s front c.advance := by
  obtain ⟨before, hf, hp, ⟨after, hb⟩ | hn⟩ := h
  · cases after with
    | nil =>
      exact hb.advance_spent.tracked.mono (hf.trans hp.text)
    | cons x after =>
      have ha : On s before x after c.advance := hb.advance
      exact ⟨before ++ [x], hf.trans (List.prefix_append _ _), ha.placed, .inl ⟨after, ha.toBehind⟩⟩
  · rw [advance_of_stop hn]
    exact ⟨before, hf, hp.finish, .inr hn⟩

theorem Tracked.look (h : Tracked s front c) : Tracked s front c.look := by
  obtain ⟨before, hf, hp, ⟨after, hb⟩ | hn⟩ := h
  · refine ⟨before, hf, hp.look, ?_⟩
    rcases hb.look_cases with hl | ⟨-, e, -, he⟩
    · exact .inl ⟨after, hl⟩
    · exact .inr (next_of_failure he)
  · exact ⟨before, hf, hp.look, .inr (next_look_of_stop hn)⟩

theorem Tracked.fail (h : Tracked s front c) (e : Failure) : Tracked s front (c.fail e) := by
  obtain ⟨before, hf, hp, -⟩ := h
  exact ⟨before, hf, hp.fail e, .inr (c.next_fail e)⟩

theorem kept_tracked (s : SourceText) (front : List Char) : Kept (Tracked s front) :=
  ⟨Tracked.advance, Tracked.look, Tracked.fail⟩

/-- A cursor at the end goes on standing there. -/
theorem Ended.advance_eq (h : Ended s c) : c.advance = c := by
  have hl : c.pattern.length = c.offset := by rw [h.pattern, h.offset]
  rw [advance_of_stop h.next, finish, hl, ← h.current, ← h.lookahead]

end
end Cursor

namespace Scanner

/-- The scanners over a pattern between calls. -/
inductive Reached (pattern : List UInt8) : Scanner → Prop where
  | start : Reached pattern (.start pattern)
  | step {scanner} (h : Reached pattern scanner) : Reached pattern scanner.step.scanner
  | next {scanner} (h : Reached pattern scanner) : Reached pattern scanner.next.2

/-- What a scanner between calls can be. -/
inductive Standing (s : SourceText) (scanner : Scanner) : Prop where
  | ready {before after} (h : Ready s before after scanner) (hm : before = [] → scanner.mode = .reset)
  | ended (h : Cursor.Ended s scanner.cursor) (hm : scanner.mode = .pattern)
  | failed {before e} (hf : scanner.failure = some e) (hp : Cursor.Placed s before scanner.cursor)

section
variable {s : SourceText} {before after front : List Char} {scanner : Scanner} {found : Finding} {e : Failure}

theorem step_of_failure (h : scanner.failure = some e) :
    scanner.step = ⟨.endOfInput scanner.cursor.position, scanner, []⟩ := by simp [Scanner.step, h]

/-- A token ends where its call leaves the scanner. -/
theorem stop_step (scanner : Scanner) : scanner.step.token.stop = scanner.step.scanner.cursor.position := by
  have haccept (found : Finding) : (accept found).scanner.cursor.position = found.cursor.position := by
    unfold accept
    dsimp only
    split
    · rfl
    · exact (found.cursor.fail_same _).2.1
  unfold Scanner.step
  split
  · rfl
  · exact (haccept _).symm

/-- The end is read without a change. -/
theorem step_of_ended (h : Cursor.Ended s scanner.cursor) (hm : scanner.mode = .pattern) :
    scanner.step.token = .endOfInput scanner.cursor.position ∧
      scanner.step.scanner = { scanner with cursor := { scanner.cursor with reports := [] } } := by
  have hf : scanner.failure.isSome = false := by rw [failure, h.failure]; rfl
  have ht : scanner.cursor.advance.token scanner.mode scanner.cursor.position =
      ⟨.endOfInput, "", scanner.cursor.position, scanner.cursor⟩ := by
    rw [hm, h.advance_eq]
    show Cursor.patternToken _ _ = _
    rw [Cursor.patternToken, h.current]
    rfl
  have hv : (Token.endOfInput scanner.cursor.position).isValid = true := by
    rw [h.position]
    simp only [Token.endOfInput, Token.isValid, s.isValid_position]
    rfl
  have hs : scanner.step = accept ⟨.endOfInput, "", scanner.cursor.position, scanner.cursor⟩ := by
    simp [Scanner.step, hf, ht]
  obtain ⟨htoken, hscanner⟩ := @accept_of_valid ⟨.endOfInput, "", scanner.cursor.position, scanner.cursor⟩ hv
  rw [hs]
  exact ⟨htoken, by rw [hscanner, hm]; rfl⟩

/-- The call that ends a scan without a failure gives the end of input behind all whitespace. -/
theorem Ready.step_ending (h : Ready s before after scanner) (hn : scanner.step.scanner.more = false)
    (hf : scanner.step.scanner.failure = none) :
    scanner.step.token = .endOfInput scanner.step.scanner.cursor.position := by
  rcases h.step_cases with ⟨k, rest, rfl, hk, hp⟩ | ⟨e, he, -⟩
  · by_cases hl : k.lexeme = .endOfInput
    · obtain ⟨blanks, rfl, rfl⟩ := hk.finish_of_endOfInput hl
      have ht : s.text = before ++ blanks := by simpa [Chunk.finish, Chunk.text] using h.behind.text
      rw [hp.token, (hp.ended hl).position, ht, SourceText.token_finish]
    · cases hn.symm.trans (hp.ready hl).more
  · cases hf.symm.trans he

/-- A call never goes back. -/
theorem Ready.step_placed (h : Ready s before after scanner) :
    ∃ done, before <+: done ∧ Cursor.Placed s done scanner.step.scanner.cursor := by
  have ht : Cursor.Tracked s before scanner.cursor.advance := h.behind.tracked.advance
  obtain ⟨done, hd, hp, -⟩ := (Cursor.kept_tracked s before).token ht scanner.mode (s.position before)
  exact ⟨done, hd, h.step ▸ placed_accept hp⟩

theorem Standing.step (h : Standing s scanner) : Standing s scanner.step.scanner := by
  cases h with
  | ready h =>
    rcases h.step_cases with ⟨k, rest, rfl, hk, hp⟩ | ⟨e, hf, -⟩
    · by_cases hl : k.lexeme = .endOfInput
      · exact .ended (hp.ended hl) (by rw [hp.mode, hl]; rfl)
      · exact .ready (hp.ready hl) fun hn => absurd (List.append_eq_nil_iff.1 hn).2 (hk.text_ne_nil hl)
    · obtain ⟨done, -, hp⟩ := h.step_placed
      exact .failed hf hp
  | ended h hm =>
    rw [(step_of_ended h hm).2]
    exact .ended (h.report []) hm
  | failed hf hp =>
    rw [step_of_failure hf]
    exact .failed hf hp

theorem Reached.standing (h : Reached s.bytes scanner) : Standing s scanner := by
  induction h with
  | start => exact .ready (ready_start s) fun _ => rfl
  | step _ ih => exact ih.step
  | next _ ih => exact ih.step

/-- A scanner fails with a failure of its text. -/
theorem Reached.flaw (h : Reached s.bytes scanner) (hf : scanner.failure = some e) : s.Flaw e := by
  have hstep {t : Scanner} (hr : Reached s.bytes t) (ih : t.failure = some e → s.Flaw e)
      (hf : t.step.scanner.failure = some e) : s.Flaw e := by
    cases hr.standing with
    | ready h =>
      rcases h.step_cases with ⟨k, rest, -, -, hp⟩ | ⟨f, he, hflaw⟩
      · by_cases hl : k.lexeme = .endOfInput
        · cases (hp.ended hl).failure.symm.trans hf
        · cases (hp.ready hl).failure.symm.trans hf
      · exact Option.some.inj (he.symm.trans hf) ▸ hflaw
    | ended h hm =>
      rw [(step_of_ended h hm).2] at hf
      cases h.failure.symm.trans hf
    | failed he =>
      rw [step_of_failure he] at hf
      exact ih hf
  induction h with
  | start => cases hf
  | step hr ih => exact hstep hr ih hf
  | next hr ih => exact hstep hr ih hf

/-- A call hands over all that it has to report. -/
theorem Reached.reports {pattern : List UInt8} (h : Reached pattern scanner) : scanner.cursor.reports = [] := by
  have hstep {t : Scanner} (ht : t.cursor.reports = []) : t.step.scanner.cursor.reports = [] := by
    unfold Scanner.step
    split
    · exact ht
    · rfl
  induction h with
  | start => rfl
  | step _ ih => exact hstep ih
  | next _ ih => exact hstep ih

theorem Standing.placed (h : Standing s scanner) : ∃ before, Cursor.Placed s before scanner.cursor := by
  cases h with
  | ready h => exact ⟨_, h.behind.placed⟩
  | ended h => exact ⟨s.text, List.prefix_rfl, h.pattern, h.position, h.readOffset⟩
  | failed _ hp => exact ⟨_, hp⟩

theorem Standing.ready_of_more (h : Standing s scanner) (hm : scanner.more = true) :
    ∃ before after, Ready s before after scanner := by
  cases h with
  | ready h => exact ⟨_, _, h⟩
  | ended h => cases h.more.symm.trans hm
  | failed hf => cases (Cursor.more_of_failure hf).symm.trans hm

/-- Where nothing more can be read, a call gives the end of input and changes nothing. -/
theorem Standing.step_settled (h : Standing s scanner) (hr : scanner.cursor.reports = []) (hm : scanner.more = false) :
    scanner.step.token = .endOfInput scanner.cursor.position ∧ scanner.step.scanner = scanner := by
  cases h with
  | ready h => cases hm.symm.trans h.more
  | ended h hp =>
    obtain ⟨ht, hs⟩ := step_of_ended h hp
    rw [← hr] at hs
    exact ⟨ht, hs⟩
  | failed hf => simp [step_of_failure hf]

end
end Scanner
end RoutePattern
