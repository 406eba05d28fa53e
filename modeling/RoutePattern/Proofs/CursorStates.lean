import RoutePattern.CursorProgress
import RoutePattern.Proofs.CharacterKinds
import RoutePattern.Proofs.CursorSimulation
import RoutePattern.Proofs.SourceTexts

/-!
# Cursors over a text

A cursor that has not failed stands behind some part of the text of its pattern, or at the end of a
pattern that is legal throughout. Each basic operation either moves between these states or fails with
what ends the text. A failure stays.
-/
namespace RoutePattern

namespace Cursor

/-- All that is known of an unfailed cursor that has read `before` and nothing of `after`. -/
structure Behind (s : SourceText) (before after : List Char) (c : Cursor) : Prop where
  text : s.text = before ++ after
  pattern : c.pattern = s.bytes
  position : c.position = s.position before
  readOffset : c.readOffset = s.reached before
  current : c.current = before.getLast?.elim .reset .char
  lookahead : ∀ p, c.lookahead = some p → p = .ofHead after ∧ (after = [] → s.obstacle = none)
  failure : c.failure = none

/-- The cursor stands on a character of the text. -/
structure On (s : SourceText) (before : List Char) (x : Char) (after : List Char) (c : Cursor) : Prop
    extends Behind s (before ++ [x]) after c where
  offset : c.offset = s.place before

/-- The cursor stands on the last character of what it has read. -/
def OnLast (s : SourceText) (done after : List Char) (c : Cursor) : Prop :=
  ∃ before x, done = before ++ [x] ∧ On s before x after c

/-- The cursor is at the end of a pattern that is legal throughout. -/
structure Ended (s : SourceText) (c : Cursor) : Prop where
  obstacle : s.obstacle = none
  pattern : c.pattern = s.bytes
  position : c.position = s.position s.text
  offset : c.offset = s.bytes.length
  readOffset : c.readOffset = s.reached s.text
  current : c.current = .eof
  lookahead : c.lookahead = none
  failure : c.failure = none

/-- How far the cursor has read, whether it has failed or not. -/
structure Placed (s : SourceText) (before : List Char) (c : Cursor) : Prop where
  text : before <+: s.text
  pattern : c.pattern = s.bytes
  position : c.position = s.position before
  readOffset : c.readOffset = s.reached before

/-- The cursor has failed behind a part of the text. -/
structure Halted (s : SourceText) (done : List Char) (e : Failure) (c : Cursor) : Prop extends Placed s done c where
  failure : c.failure = some e

/-- The cursor has read on where the text ends. -/
structure Spent (s : SourceText) (c : Cursor) : Prop extends Placed s s.text c where
  offset : c.offset = s.bytes.length
  current : c.current = .eof
  ended : s.obstacle = none → Ended s c
  failure : ∀ e, s.obstacle = some e → c.failure = some e

section
variable {s : SourceText} {before after : List Char} {x : Char} {c : Cursor} {e : Failure}

theorem failure_fail (h : c.failure = some e) (f : Failure) : (c.fail f).failure = some e := by
  simp [fail, h]

theorem failure_fail_of_none (h : c.failure = none) (e : Failure) : (c.fail e).failure = some e := by
  simp [fail, h]

theorem failure_advance (h : c.failure = some e) : c.advance.failure = some e := by
  simp [advance, next, h, finish]

theorem failure_look (h : c.failure = some e) : c.look.failure = some e := by
  unfold look
  split
  · exact h
  · simp [next, h]

theorem kept_failure (e : Failure) : Kept (fun c => c.failure = some e) :=
  ⟨failure_advance, failure_look, failure_fail⟩

theorem more_of_failure (h : c.failure = some e) : c.more = false := by simp [more, h]

/-- Failing moves nothing. -/
theorem fail_same (c : Cursor) (e : Failure) : (c.fail e).pattern = c.pattern ∧ (c.fail e).position = c.position ∧
    (c.fail e).offset = c.offset ∧ (c.fail e).readOffset = c.readOffset := by
  unfold fail
  split <;> exact ⟨rfl, rfl, rfl, rfl⟩

/-- Looking ahead moves nothing. -/
theorem look_same (c : Cursor) : c.look.pattern = c.pattern ∧ c.look.position = c.position ∧
    c.look.offset = c.offset ∧ c.look.readOffset = c.readOffset := by
  unfold look fail
  split
  · exact ⟨rfl, rfl, rfl, rfl⟩
  · split
    · dsimp only; split <;> exact ⟨rfl, rfl, rfl, rfl⟩
    · exact ⟨rfl, rfl, rfl, rfl⟩

/-- Looking ahead always finds a code point. -/
theorem lookahead_look (c : Cursor) : c.look.lookahead = some c.look.ahead := by
  have hp : ∃ p, c.look.lookahead = some p := by
    unfold look
    split
    · rename_i p hp; exact ⟨p, hp⟩
    · split <;> exact ⟨_, rfl⟩
  obtain ⟨p, hp⟩ := hp
  rw [ahead, hp]
  rfl

theorem look_look (c : Cursor) : c.look.look = c.look := by rw [look, c.lookahead_look]

theorem behind_start (s : SourceText) : Behind s [] s.text (start s.bytes) where
  text := rfl
  pattern := rfl
  position := rfl
  readOffset := rfl
  current := rfl
  lookahead := by simp [start]
  failure := rfl

theorem On.currentChar (h : On s before x after c) : c.current = .char x := by
  simp [h.current]

theorem On.onLast (h : On s before x after c) : OnLast s (before ++ [x]) after c := ⟨before, x, rfl, h⟩

theorem OnLast.behind {done : List Char} (h : OnLast s done after c) : Behind s done after c := by
  obtain ⟨before, x, rfl, h⟩ := h
  exact h.toBehind

theorem On.sourceText (h : On s before x after c) : s.text = before ++ x :: after := by
  simp [h.text]

theorem Behind.more (h : Behind s before after c) : c.more = true := by
  have hc : c.current ≠ .eof := by rw [h.current]; cases before.getLast? <;> simp
  simp [Cursor.more, h.failure, hc]

theorem Behind.next_char (h : Behind s before (x :: after) c) :
    ∃ width, c.next = .char x width ∧ c.readOffset + width = s.place before + x.utf8Size := by
  obtain ⟨width, hd, hw⟩ := s.ofPattern_char h.text
  exact ⟨width, by simp [next, h.failure, h.pattern, h.readOffset, hd], by rw [h.readOffset, hw]⟩

theorem Behind.next_end (h : Behind s before [] c) : c.next = s.ending := by
  have ht : s.text = before := by simpa using h.text
  simp [next, h.failure, h.pattern, h.readOffset, ← ht, s.ofPattern_end]

theorem Behind.isReset (h : Behind s before after c) : c.current = .reset ↔ before = [] := by
  rw [h.current]
  cases hb : before.getLast? with
  | none => simpa using hb
  | some y =>
    have hn : before ≠ [] := by rintro rfl; simp at hb
    simp [hn]

/-- Reading one more character moves the position as counting does. -/
theorem Behind.position_moveTo (h : Behind s before after c) {width : Nat}
    (hw : c.readOffset + width = s.place before + x.utf8Size) :
    (c.moveTo x width).position = s.position (before ++ [x]) := by
  have hr : s.reached before + width = s.place (before ++ [x]) := by
    rw [← h.readOffset, hw, SourceText.place_append]; simp
  have hl : 1 + before.count '\n' + (if x = '\n' then 1 else 0) = 1 + (before ++ [x]).count '\n' := by
    rw [List.count_append, List.count_singleton, Nat.add_assoc]
    simp
  have hc : max 1 before.length + (if c.current = .reset then 0 else 1) = max 1 (before ++ [x]).length := by
    by_cases hb : before = []
    · simp [h.isReset, hb]
    · have := List.length_pos_iff.2 hb
      simp [h.isReset, hb]; omega
  simp only [moveTo, h.position, SourceText.position, Position.advance, hl, hc, hr,
    SourceText.reached_concat]

theorem Behind.advance (h : Behind s before (x :: after) c) : On s before x after c.advance := by
  obtain ⟨width, hn, hw⟩ := h.next_char
  have ha : c.advance = c.moveTo x width := by simp [Cursor.advance, hn]
  rw [ha]
  exact {
    text := by simp [h.text]
    pattern := h.pattern
    position := h.position_moveTo hw
    readOffset := by
      rw [SourceText.reached_concat, SourceText.place_append]
      simpa [moveTo] using hw
    current := by simp [moveTo]
    lookahead := by simp [moveTo]
    failure := h.failure
    offset := by simp only [moveTo]; omega }

theorem Behind.placed (h : Behind s before after c) : Placed s before c :=
  ⟨⟨after, h.text.symm⟩, h.pattern, h.position, h.readOffset⟩

theorem Placed.fail (h : Placed s before c) (e : Failure) : Placed s before (c.fail e) := by
  obtain ⟨hp, hpos, -, hr⟩ := c.fail_same e
  exact ⟨h.text, hp.trans h.pattern, hpos.trans h.position, hr.trans h.readOffset⟩

theorem Placed.finish (h : Placed s before c) : Placed s before c.finish :=
  ⟨h.text, h.pattern, h.position, h.readOffset⟩

theorem Placed.look (h : Placed s before c) : Placed s before c.look := by
  obtain ⟨hp, hpos, -, hr⟩ := c.look_same
  exact ⟨h.text, hp.trans h.pattern, hpos.trans h.position, hr.trans h.readOffset⟩

theorem advance_of_stop (h : c.next = .stop) : c.advance = c.finish := by simp [Cursor.advance, h]

theorem next_of_failure (h : c.failure = some e) : c.next = .stop := by simp [next, h]

/-- A cursor that has failed stays where it is. -/
theorem kept_halted (s : SourceText) (done : List Char) (e : Failure) : Kept (Halted s done e) where
  advance h := advance_of_stop (next_of_failure h.failure) ▸ ⟨h.finish, h.failure⟩
  look h := ⟨h.toPlaced.look, failure_look h.failure⟩
  fail h f := ⟨h.toPlaced.fail f, failure_fail h.failure f⟩

theorem Behind.advance_spent (h : Behind s before [] c) : Spent s c.advance := by
  have ht : before = s.text := by simpa using h.text.symm
  have hp : Placed s s.text c := ht ▸ h.placed
  cases he : s.obstacle with
  | none =>
    have ha : c.advance = c.finish := advance_of_stop (by simp [h.next_end, SourceText.ending, he])
    have hl : c.finish.offset = s.bytes.length := congrArg List.length h.pattern
    rw [ha]
    refine ⟨hp.finish, hl, rfl, fun _ => ?_, fun e hn => (by cases he.symm.trans hn)⟩
    exact ⟨he, hp.pattern, hp.position, hl, hp.readOffset, rfl, rfl, h.failure⟩
  | some e =>
    have ha : c.advance = (c.fail e).finish := by simp [Cursor.advance, h.next_end, SourceText.ending, he]
    rw [ha]
    refine ⟨(hp.fail e).finish, congrArg List.length (hp.fail e).pattern, rfl,
      fun hn => (by cases he.symm.trans hn), ?_⟩
    intro f hf
    obtain rfl : e = f := Option.some.inj (he.symm.trans hf)
    exact failure_fail_of_none h.failure e

/-- One step from a character leads to the next one, or reads on where the text ends. -/
theorem On.advance_cases (h : On s before x after c) :
    (∃ y ys, after = y :: ys ∧ On s (before ++ [x]) y ys c.advance) ∨ (after = [] ∧ Spent s c.advance) := by
  cases after with
  | nil => exact .inr ⟨rfl, h.advance_spent⟩
  | cons y ys => exact .inl ⟨y, ys, rfl, h.advance⟩

theorem On.advance_cons (h : On s before x after c) (hn : after ≠ []) :
    ∃ y ys, after = y :: ys ∧ On s (before ++ [x]) y ys c.advance := by
  rcases h.advance_cases with ha | ⟨ha, -⟩
  · exact ha
  · exact absurd ha hn

theorem Behind.look (h : Behind s before after c) (ha : after = [] → s.obstacle = none) :
    Behind s before after c.look := by
  cases hl : c.lookahead with
  | some p =>
    have hc : c.look = c := by simp [Cursor.look, hl]
    rw [hc]
    exact h
  | none =>
    have hc : c.look = { c with lookahead := some (.ofHead after) } := by
      cases after with
      | nil => simp [Cursor.look, hl, h.next_end, SourceText.ending, ha, Decoded.codePoint, CodePoint.ofHead]
      | cons y ys =>
        obtain ⟨width, hn, -⟩ := h.next_char
        simp [Cursor.look, hl, hn, Decoded.codePoint, CodePoint.ofHead]
    rw [hc]
    refine { h with lookahead := ?_ }
    intro p hp
    cases hp
    exact ⟨rfl, ha⟩

theorem On.look (h : On s before x after c) (ha : after = [] → s.obstacle = none) :
    On s before x after c.look :=
  { h.toBehind.look ha with offset := by rw [c.look_same.2.2.1, h.offset] }

theorem Behind.failure_look (h : Behind s before [] c) (he : s.obstacle = some e) :
    c.look.failure = some e := by
  cases hl : c.lookahead with
  | some p => have := (h.lookahead p hl).2 rfl; rw [he] at this; cases this
  | none => simp [Cursor.look, hl, h.next_end, SourceText.ending, he, failure_fail_of_none h.failure]

/-- Looking ahead fails only with what stands right behind the text. -/
theorem Behind.look_cases (h : Behind s before after c) : Behind s before after c.look ∨
    after = [] ∧ ∃ e, s.obstacle = some e ∧ c.look.failure = some e := by
  by_cases hr : after = [] ∧ s.obstacle ≠ none
  · obtain ⟨rfl, he⟩ := hr
    obtain ⟨e, he⟩ := Option.ne_none_iff_exists'.1 he
    exact .inr ⟨rfl, e, he, h.failure_look he⟩
  · exact .inl (h.look fun hn => Decidable.byContradiction fun he => hr ⟨hn, he⟩)

theorem On.look_cases (h : On s before x after c) : On s before x after c.look ∨
    after = [] ∧ ∃ e, s.obstacle = some e ∧ c.look.failure = some e :=
  h.toBehind.look_cases.imp_left fun hl => { hl with offset := by rw [c.look_same.2.2.1, h.offset] }

/-- What stands ahead is the head of the text, also where looking fails. -/
theorem Behind.ahead_look (h : Behind s before after c) : c.look.ahead = .ofHead after := by
  cases hl : c.lookahead with
  | some p => simp [Cursor.look, hl, ahead, (h.lookahead p hl).1]
  | none =>
    cases after with
    | nil =>
      cases he : s.obstacle <;>
        simp [Cursor.look, hl, h.next_end, SourceText.ending, he, ahead, Decoded.codePoint, CodePoint.ofHead]
    | cons y ys =>
      obtain ⟨width, hn, -⟩ := h.next_char
      simp [Cursor.look, hl, hn, ahead, Decoded.codePoint, CodePoint.ofHead]

theorem Behind.advance_look_spent (h : Behind s before [] c) : Spent s c.look.advance := by
  cases he : s.obstacle with
  | none => exact (h.look fun _ => he).advance_spent
  | some e =>
    have hf : c.look.failure = some e := h.failure_look he
    have ht : before = s.text := by simpa using h.text.symm
    have hp : Placed s s.text c.look := (ht ▸ h.placed : Placed s s.text c).look
    rw [advance_of_stop (next_of_failure hf)]
    refine ⟨hp.finish, congrArg List.length hp.pattern, rfl, fun hn => (by cases he.symm.trans hn), ?_⟩
    intro f hf'
    obtain rfl : e = f := Option.some.inj (he.symm.trans hf')
    exact hf

theorem On.expect {set : List Char} (h : On s before x after c) (hx : x ∈ set) : c.expect set = c := by
  simp [Cursor.expect, h.currentChar, CodePoint.isAny, CodePoint.char?, hx]

theorem On.take {set : List Char} (h : On s before x after c) (hx : x ∈ set) : c.take set = c.advance := by
  simp [Cursor.take, h.currentChar, CodePoint.isAny, CodePoint.char?, hx]

theorem On.expect_other {set : List Char} (h : On s before x after c) (hx : x ∉ set) :
    Halted s (before ++ [x]) (.unexpected (CodePoint.char x).classify (CodePoint.classifyAll set) (s.place before))
      (c.expect set) := by
  have he : c.expect set =
      c.fail (.unexpected (CodePoint.char x).classify (CodePoint.classifyAll set) (s.place before)) := by
    simp [Cursor.expect, h.currentChar, CodePoint.isAny, CodePoint.char?, hx, unexpected, h.offset]
  exact he ▸ ⟨h.placed.fail _, failure_fail_of_none h.failure _⟩

/-- The text from one character up to where the cursor has read. -/
theorem Behind.slice {mid : List Char} (h : Behind s (before ++ mid) after c) (hm : mid ≠ []) :
    c.slice (s.place before) c.readOffset = String.ofList mid := by
  have hr : c.readOffset = s.place (before ++ mid) := by
    rw [h.readOffset, s.reached_of_ne_nil (by simp [hm])]
  have hle : s.place (before ++ mid) ≤ s.bytes.length := s.place_le_length h.text
  have ht := s.text_between (h.text.trans (List.append_assoc ..))
  simp only [Cursor.slice, hr, h.pattern, hle, if_true, ht]

/-- What has been reported says nothing of the text. -/
theorem Behind.report (h : Behind s before after c) (reports : List Failure) :
    Behind s before after { c with reports := reports } :=
  ⟨h.text, h.pattern, h.position, h.readOffset, h.current, h.lookahead, h.failure⟩

theorem Ended.report (h : Ended s c) (reports : List Failure) : Ended s { c with reports := reports } :=
  ⟨h.obstacle, h.pattern, h.position, h.offset, h.readOffset, h.current, h.lookahead, h.failure⟩

theorem Ended.more (h : Ended s c) : c.more = false := by simp [Cursor.more, h.current]

theorem Spent.more (h : Spent s c) : c.more = false := by
  cases he : s.obstacle with
  | none => exact (h.ended he).more
  | some e => exact more_of_failure (h.failure e he)

theorem Spent.unterminated (h : Spent s c) (opener : Char) : Halted s s.text
    (s.obstacle.getD (.unterminated (CodePoint.char opener).classify .endOfInput s.bytes.length))
    (c.unterminated opener c.current) := by
  refine ⟨h.fail _, ?_⟩
  cases he : s.obstacle with
  | none =>
    have hc := h.ended he
    simp [Cursor.unterminated, hc.current, hc.offset, CodePoint.classify, failure_fail_of_none hc.failure]
  | some e => exact failure_fail (h.failure e he) _

theorem Spent.unbalanced (h : Spent s c) (opener closer : Char) (depth : Int) : Halted s s.text
    (s.obstacle.getD (.unbalanced (CodePoint.char opener).classify (CodePoint.char closer).classify .endOfInput depth
      s.bytes.length)) (c.unbalanced opener closer c.current depth) := by
  refine ⟨h.fail _, ?_⟩
  cases he : s.obstacle with
  | none =>
    have hc := h.ended he
    simp [Cursor.unbalanced, hc.current, hc.offset, CodePoint.classify, failure_fail_of_none hc.failure]
  | some e => exact failure_fail (h.failure e he) _

theorem Ended.next (h : Ended s c) : c.next = .stop := by
  simp [Cursor.next, h.failure, h.pattern, h.readOffset, s.ofPattern_end, SourceText.ending, h.obstacle]

theorem Ended.advance (h : Ended s c) : Ended s c.advance := by
  rw [advance_of_stop h.next]
  exact { h with
    offset := by simp [finish, h.pattern]
    current := rfl
    lookahead := rfl }

/-- Nothing is found where the text ends. -/
theorem Spent.expect (h : Spent s c) (set : List Char) : Halted s s.text
    (s.obstacle.getD (.unexpected .endOfInput (CodePoint.classifyAll set) s.bytes.length)) (c.expect set) := by
  cases he : s.obstacle with
  | none =>
    have hc : c.expect set = c.fail (.unexpected .endOfInput (CodePoint.classifyAll set) s.bytes.length) := by
      simp [Cursor.expect, h.current, CodePoint.isAny, CodePoint.char?, unexpected, CodePoint.classify, h.offset]
    exact hc ▸ ⟨h.fail _, failure_fail_of_none (h.ended he).failure _⟩
  | some e => exact (kept_halted s s.text e).expect ⟨h.toPlaced, h.failure e he⟩ set

end
end Cursor
end RoutePattern
