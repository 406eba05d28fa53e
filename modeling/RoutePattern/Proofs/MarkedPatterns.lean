import RoutePattern.Proofs.DrainedScanners

/-!
# A byte order marker in front of a pattern

A marker in front is read together with the code point behind it. Over a pattern and over the same pattern
behind a marker cursors go in lockstep, and all places lie three bytes further on except the start, which is
where the marker stands. A scan tells the two patterns apart by nothing else.
-/
namespace RoutePattern
open Utf8 (encode first?)

/-- Where an offset of a pattern lies if there is a marker in front. -/
def markedOffset (offset : Nat) : Nat := if offset = 0 then 0 else offset + 3

def Position.marked (p : Position) : Position := { p with offset := markedOffset p.offset }

def Token.marked (t : Token) : Token := { t with start := t.start.marked, stop := t.stop.marked }

/-- No failure is reported in front of the marker. -/
def Failure.marked (e : Failure) : Failure := e.withOffset (e.offset + 3)

def Decoded.marked : Decoded → Decoded
  | illegal e => illegal e.marked
  | d => d

/-- How many bytes of the marker are read with the code point at an offset. -/
def markerAt (offset : Nat) : Nat := if offset = 0 then 3 else 0

theorem markedOffset_of_ne {n : Nat} (h : n ≠ 0) : markedOffset n = n + 3 := if_neg h

theorem markedOffset_add (n : Nat) {width : Nat} (h : 0 < width) :
    markedOffset (n + width) = markedOffset n + (width + markerAt n) := by
  rw [markedOffset_of_ne (by omega)]
  unfold markedOffset markerAt
  split <;> omega

theorem markedOffset_add_of_ne {n : Nat} (h : n ≠ 0) (m : Nat) : markedOffset (n + m) = markedOffset n + m := by
  rw [markedOffset_of_ne h, markedOffset_of_ne (by omega)]
  omega

/-- A position behind the start moves on as it does without a marker. -/
theorem Position.marked_advance {p : Position} (h : p.offset ≠ 0) (lines columns bytes : Nat) :
    (p.advance lines columns bytes).marked = p.marked.advance lines columns bytes := by
  simp only [Position.marked, Position.advance, markedOffset_add_of_ne h]

section
variable (pattern : List UInt8)

theorem drop_marked (n : Nat) : (encode [CodePoint.byteOrderMark] ++ pattern).drop (n + 3) = pattern.drop n := by
  have hl : (encode [CodePoint.byteOrderMark]).length = 3 := by decide
  rw [Nat.add_comm, ← hl, List.drop_length_add_append]

theorem length_marked : (encode [CodePoint.byteOrderMark] ++ pattern).length = pattern.length + 3 := by
  rw [List.length_append, Nat.add_comm]
  rfl

theorem strict_marked (n : Nat) :
    Decoded.strict (encode [CodePoint.byteOrderMark] ++ pattern) (n + 3) = (Decoded.strict pattern n).marked := by
  unfold Decoded.strict
  rw [drop_marked]
  split
  · rfl
  · split
    · rfl
    · unfold Decoded.ofChar
      split
      · rfl
      · split <;> rfl

/-- The first code point is wider by the marker. -/
theorem ofPattern_marked (n : Nat) :
    Decoded.ofPattern (encode [CodePoint.byteOrderMark] ++ pattern) (markedOffset n) =
      (Decoded.strict pattern n).marked.widen (markerAt n) := by
  by_cases hn : n = 0
  · subst hn
    have hf : first? (encode [CodePoint.byteOrderMark] ++ pattern) = some CodePoint.byteOrderMark :=
      Utf8.first?_encode_cons CodePoint.byteOrderMark [] pattern
    rw [← strict_marked, Decoded.ofPattern, if_pos ⟨rfl, hf⟩]
    rfl
  · have hw (d : Decoded) : d.widen 0 = d := by cases d <;> rfl
    rw [markedOffset_of_ne hn, Decoded.ofPattern, if_neg fun h => Nat.succ_ne_zero _ h.1, markerAt, if_neg hn, hw,
      strict_marked]

theorem slice_marked {c d : Cursor} (hc : c.pattern = pattern)
    (hd : d.pattern = encode [CodePoint.byteOrderMark] ++ pattern) (m n : Nat) :
    d.slice (m + 3) (n + 3) = c.slice m n := by
  have hbound : n + 3 ≤ pattern.length + 3 ↔ n ≤ pattern.length := Nat.add_le_add_iff_right
  have hcount : n + 3 - (m + 3) = n - m := by omega
  simp only [Cursor.slice, hc, hd, length_marked, hbound, drop_marked, hcount]

end

/-- Cursors that have read equally far over a pattern and over the same pattern behind a marker. -/
structure MarkedAlike (pattern : List UInt8) (c d : Cursor) : Prop where
  one : c.pattern = pattern
  two : d.pattern = encode [CodePoint.byteOrderMark] ++ pattern
  counted : c.position.offset = c.readOffset
  position : d.position = c.position.marked
  readOffset : d.readOffset = markedOffset c.readOffset
  current : d.current = c.current
  failure : d.failure = c.failure.map Failure.marked

/-- Such cursors that stand on the same code point. -/
structure MarkedTwins (pattern : List UInt8) (c d : Cursor) : Prop extends MarkedAlike pattern c d where
  offset : d.offset = c.offset + 3
  lookahead : d.lookahead = c.lookahead

theorem markedAlike_start (pattern : List UInt8) :
    MarkedAlike pattern (.start pattern) (.start (encode [CodePoint.byteOrderMark] ++ pattern)) :=
  ⟨rfl, rfl, rfl, rfl, rfl, rfl, rfl⟩

section
variable {pattern : List UInt8} {c d : Cursor}

/-- Without a marker nothing is read but the code point itself. -/
theorem next_unmarked (hp : first? pattern ≠ some CodePoint.byteOrderMark) (hc : c.pattern = pattern) :
    c.next = if c.failure.isSome then .stop else .strict pattern c.readOffset := by
  simp [Cursor.next, Decoded.ofPattern, hc, hp]

theorem MarkedAlike.next (hp : first? pattern ≠ some CodePoint.byteOrderMark) (h : MarkedAlike pattern c d) :
    d.next = c.next.marked.widen (markerAt c.readOffset) := by
  have hf : d.failure.isSome = c.failure.isSome := by rw [h.failure, Option.isSome_map]
  rw [next_unmarked hp h.one, Cursor.next, hf, h.two, h.readOffset, ofPattern_marked]
  split <;> rfl

theorem utf8Size_le_of_next (hp : first? pattern ≠ some CodePoint.byteOrderMark) (hc : c.pattern = pattern) {x : Char}
    {width : Nat} (h : c.next = .char x width) : x.utf8Size ≤ width := by
  rw [next_unmarked hp hc] at h
  split at h
  · cases h
  · exact Nat.le_of_eq (Decoded.strict_char h).1.symm

theorem MarkedAlike.finish (h : MarkedAlike pattern c d) : MarkedTwins pattern c.finish d.finish where
  one := h.one
  two := h.two
  counted := h.counted
  position := h.position
  readOffset := h.readOffset
  current := rfl
  failure := h.failure
  offset := by
    show d.pattern.length = c.pattern.length + 3
    rw [h.one, h.two, length_marked]
  lookahead := rfl

theorem MarkedAlike.fail (h : MarkedAlike pattern c d) (e : Failure) :
    MarkedAlike pattern (c.fail e) (d.fail e.marked) := by
  cases hc : c.failure with
  | some f =>
    have hone : c.fail e = c := by simp [Cursor.fail, hc]
    have htwo : d.fail e.marked = d := by simp [Cursor.fail, h.failure, hc]
    rw [hone, htwo]
    exact h
  | none =>
    have hone : c.fail e = _ := if_neg (by simp [hc])
    have htwo : d.fail e.marked = _ := if_neg (by simp [h.failure, hc])
    rw [hone, htwo]
    exact ⟨h.one, h.two, h.counted, h.position, h.readOffset, rfl, rfl⟩

theorem MarkedAlike.moveTo (h : MarkedAlike pattern c d) {x : Char} {width : Nat} (hw : x.utf8Size ≤ width) :
    MarkedTwins pattern (c.moveTo x width) (d.moveTo x (width + markerAt c.readOffset)) := by
  have hread := markedOffset_add c.readOffset (Nat.lt_of_lt_of_le x.utf8Size_pos hw)
  refine ⟨⟨h.one, h.two, congrArg (· + width) h.counted, ?_, ?_, rfl, h.failure⟩, ?_, rfl⟩
  · simp only [Cursor.moveTo, h.position, h.current, Position.marked, Position.advance, hread, h.counted]
  · simp only [Cursor.moveTo, h.readOffset, hread]
  · simp only [Cursor.moveTo, h.readOffset, markedOffset, markerAt]
    split <;> omega

theorem MarkedAlike.advance (hp : first? pattern ≠ some CodePoint.byteOrderMark) (h : MarkedAlike pattern c d) :
    MarkedTwins pattern c.advance d.advance := by
  have hnext := h.next hp
  unfold Cursor.advance
  rw [hnext]
  cases hc : c.next with
  | stop => exact h.finish
  | char x width => exact h.moveTo (utf8Size_le_of_next hp h.one hc)
  | illegal e => exact (h.fail e).finish

theorem MarkedTwins.fail (h : MarkedTwins pattern c d) (e : Failure) :
    MarkedTwins pattern (c.fail e) (d.fail e.marked) := by
  refine ⟨h.toMarkedAlike.fail e, ?_, ?_⟩
  · rw [(c.fail_same e).2.2.1, (d.fail_same e.marked).2.2.1, h.offset]
  · have hf : d.failure.isSome = c.failure.isSome := by rw [h.failure, Option.isSome_map]
    unfold Cursor.fail
    rw [hf]
    split
    · exact h.lookahead
    · rfl

theorem MarkedTwins.withLookahead (h : MarkedTwins pattern c d) (p : CodePoint) :
    MarkedTwins pattern { c with lookahead := some p } { d with lookahead := some p } :=
  ⟨⟨h.one, h.two, h.counted, h.position, h.readOffset, h.current, h.failure⟩, h.offset, rfl⟩

theorem MarkedTwins.look (hp : first? pattern ≠ some CodePoint.byteOrderMark) (h : MarkedTwins pattern c d) :
    MarkedTwins pattern c.look d.look := by
  have hnext := h.toMarkedAlike.next hp
  unfold Cursor.look
  rw [hnext, h.lookahead]
  cases c.lookahead with
  | some p => exact h
  | none =>
    cases c.next with
    | stop => exact h.withLookahead _
    | char x width => exact h.withLookahead _
    | illegal e => exact (h.fail e).withLookahead .eof

theorem MarkedTwins.slice (h : MarkedTwins pattern c d) (m : Nat) :
    d.slice (m + 3) d.readOffset = c.slice m c.readOffset := by
  rw [h.readOffset]
  by_cases hn : c.readOffset = 0
  · rw [hn]
    simp [Cursor.slice, markedOffset]
  · rw [markedOffset_of_ne hn, slice_marked pattern h.one h.two]

/-- With and without the marker all readers go alike. -/
def markedSimulation (hp : first? pattern ≠ some CodePoint.byteOrderMark) : Simulation where
  cursors := MarkedTwins pattern
  positions p q := q = p.marked
  offsets m n := n = m + 3
  current h := h.current.symm
  lookahead h := h.lookahead.symm
  failed h := by rw [h.failure, Option.isSome_map]
  position h := h.position
  offset h := h.offset
  read h hm := by rw [hm, h.slice]
  since h hm := by
    simp only [Cursor.since]
    rw [hm, h.offset, slice_marked pattern h.one h.two]
  advance h := h.toMarkedAlike.advance hp
  look h := h.look hp
  fail {c d} h e := by
    have hf : (e.withOffset c.offset).marked = e.withOffset d.offset := by simp [Failure.marked, h.offset]
    exact hf ▸ h.fail (e.withOffset c.offset)

end

namespace Scanner

section
variable {pattern : List UInt8} {a b : Scanner} {f g : Finding}

theorem accept_marked (hp : first? pattern ≠ some CodePoint.byteOrderMark) (h : (markedSimulation hp).Alike f g) :
    (accept g).token = (accept f).token.marked ∧ (accept g).scanner.mode = (accept f).scanner.mode ∧
      MarkedAlike pattern (accept f).scanner.cursor (accept g).scanner.cursor := by
  have htwins : MarkedTwins pattern f.cursor g.cursor := h.cursor
  have htoken : (accept g).token = (accept f).token.marked := by
    have hstart : g.start = f.start.marked := h.start
    simp only [accept, Token.marked, h.lexeme, h.literal, hstart, htwins.position]
  have hvalid : (accept g).token.isValid = (accept f).token.isValid := by
    rw [htoken]
    rfl
  have hcursor (found : Finding) : (accept found).scanner.cursor =
      { (if (accept found).token.isValid then found.cursor
          else found.cursor.unexpected found.cursor.current recovery) with reports := [] } := rfl
  refine ⟨htoken, congrArg Mode.after h.lexeme.symm, ?_⟩
  have hlast : MarkedTwins pattern
      (if (accept f).token.isValid then f.cursor else f.cursor.unexpected f.cursor.current recovery)
      (if (accept g).token.isValid then g.cursor else g.cursor.unexpected g.cursor.current recovery) := by
    rw [hvalid]
    split
    · exact htwins
    · rw [htwins.current]
      exact (markedSimulation hp).unexpected htwins _ _
  rw [hcursor, hcursor]
  exact ⟨hlast.one, hlast.two, hlast.counted, hlast.position, hlast.readOffset, hlast.current, hlast.failure⟩

/-- In a pattern some of the text has been read. -/
theorem Reached.offset_ne_zero (h : a.Reached pattern) (hm : a.more = true) (hmode : a.mode = .pattern) :
    a.cursor.position.offset ≠ 0 := by
  obtain ⟨s, rfl⟩ := SourceText.exists_bytes pattern
  cases h.standing with
  | @ready before after hr hreset =>
    have hb : before ≠ [] := by
      intro hn
      cases hmode.symm.trans (hreset hn)
    have hplace : s.place before ≠ 0 := by simp [SourceText.place, hb]
    rw [hr.behind.position]
    exact fun hn => hplace ((s.reached_of_ne_nil hb).symm.trans hn)
  | ended h => cases h.more.symm.trans hm
  | failed hf => cases (Cursor.more_of_failure hf).symm.trans hm

theorem step_marked (hp : first? pattern ≠ some CodePoint.byteOrderMark) (hr : a.Reached pattern)
    (hm : a.more = true) (h : MarkedAlike pattern a.cursor b.cursor) (hmode : b.mode = a.mode) :
    b.step.token = a.step.token.marked ∧ b.step.scanner.mode = a.step.scanner.mode ∧
      MarkedAlike pattern a.step.scanner.cursor b.step.scanner.cursor := by
  have ha : a.failure = none := failure_of_more hm
  have hb : b.failure = none := h.failure.trans (congrArg (Option.map Failure.marked) ha)
  rw [step_of_unfailed ha, step_of_unfailed hb, hmode]
  refine accept_marked hp ((markedSimulation hp).token (h.advance hp) a.mode h.position fun hpat n => ?_)
  rw [h.position]
  exact (Position.marked_advance (hr.offset_ne_zero hm hpat) 0 n n).symm

theorem drain_marked (hp : first? pattern ≠ some CodePoint.byteOrderMark) (hr : a.Reached pattern)
    (h : MarkedAlike pattern a.cursor b.cursor) (hmode : b.mode = a.mode) :
    b.drain.map Step.token = (a.drain.map Step.token).map Token.marked ∧
      (b.afterAll b.drain).failure = (a.afterAll a.drain).failure.map Failure.marked := by
  have hmore {a b : Scanner} (h : MarkedAlike pattern a.cursor b.cursor) : b.more = a.more := by
    simp only [more, Cursor.more, ← Option.not_isSome, h.failure, Option.isSome_map, h.current]
  fun_induction Scanner.drain a generalizing b with
  | case1 a ha ih =>
    obtain ⟨htoken, hnext, hcursor⟩ := step_marked hp hr ha h hmode
    obtain ⟨htokens, hfailure⟩ := ih (.step hr) hcursor hnext
    rw [drain_of_more ((hmore h).trans ha), afterAll_cons, afterAll_cons, List.map_cons, htoken, htokens]
    exact ⟨rfl, hfailure⟩
  | case2 a ha =>
    rw [drain_of_not_more ((hmore h).trans (Bool.eq_false_iff.2 ha))]
    exact ⟨rfl, h.failure⟩

end
end Scanner

theorem scan_behind_marker {pattern : List UInt8} (hp : ¬ encode [CodePoint.byteOrderMark] <+: pattern) :
    (scan (encode [CodePoint.byteOrderMark] ++ pattern) = match scan pattern with
      | .ok ts => .ok (ts.map Token.marked)
      | .error e => .error e.marked) ∧
    scan [] = .ok [.endOfInput .start] ∧ scan (encode [CodePoint.byteOrderMark]) = .ok [.endOfInput .start] := by
  have hf : first? pattern ≠ some CodePoint.byteOrderMark := fun hf => hp (Utf8.first?_eq_some_iff.1 hf)
  obtain ⟨htokens, hfailure⟩ := Scanner.drain_marked (a := .start pattern)
    (b := .start (encode [CodePoint.byteOrderMark] ++ pattern)) hf .start (markedAlike_start pattern) rfl
  exact ⟨scan_of_drain htokens hfailure, scan_eq_ok (by decide +kernel), scan_eq_ok (by decide +kernel)⟩

theorem scan_behind_marker_method : scan (encode [CodePoint.byteOrderMark] ++ encode "GET /\na".toList) =
    .ok [⟨.method, "GET", ⟨1, 1, 0⟩, ⟨1, 4, 7⟩⟩, ⟨.slash, "/", ⟨1, 4, 7⟩, ⟨1, 5, 8⟩⟩,
      ⟨.segment, "a", ⟨2, 6, 9⟩, ⟨2, 7, 10⟩⟩, .endOfInput ⟨2, 7, 10⟩] := by
  have hscan : scan (encode "GET /\na".toList) = .ok [⟨.method, "GET", ⟨1, 1, 0⟩, ⟨1, 4, 4⟩⟩,
      ⟨.slash, "/", ⟨1, 4, 4⟩, ⟨1, 5, 5⟩⟩, ⟨.segment, "a", ⟨2, 6, 6⟩, ⟨2, 7, 7⟩⟩, .endOfInput ⟨2, 7, 7⟩] :=
    scan_eq_ok (by decide +kernel)
  rw [(@scan_behind_marker (encode "GET /\na".toList) (by decide)).1, hscan]
  rfl

end RoutePattern
