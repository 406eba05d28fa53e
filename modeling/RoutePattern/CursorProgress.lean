import RoutePattern.PatternCursor

/-!
# Cursors run out

No operation adds to what remains, and advancing takes something away while there is more. Every loop
over a cursor ends for this reason.
-/
namespace RoutePattern

theorem Decoded.strict_char {pattern : List UInt8} {offset : Nat} {c : Char} {width : Nat}
    (h : strict pattern offset = .char c width) :
    width = c.utf8Size ∧ offset + c.utf8Size ≤ pattern.length := by
  unfold strict ofChar at h
  split at h
  · simp at h
  · rename_i b bytes hd
    split at h
    · simp at h
    · rename_i d hf
      split at h <;> try split at h
      all_goals simp at h
      have hs := Utf8.utf8Size_le_of_first? hf
      rw [← hd, List.length_drop] at hs
      have hp := d.utf8Size_pos
      obtain ⟨rfl, rfl⟩ := h
      omega

theorem Decoded.ofPattern_char {pattern : List UInt8} {offset : Nat} {c : Char} {width : Nat}
    (h : ofPattern pattern offset = .char c width) : 0 < width ∧ offset + width ≤ pattern.length := by
  unfold ofPattern at h
  split at h
  · rename_i hb
    cases hs : strict pattern CodePoint.byteOrderMark.utf8Size with
    | stop => simp [hs, widen] at h
    | illegal e => simp [hs, widen] at h
    | char d w =>
      simp only [hs, widen, char.injEq] at h
      have := strict_char hs
      have := d.utf8Size_pos
      omega
  · have := strict_char h
    have := c.utf8Size_pos
    omega

namespace Cursor

theorem remaining_pos {c : Cursor} (h : c.more = true) : 0 < c.remaining := by
  simp only [more, Bool.and_eq_true, Option.isNone_iff_eq_none, decide_eq_true_eq] at h
  simp [remaining, h.1, h.2]

theorem remaining_finish_le (c : Cursor) : c.finish.remaining ≤ c.remaining := by
  unfold remaining finish
  dsimp only
  split
  · exact Nat.le_refl _
  · simp

theorem remaining_finish_lt {c : Cursor} (h : c.more = true) : c.finish.remaining < c.remaining := by
  simp only [more, Bool.and_eq_true, Option.isNone_iff_eq_none, decide_eq_true_eq] at h
  simp [remaining, finish, h.1, h.2]

theorem remaining_fail (c : Cursor) (e : Failure) : (c.fail e).remaining = 0 := by
  unfold fail
  split
  · rename_i hf; simp [remaining, hf]
  · simp [remaining]

theorem remaining_moveTo_lt {c : Cursor} {ch : Char} {width : Nat} (h : c.next = .char ch width) :
    (c.moveTo ch width).remaining < c.remaining := by
  unfold next at h
  split at h
  · simp at h
  · rename_i hf
    have := Decoded.ofPattern_char h
    simp only [remaining, moveTo, hf]
    simp
    omega

theorem remaining_advance_le (c : Cursor) : c.advance.remaining ≤ c.remaining := by
  unfold advance
  split
  · rename_i hn; exact Nat.le_of_lt (remaining_moveTo_lt hn)
  · exact c.remaining_finish_le
  · rename_i e _
    have := (c.fail e).remaining_finish_le
    rw [c.remaining_fail e] at this
    omega

theorem remaining_advance_lt {c : Cursor} (h : c.more = true) : c.advance.remaining < c.remaining := by
  unfold advance
  split
  · rename_i hn; exact remaining_moveTo_lt hn
  · exact remaining_finish_lt h
  · rename_i e _
    have := (c.fail e).remaining_finish_le
    rw [c.remaining_fail e] at this
    have := remaining_pos h
    omega

theorem remaining_look_le (c : Cursor) : c.look.remaining ≤ c.remaining := by
  unfold look
  split
  · exact Nat.le_refl _
  · split
    · rename_i e _
      have : (c.fail e).remaining = 0 := c.remaining_fail e
      show (c.fail e).remaining ≤ _
      omega
    · exact Nat.le_refl _

theorem remaining_take_le (c : Cursor) (set : List Char) : (c.take set).remaining ≤ c.remaining := by
  unfold take unexpected
  split
  · exact c.remaining_advance_le
  · rw [remaining_fail]; exact Nat.zero_le _

theorem remaining_take_lt {c : Cursor} (h : c.more = true) (set : List Char) :
    (c.take set).remaining < c.remaining := by
  unfold take unexpected
  split
  · exact remaining_advance_lt h
  · rw [remaining_fail]; exact remaining_pos h

/-- Looking ends what is left or leaves as much as before. -/
theorem look_more_or_remaining (c : Cursor) (h : c.more = true) : c.look.more = true ∨ c.look.remaining = 0 := by
  unfold look
  split
  · exact .inl h
  · split
    · rename_i e _; exact .inr (c.remaining_fail e)
    · exact .inl h

theorem remaining_look_advance_lt {c : Cursor} (h : c.more = true) :
    c.look.advance.remaining < c.remaining := by
  have hl := c.remaining_look_le
  rcases c.look_more_or_remaining h with hm | hz
  · exact Nat.lt_of_lt_of_le (remaining_advance_lt hm) hl
  · have := c.look.remaining_advance_le
    have := remaining_pos h
    omega

theorem remaining_look_take_lt {c : Cursor} (h : c.more = true) (set : List Char) :
    (c.look.take set).remaining < c.remaining := by
  have hl := c.remaining_look_le
  rcases c.look_more_or_remaining h with hm | hz
  · exact Nat.lt_of_lt_of_le (remaining_take_lt hm set) hl
  · have := c.look.remaining_take_le set
    have := remaining_pos h
    omega

theorem remaining_expect_le (c : Cursor) (set : List Char) : (c.expect set).remaining ≤ c.remaining := by
  unfold expect unexpected
  split
  · exact Nat.le_refl _
  · rw [remaining_fail]; exact Nat.zero_le _

end Cursor
end RoutePattern
