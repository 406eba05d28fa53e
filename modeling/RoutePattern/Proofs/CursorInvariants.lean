import RoutePattern.Proofs.TokenPositions
import RoutePattern.Proofs.UnreadText

/-!
# What holds of a cursor at all times

Whatever operations have moved it, a cursor has read legal text up to the end of a character, stands on the bytes of
its code point, and has seen ahead what decoding finds there. It is at the end of the pattern or has failed as soon
as it shows the end.
-/
namespace RoutePattern
open Utf8 (encode size)

namespace Cursor

/-- The invariant of cursors over a pattern. -/
structure Invariant (pattern : List UInt8) (c : Cursor) : Prop where
  same : c.pattern = pattern
  bound : c.readOffset ≤ pattern.length
  read : ∃ front text, pattern.take c.readOffset = encode (front ++ text) ∧
    (front = [] ∨ front = [CodePoint.byteOrderMark]) ∧ ∀ x ∈ text, CodePoint.IsLegal x
  current : ∀ x, c.current = .char x → c.offset < c.readOffset ∧
    pattern.extract c.offset c.readOffset = String.utf8EncodeChar x
  lookahead : ∀ p, c.lookahead = some p → c.next.codePoint = p ∧ ∀ e, c.next ≠ .illegal e
  look : c.look.look = c.look ∧ c.look.position = c.position ∧ c.look.offset = c.offset ∧
    c.look.readOffset = c.readOffset ∧ c.look.advance.current = c.look.ahead
  ended : c.current = .eof → c.failure = none → c.offset = pattern.length ∧
    (c.readOffset = pattern.length ∨ pattern = String.utf8EncodeChar CodePoint.byteOrderMark ∧ c.readOffset = 0)
  failed : ∀ e, c.failure = some e → c.current = .eof

section
variable {s : SourceText} {pattern : List UInt8} {before after : List Char} {x : Char} {c : Cursor} {p : CodePoint}
  {e : Failure}

theorem Tracked.report {front : List Char} (h : Tracked s front c) (reports : List Failure) :
    Tracked s front { c with reports := reports } := by
  obtain ⟨before, hf, hp, hc⟩ := h
  exact ⟨before, hf, ⟨hp.text, hp.pattern, hp.position, hp.readOffset⟩,
    hc.imp_left fun ⟨after, hb⟩ => ⟨after, hb.report reports⟩⟩

theorem Worked.tracked (h : Worked s.bytes c) : Tracked s [] c := by
  induction h with
  | start => exact (behind_start s).tracked
  | advance _ ih => exact ih.advance
  | look _ ih => exact ih.look
  | fail _ e ih => exact ih.fail e
  | report _ reports ih => exact ih.report reports

theorem Placed.readOffset_le (h : Placed s before c) : c.readOffset ≤ s.bytes.length := by
  obtain ⟨after, ht⟩ := h.text
  have hle : s.place before ≤ s.bytes.length := s.place_le_length ht.symm
  have hreached : s.reached before ≤ s.place (before ++ []) := s.reached_le_place
  rw [List.append_nil] at hreached
  rw [h.readOffset]
  exact Nat.le_trans hreached hle

theorem Placed.take_readOffset (h : Placed s before c) : ∃ front text,
    s.bytes.take c.readOffset = encode (front ++ text) ∧ (front = [] ∨ front = [CodePoint.byteOrderMark]) ∧
      ∀ x ∈ text, CodePoint.IsLegal x := by
  rw [h.readOffset, s.take_reached h.text]
  split
  · exact ⟨[], [], rfl, .inl rfl, List.forall_mem_nil _⟩
  · refine ⟨s.lead, before, rfl, ?_, fun x hx => s.legal x (h.text.subset hx)⟩
    unfold SourceText.lead
    split
    · exact .inr rfl
    · exact .inl rfl

/-- The current character has its bytes in front of what is unread. -/
theorem On.extract_current (h : On s before x after c) : c.offset < c.readOffset ∧
    s.bytes.extract c.offset c.readOffset = String.utf8EncodeChar x := by
  have hr : c.readOffset = c.offset + x.utf8Size := by
    rw [h.readOffset_eq, h.offset, SourceText.place_append]
    simp
  have hd : s.bytes.drop c.offset = String.utf8EncodeChar x ++ (encode after ++ s.rest) := by
    rw [h.offset, s.drop_place h.sourceText, Utf8.encode_cons, List.append_assoc]
  refine ⟨by rw [hr]; exact Nat.lt_add_of_pos_right x.utf8Size_pos, ?_⟩
  rw [List.extract_eq_take_drop, hd, hr, Nat.add_sub_cancel_left]
  exact List.take_left' (by simp)

/-- Advancing shows what decoding finds. -/
theorem current_advance (c : Cursor) : c.advance.current = c.next.codePoint := by
  unfold Cursor.advance
  split
  · rename_i hn
    rw [hn]
    rfl
  · rename_i hn
    rw [hn]
    rfl
  · rename_i hn
    rw [hn]
    rfl

theorem Behind.next_lookahead (h : Behind s before after c) (hp : c.lookahead = some p) :
    c.next.codePoint = p ∧ ∀ e, c.next ≠ .illegal e := by
  obtain ⟨rfl, ho⟩ := h.lookahead p hp
  cases after with
  | nil =>
    have hn : c.next = .stop := by rw [h.next_end, SourceText.ending, ho rfl]; rfl
    rw [hn]
    exact ⟨rfl, fun e => Decoded.noConfusion⟩
  | cons x after =>
    obtain ⟨width, hn, -⟩ := h.next_char
    rw [hn]
    exact ⟨rfl, fun e => Decoded.noConfusion⟩

theorem Worked.next_lookahead (h : Worked pattern c) (hp : c.lookahead = some p) :
    c.next.codePoint = p ∧ ∀ e, c.next ≠ .illegal e := by
  obtain ⟨s, rfl⟩ := SourceText.exists_bytes pattern
  cases h.stationed with
  | fresh hb => exact hb.next_lookahead hp
  | on ho => exact ho.toBehind.next_lookahead hp
  | ended he =>
    -- Only what can be read is seen ahead of a cursor, and so it is the end that is seen from there.
    have hpe : p = .eof := Decidable.byContradiction fun hne => by
      have hm := h.sound.more p hp hne
      simp [Cursor.more, he] at hm
    rw [h.sound.next he, hpe]
    exact ⟨rfl, fun e => Decoded.noConfusion⟩

/-- A look that does not fail shows the same code point. -/
theorem current_look (h : c.look.failure = none) : c.look.current = c.current ∧ c.failure = none := by
  have hf : c.failure = none := Option.eq_none_iff_forall_ne_some.2 fun e he => by
    cases (failure_look he).symm.trans h
  refine ⟨?_, hf⟩
  unfold Cursor.look at h ⊢
  split
  · rfl
  · rename_i hl
    rw [hl] at h
    split
    · rename_i e he
      rw [he] at h
      cases (failure_fail_of_none hf e).symm.trans h
    · rfl

theorem Ended.at_end (h : Ended s c) : s.rest = [] ∧ c.offset = s.bytes.length ∧ c.readOffset = s.reached s.text :=
  ⟨s.obstacle_eq_none.1 h.obstacle, h.offset, h.readOffset⟩

/-- An unfailed cursor that shows the end has read a pattern that is legal throughout. -/
theorem Worked.at_end (h : Worked s.bytes c) (he : c.current = .eof) (hf : c.failure = none) :
    s.rest = [] ∧ c.offset = s.bytes.length ∧ c.readOffset = s.reached s.text := by
  induction h with
  | start => cases he
  | @advance c hc ih =>
    have hbehind {before after : List Char} (hb : Behind s before after c) :
        s.rest = [] ∧ c.advance.offset = s.bytes.length ∧ c.advance.readOffset = s.reached s.text := by
      cases after with
      | nil =>
        cases ho : s.obstacle with
        | none => exact (hb.advance_spent.ended ho).at_end
        | some e => cases (hb.advance_spent.failure e ho).symm.trans hf
      | cons x after => cases hb.advance.currentChar.symm.trans he
    cases hc.stationed with
    | fresh hb => exact hbehind hb
    | on ho => exact hbehind ho.toBehind
    | ended hend =>
      rw [advance_of_stop (hc.sound.next hend)] at hf ⊢
      obtain ⟨hr, -, hread⟩ := ih hend hf
      exact ⟨hr, congrArg List.length hc.pattern_eq, hread⟩
  | @look c hc ih =>
    obtain ⟨hcurrent, hnone⟩ := current_look hf
    obtain ⟨-, -, ho, hr⟩ := c.look_same
    rw [ho, hr]
    exact ih (hcurrent.symm.trans he) hnone
  | @fail c hc e _ =>
    cases hn : c.failure with
    | none => cases (failure_fail_of_none hn e).symm.trans hf
    | some f => cases (failure_fail hn e).symm.trans hf
  | report _ _ ih => exact ih he hf

/-- All of a legal pattern has been read at the end, unless it is a marker alone. -/
theorem reached_text (hr : s.rest = []) : s.reached s.text = s.bytes.length ∨
    s.bytes = String.utf8EncodeChar CodePoint.byteOrderMark ∧ s.reached s.text = 0 := by
  have hlength : s.bytes.length = s.place s.text := by rw [s.length_bytes, hr]; rfl
  by_cases ht : s.text = []
  · cases hm : s.marked with
    | true =>
      refine .inr ⟨?_, by rw [ht]; rfl⟩
      simp [SourceText.bytes, SourceText.lead, hm, ht, hr]
    | false => exact .inl (by simp [SourceText.bytes, SourceText.lead, hm, ht, hr])
  · exact .inl (by rw [s.reached_of_ne_nil ht, hlength])

theorem Worked.invariant (h : Worked pattern c) : Invariant pattern c := by
  have hlook : c.look.advance.current = c.look.ahead := by
    rw [current_advance]
    exact (h.look.next_lookahead c.lookahead_look).1
  obtain ⟨-, hposition, hoffset, hread⟩ := c.look_same
  obtain ⟨s, rfl⟩ := SourceText.exists_bytes pattern
  obtain ⟨before, -, hp, -⟩ := h.tracked
  refine ⟨h.pattern_eq, hp.readOffset_le, hp.take_readOffset, fun x hx => ?_, fun p => h.next_lookahead,
    ⟨c.look_look, hposition, hoffset, hread, hlook⟩, fun he hf => ?_, fun e => h.current_of_failure⟩
  · cases h.stationed with
    | fresh hb => cases hb.current.symm.trans hx
    | ended he => cases he.symm.trans hx
    | on ho =>
      obtain rfl := CodePoint.char.inj (ho.currentChar.symm.trans hx)
      exact ho.extract_current
  · obtain ⟨hr, ho, hreached⟩ := h.at_end he hf
    rw [hreached]
    exact ⟨ho, reached_text hr⟩

end
end Cursor

namespace Scanner

/-- The scanners over a pattern that operations on the cursor and calls for tokens lead to, in any order. -/
inductive Operated (pattern : List UInt8) : Scanner → Prop where
  | start : Operated pattern (.start pattern)
  | advance {t} (h : Operated pattern t) : Operated pattern { t with cursor := t.cursor.advance }
  | look {t} (h : Operated pattern t) : Operated pattern { t with cursor := t.cursor.look }
  | take {t} (h : Operated pattern t) (set : List Char) : Operated pattern { t with cursor := t.cursor.take set }
  | expect {t} (h : Operated pattern t) (set : List Char) : Operated pattern { t with cursor := t.cursor.expect set }
  | run {t} (h : Operated pattern t) (classes : List (CodePoint → Bool)) (hc : ∀ member ∈ classes, member .eof = false) :
    Operated pattern { t with cursor := (t.cursor.run classes).2 }
  | quoted {t} (h : Operated pattern t) (opener closer : Char) (escapes : List Char) :
    Operated pattern { t with cursor := (t.cursor.quoted opener closer escapes).2 }
  | raw {t} (h : Operated pattern t) (opener closer : Char) :
    Operated pattern { t with cursor := (t.cursor.raw opener closer).2 }
  | balanced {t} (h : Operated pattern t) (opener closer : Char) :
    Operated pattern { t with cursor := (t.cursor.balanced opener closer).2 }
  | step {t} (h : Operated pattern t) : Operated pattern t.step.scanner

section
variable {pattern : List UInt8} {scanner : Scanner}

theorem Operated.worked (h : Operated pattern scanner) : Cursor.Worked pattern scanner.cursor := by
  have hkept := Cursor.kept_worked pattern
  induction h with
  | start => exact .start
  | advance _ ih => exact ih.advance
  | look _ ih => exact ih.look
  | take _ set ih => exact hkept.take ih set
  | expect _ set ih => exact hkept.expect ih set
  | run _ classes _ ih => exact hkept.run ih classes
  | quoted _ opener closer escapes ih => exact hkept.quoted ih opener closer escapes
  | raw _ opener closer ih => exact hkept.raw ih opener closer
  | balanced _ opener closer ih => exact hkept.balanced ih opener closer
  | step _ ih => exact worked_step ih

theorem cursor_invariant (h : Operated pattern scanner) : Cursor.Invariant pattern scanner.cursor := h.worked.invariant

/-- A character behind a marker and a slash, with another one seen ahead. -/
theorem cursor_invariant_marked :
    let pattern := encode [CodePoint.byteOrderMark, '/', 'é', 'ß']
    let scanner := (Scanner.start pattern).step.scanner
    let c := scanner.cursor.advance.look
    c.failure = none ∧ c.offset < c.readOffset ∧ pattern.extract c.offset c.readOffset = String.utf8EncodeChar 'é' ∧
      c.look.advance.current = c.look.ahead ∧ c.next.codePoint = .char 'ß' := by
  intro pattern scanner c
  have h : Operated pattern { scanner with cursor := c } := .look (.advance (.step .start))
  have hi := cursor_invariant h
  obtain ⟨hlt, hextract⟩ := hi.current 'é' (by decide +kernel)
  exact ⟨by decide +kernel, hlt, hextract, hi.look.2.2.2.2, (hi.lookahead _ (by decide +kernel)).1⟩

end
end Scanner
end RoutePattern
