import RoutePattern.Proofs.LoopTurns

/-!
# What a cursor has in front of it

A cursor that basic operations have moved stands in front of the text, on one of its characters, or at the
end. What it has not read is the rest of the text and what ends the text, so that legal unread bytes tell both.
-/
namespace RoutePattern
open Utf8 (encode size)

theorem CodePoint.isLegal_of_all {text : List Char} (h : text.all (fun x => decide (IsLegal x)) = true) :
    ∀ x ∈ text, IsLegal x := fun x hx => of_decide_eq_true (List.all_eq_true.1 h x hx)

namespace SourceText

section
variable {s : SourceText} {more text : List Char}

/-- Only the marker in front of a pattern keeps its bytes from being its text. -/
theorem eq_of_encode {front : List Char} (h : encode (front ++ more) ++ s.rest = encode text)
    (hf : ∀ x ∈ front, ¬ CodePoint.IsLegal x) (ht : ∀ x ∈ text, CodePoint.IsLegal x) :
    front = [] ∧ more = text ∧ s.rest = [] := by
  obtain ⟨tail, rfl, hr⟩ := Utf8.exists_encode_append h
  have htail : tail = [] := by
    cases tail with
    | nil => rfl
    | cons y tail =>
      refine absurd ?_ (s.barred y (ht y (by simp)))
      rw [hr, Utf8.encode_cons]
      exact List.prefix_append _ _
  have hfront : front = [] := by
    cases front with
    | nil => rfl
    | cons x front => exact absurd (ht x (by simp)) (hf x (by simp))
  exact ⟨hfront, by simp [htail, hfront], by rw [hr, htail]; rfl⟩

end
end SourceText

namespace Cursor

/-- A cursor at work is at the start of the text, on a character of it, or at the end. -/
inductive Stationed (s : SourceText) (c : Cursor) : Prop where
  | fresh (h : Behind s [] s.text c)
  | on {before x after} (h : On s before x after c)
  | ended (h : c.current = .eof)

section
variable {s : SourceText} {pattern : List UInt8} {before after text : List Char} {x : Char} {c : Cursor}
  {e : Failure}

theorem current_fail (h : ∀ f, c.failure = some f → c.current = .eof) (e : Failure) :
    (c.fail e).current = .eof := by
  unfold fail
  split
  · rename_i hf
    obtain ⟨f, hf⟩ := Option.isSome_iff_exists.1 hf
    exact h f hf
  · rfl

/-- A cursor that has failed stands at the end. -/
theorem Worked.current_of_failure (h : Worked pattern c) (hf : c.failure = some e) : c.current = .eof := by
  induction h generalizing e with
  | start => cases hf
  | @advance c _ ih =>
    cases hn : c.next with
    | stop => rw [advance_of_stop hn]; rfl
    | illegal f => simp [Cursor.advance, hn, finish]
    | char y width =>
      have hc : c.failure = some e := by simpa [Cursor.advance, hn, moveTo] using hf
      cases hn.symm.trans (next_of_failure hc)
  | @look c _ ih =>
    unfold Cursor.look at hf ⊢
    split at hf
    · exact ih hf
    · split at hf
      · exact current_fail (fun f => ih) _
      · exact ih hf
  | fail _ f ih => exact current_fail (fun f => ih) f
  | report _ _ ih => exact ih hf

theorem Worked.stationed (h : Worked s.bytes c) : Stationed s c := by
  -- The end is kept, since nothing can be decoded behind it, and every failure leads there.
  induction h with
  | start => exact .fresh (behind_start s)
  | @advance c hc ih =>
    have hon {before after} (hb : Behind s before after c) : Stationed s c.advance := by
      cases after with
      | nil => exact .ended hb.advance_spent.current
      | cons y ys => exact .on hb.advance
    cases ih with
    | fresh hb => exact hon hb
    | on hx => exact hon hx.toBehind
    | ended he => exact .ended (by rw [advance_of_stop (hc.sound.next he)]; rfl)
  | @look c hc ih =>
    have hfailed {e} (he : c.look.failure = some e) : Stationed s c.look :=
      .ended (hc.look.current_of_failure he)
    cases ih with
    | fresh hb =>
      rcases hb.look_cases with hl | ⟨-, e, -, he⟩
      · exact .fresh hl
      · exact hfailed he
    | on hx =>
      rcases hx.look_cases with hl | ⟨-, e, -, he⟩
      · exact .on hl
      · exact hfailed he
    | ended he =>
      refine .ended ?_
      unfold Cursor.look
      split
      · exact he
      · rw [hc.sound.next he]
        exact he
  | @fail c hc e _ => exact .ended (current_fail (fun _ => hc.current_of_failure) e)
  | report _ reports ih =>
    cases ih with
    | fresh hb => exact .fresh (hb.report reports)
    | on hx => exact .on { hx.toBehind.report reports with offset := hx.offset }
    | ended he => exact .ended he

theorem Worked.pattern_eq (h : Worked pattern c) : c.pattern = pattern := by
  induction h with
  | start => rfl
  | @advance c _ ih =>
    rw [← ih]
    unfold Cursor.advance
    split
    · rfl
    · rfl
    · exact (c.fail_same _).1
  | @look c _ ih => rw [c.look_same.1, ih]
  | @fail c _ e ih => rw [(c.fail_same e).1, ih]
  | report _ _ ih => exact ih

/-- A cursor that shows a character stands on it in the text of its pattern. -/
theorem Worked.exists_on (h : Worked pattern c) (hx : c.current = .char x) :
    ∃ s before after, s.bytes = pattern ∧ On s before x after c := by
  obtain ⟨s, rfl⟩ := SourceText.exists_bytes pattern
  cases h.stationed with
  | fresh hb => cases hb.current.symm.trans hx
  | ended he => cases he.symm.trans hx
  | @on before y after ho =>
    obtain rfl : y = x := CodePoint.char.inj (ho.currentChar.symm.trans hx)
    exact ⟨s, before, after, rfl, ho⟩

/-- The bytes that a cursor has not read are those of the text, and before anything is read the marker. -/
theorem Behind.unread (h : Behind s before after c) : ∃ front : List Char, (∀ y ∈ front, ¬ CodePoint.IsLegal y) ∧
    s.place before = c.readOffset + size front ∧ s.bytes.drop c.readOffset = encode (front ++ after) ++ s.rest := by
  by_cases hb : before = []
  · subst hb
    have ht : s.text = after := by simpa using h.text
    have hr : c.readOffset = 0 := h.readOffset
    refine ⟨s.lead, fun y hy => ?_, ?_, ?_⟩
    · unfold SourceText.lead at hy
      split at hy
      · rw [List.mem_singleton.1 hy]
        exact fun hl => hl.2 rfl
      · cases hy
    · rw [hr, Nat.zero_add, SourceText.place, List.append_nil]
    · rw [hr, List.drop_zero, SourceText.bytes, ht]
  · have hr : c.readOffset = s.place before := by rw [h.readOffset, s.reached_of_ne_nil hb]
    exact ⟨[], by simp, hr.symm, by rw [hr, s.drop_place h.text]; rfl⟩

/-- Legal unread bytes are the rest of the text, and nothing else ends it. -/
theorem Behind.of_unread (h : Behind s before after c) (ht : ∀ y ∈ text, CodePoint.IsLegal y)
    (hu : s.bytes.drop c.readOffset = encode text) : after = text ∧ s.rest = [] ∧ c.readOffset = s.place before := by
  obtain ⟨front, hf, hp, hb⟩ := h.unread
  obtain ⟨rfl, ha, hr⟩ := SourceText.eq_of_encode (hb.symm.trans hu) hf ht
  exact ⟨ha, hr, hp.symm⟩

theorem ofPattern_ne_stop {offset : Nat} (hx : CodePoint.IsLegal x) (hd : pattern.drop offset = encode (x :: text)) :
    Decoded.ofPattern pattern offset ≠ .stop := by
  have hfirst : Utf8.first? (pattern.drop offset) = some x := by
    have := Utf8.first?_encode_cons x text []
    rwa [List.append_nil, ← hd] at this
  have hmark : ¬ (offset = 0 ∧ Utf8.first? pattern = some CodePoint.byteOrderMark) := by
    rintro ⟨rfl, hm⟩
    exact hx.2 (Option.some.inj (hfirst.symm.trans hm))
  rw [Decoded.ofPattern, if_neg hmark, Decoded.strict]
  split
  · rename_i hn
    rw [hn, Utf8.first?_nil] at hfirst
    cases hfirst
  · rename_i hb
    rw [hb] at hfirst
    simp only [hfirst, Decoded.ofChar, hx.1, hx.2, if_false]
    exact Decoded.noConfusion

/-- A cursor that has not failed stands behind some text, if legal text is in front of it. -/
theorem Worked.exists_behind (h : Worked pattern c) (hf : c.failure = none)
    (hl : ∀ y ∈ x :: text, CodePoint.IsLegal y) (hu : pattern.drop c.readOffset = encode (x :: text)) :
    ∃ s before, s.bytes = pattern ∧ Behind s before (x :: text) c ∧ s.rest = [] ∧ c.readOffset = s.place before := by
  have hp : c.pattern = pattern := h.pattern_eq
  obtain ⟨s, rfl⟩ := SourceText.exists_bytes pattern
  have hbehind {before after : List Char} (hb : Behind s before after c) :
      ∃ s' before', s'.bytes = s.bytes ∧ Behind s' before' (x :: text) c ∧ s'.rest = [] ∧
        c.readOffset = s'.place before' := by
    obtain ⟨rfl, hr, hplace⟩ := hb.of_unread hl hu
    exact ⟨s, before, rfl, hb, hr, hplace⟩
  cases h.stationed with
  | fresh hb => exact hbehind hb
  | on ho => exact hbehind ho.toBehind
  | ended he =>
    -- An unfailed cursor at the end has nothing more to decode, but here is a character.
    have hn : c.next = .ofPattern s.bytes c.readOffset := by simp [Cursor.next, hf, hp]
    exact absurd (hn.symm.trans (h.sound.next he)) (ofPattern_ne_stop (hl x (by simp)) hu)

/-- The cursor has read up to and with a character that starts at the offset, and has not failed. -/
structure StandsOn (c : Cursor) (x : Char) (place : Nat) : Prop where
  current : c.current = .char x
  offset : c.offset = place
  readOffset : c.readOffset = place + x.utf8Size
  failure : c.failure = none

theorem On.readOffset_eq (h : On s before x after c) : c.readOffset = s.place (before ++ [x]) := by
  rw [h.readOffset, SourceText.reached_concat]

/-- The place behind the current character and some more. -/
theorem On.place_behind (h : On s before x after c) (cs : List Char) :
    s.place (before ++ x :: cs) = c.readOffset + size cs := by
  rw [h.readOffset_eq, ← SourceText.place_append, List.append_assoc]
  rfl

theorem On.standsOn (h : On s before x after c) : StandsOn c x (s.place before) where
  current := h.currentChar
  offset := h.offset
  readOffset := by rw [h.readOffset_eq, SourceText.place_append]; simp
  failure := h.failure

end
end Cursor
end RoutePattern
