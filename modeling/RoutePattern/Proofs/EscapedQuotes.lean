import RoutePattern.Proofs.UnreadText

/-!
# Quoting with escapes

Between two quotes a backslash in front of each quote of a text hides it, and then the text is read back as it
was. Nothing else is read between quotes, and a text in which every quote is hidden is never closed.
-/
namespace RoutePattern
open Utf8 (encode size)

namespace EnclosedText

section
variable {quote x : Char} {literal rest text : List Char}

/-- A backslash stands in front of every quote of the text. -/
def Hidden (quote : Char) (text : List Char) : Prop :=
  ∀ front back, text = front ++ quote :: back → front.getLast? = some '\x5c'

theorem mem_escape (h : x ∈ escape quote literal) : x = '\x5c' ∨ x ∈ literal := by
  obtain ⟨y, hy, hx⟩ := List.mem_flatMap.1 h
  split at hx
  · rcases List.mem_cons.1 hx with rfl | hx
    · exact .inl rfl
    · exact .inr (List.mem_singleton.1 hx ▸ hy)
  · exact .inr (List.mem_singleton.1 hx ▸ hy)

theorem isLegal_escape (hq : CodePoint.IsLegal quote) (hl : ∀ x ∈ literal ++ rest, CodePoint.IsLegal x) :
    ∀ x ∈ escape quote literal ++ quote :: rest, CodePoint.IsLegal x := by
  intro x hm
  rcases List.mem_append.1 hm with hm | hm
  · rcases mem_escape hm with rfl | hm
    · decide
    · exact hl x (List.mem_append_left _ hm)
  · rcases List.mem_cons.1 hm with rfl | hm
    · exact hq
    · exact hl x (List.mem_append_right _ hm)

/-- Escapes put nothing behind a character. -/
theorem getLast?_escape (quote : Char) (literal : List Char) : (escape quote literal).getLast? = literal.getLast? := by
  rcases List.eq_nil_or_concat literal with rfl | ⟨front, x, rfl⟩
  · rfl
  · rw [List.concat_eq_append, escape_append]
    by_cases hx : x = quote
    · simp [hx, escape_cons_quote]
    · simp [escape_cons_of_ne hx]

/-- Escapes hide all quotes of a literal. -/
theorem hidden_escape (hq : quote ≠ '\x5c') (literal : List Char) : Hidden quote (escape quote literal) := by
  intro front back h
  induction literal generalizing front with
  | nil => simp at h
  | cons x literal ih =>
    by_cases hx : x = quote
    · rw [hx, escape_cons_quote] at h
      match front with
      | [] => exact absurd (List.cons.inj h).1.symm hq
      | [y] => rw [← (List.cons.inj h).1]; rfl
      | y :: z :: front =>
        have hlast := ih front (List.cons.inj (List.cons.inj h).2).2
        rw [List.getLast?_cons, List.getLast?_cons, hlast]
        rfl
    · rw [escape_cons_of_ne hx] at h
      match front with
      | [] => exact absurd (List.cons.inj h).1 hx
      | y :: front =>
        rw [List.getLast?_cons, ih front (List.cons.inj h).2]
        rfl

/-- The quote that closes a text is not hidden. -/
theorem Hidden.not_closes (h : Hidden quote text) : ¬ Closes quote literal rest text := by
  intro hc
  have hl := h _ _ hc.split
  rw [getLast?_escape] at hl
  exact hc.last hl

end
end EnclosedText

namespace Cursor
open EnclosedText

/-- What reading from one quote to the next gives, as text and as the cursor behind it. -/
structure ReadsQuoted (pattern : List UInt8) (quote : Char) (c : Cursor) (text : String) (d : Cursor) : Prop where
  closed : ∀ literal rest : List Char, (∀ x ∈ literal ++ rest, CodePoint.IsLegal x) → literal.getLast? ≠ some '\x5c' →
    pattern.drop c.readOffset = encode (escape quote literal ++ quote :: rest) →
    text = String.ofList literal ∧ StandsOn d quote (c.readOffset + size (escape quote literal))
  spelled : d.failure = none → d.current = .char quote ∧
    pattern.extract c.readOffset d.offset = encode (escape quote text.toList) ∧ text.toList.getLast? ≠ some '\x5c'
  unclosed : ∀ after : List Char, (∀ x ∈ after, CodePoint.IsLegal x) → Hidden quote after →
    pattern.drop c.readOffset = encode after →
    d.failure = some (.unterminated (CodePoint.char quote).classify .endOfInput pattern.length)

section
variable {s : SourceText} {pattern : List UInt8} {before after literal rest : List Char} {quote : Char} {c : Cursor}

/-- A literal and its closing quote are read, if the look behind the quote does not fail. -/
theorem On.quoted_closed (hq : quote ≠ '\x5c') (h : On s before quote after c) (hc : Closes quote literal rest after)
    (hf : (c.quoted quote quote []).2.failure = none) : (c.quoted quote quote []).1 = String.ofList literal ∧
      On s (before ++ quote :: escape quote literal) quote rest (c.quoted quote quote []).2 := by
  obtain ⟨d, hd, he⟩ := h.quoted hq hc
  rw [he] at hf ⊢
  rcases hd.look_cases with hl | ⟨-, e, -, hl⟩
  · exact ⟨rfl, hl⟩
  · cases hf.symm.trans hl

theorem On.failure_quoted (hq : quote ≠ '\x5c') (h : On s before quote after c) (ho : s.obstacle = none)
    (hc : Closes quote literal rest after) : (c.quoted quote quote []).2.failure = none := by
  obtain ⟨d, hd, he⟩ := h.quoted hq hc
  rw [he]
  exact (hd.look fun _ => ho).failure

/-- A literal that is never closed is a failure. -/
theorem On.failure_quoted_open (hq : quote ≠ '\x5c') (h : On s before quote after c)
    (hn : ∀ literal rest, ¬ Closes quote literal rest after) : (c.quoted quote quote []).2.failure =
      some (s.obstacle.getD (.unterminated (CodePoint.char quote).classify .endOfInput s.bytes.length)) := by
  obtain ⟨d, literal, hd, -, he⟩ := h.quoted_open hq hn
  rw [he]
  exact (hd.unterminated quote).failure

/-- The bytes between an opening quote and the closing one. -/
theorem On.extract_quoted (h : On s before quote after c) (hc : Closes quote literal rest after) :
    s.bytes.extract c.readOffset (s.place (before ++ quote :: escape quote literal)) =
      encode (escape quote literal) := by
  have ht : s.text = (before ++ [quote]) ++ (escape quote literal ++ quote :: rest) := by
    rw [← hc.split]
    exact h.text
  have hd : s.bytes.drop c.readOffset = encode (escape quote literal) ++ (encode (quote :: rest) ++ s.rest) := by
    rw [h.readOffset_eq, s.drop_place ht, Utf8.encode_append, List.append_assoc]
  rw [h.place_behind, List.extract_eq_take_drop, hd, Nat.add_sub_cancel_left]
  exact List.take_left' rfl

theorem Worked.reads_quoted (h : Worked pattern c) (hx : c.current = .char quote) (hq : quote ≠ '\x5c') :
    ReadsQuoted pattern quote c (c.quoted quote quote []).1 (c.quoted quote quote []).2 := by
  obtain ⟨s, before, after, rfl, ho⟩ := h.exists_on hx
  refine ⟨fun literal rest hl hlast hu => ?_, fun hf => ?_, fun text ht hhidden hu => ?_⟩
  · have hquote : CodePoint.IsLegal quote := s.legal quote (by simp [ho.sourceText])
    obtain ⟨rfl, hr, -⟩ := ho.of_unread (isLegal_escape hquote hl) hu
    have hc : Closes quote literal rest (escape quote literal ++ quote :: rest) := ⟨rfl, hlast⟩
    obtain ⟨htext, hd⟩ := ho.quoted_closed hq hc (ho.failure_quoted hq (s.obstacle_eq_none.2 hr) hc)
    exact ⟨htext, ho.place_behind (escape quote literal) ▸ hd.standsOn⟩
  -- A text that closes nowhere would be a failure, so that this one is a literal and its closing quote.
  · by_cases hc : ∃ literal rest, Closes quote literal rest after
    · obtain ⟨literal, rest, hc⟩ := hc
      obtain ⟨htext, hd⟩ := ho.quoted_closed hq hc hf
      rw [htext, String.toList_ofList, hd.offset]
      exact ⟨hd.currentChar, ho.extract_quoted hc, hc.last⟩
    · have hopen := ho.failure_quoted_open hq fun literal rest h => hc ⟨literal, rest, h⟩
      cases hf.symm.trans hopen
  · obtain ⟨rfl, hr, -⟩ := ho.of_unread ht hu
    rw [ho.failure_quoted_open hq fun _ _ => hhidden.not_closes, s.obstacle_eq_none.2 hr]
    rfl

/-- An apostrophe as the last character of a quoted text, with and without the closing quote. -/
theorem reads_quoted_apostrophe :
    (let c := (start (encode ['\x27', 'a', '\x5c', '\x27', '\x27', 'b'])).advance
    (c.quoted '\x27' '\x27' []).1 = "a'" ∧ StandsOn (c.quoted '\x27' '\x27' []).2 '\x27' 4) ∧
    ((start (encode ['\x27', 'a', '\x5c', '\x27'])).advance.quoted '\x27' '\x27' []).2.failure =
      some (.unterminated .singleQuote .endOfInput 4) := by
  have hquoted : Worked (encode ['\x27', 'a', '\x5c', '\x27', '\x27', 'b']) _ := .advance .start
  have hopen : Worked (encode ['\x27', 'a', '\x5c', '\x27']) _ := .advance .start
  constructor
  · exact (hquoted.reads_quoted (by decide +kernel) (by decide)).closed ['a', '\x27'] ['b']
      (CodePoint.isLegal_of_all (by decide)) (by decide) (by decide +kernel)
  · exact (hopen.reads_quoted (by decide +kernel) (by decide)).unclosed (escape '\x27' ['a', '\x27'])
      (CodePoint.isLegal_of_all (by decide)) (hidden_escape (by decide) _) (by decide +kernel)

end
end Cursor
end RoutePattern
