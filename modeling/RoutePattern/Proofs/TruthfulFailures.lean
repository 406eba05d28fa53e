import RoutePattern.Proofs.IllegalInput
import RoutePattern.Proofs.MarkerLines

/-!
# Failures tell the truth

A scan of text fails at one of its characters or at its end. What the failure says to have found is what stands
there, the kind of the failure fits that, and the line that is drawn for it marks that character and no other.
-/
namespace RoutePattern
open Utf8 (encode size)

namespace Failure

/-- The lexeme that was found where the failure is. -/
def found? : Failure → Option Lexeme
  | unexpected found _ _ | unterminated _ found _ | unbalanced _ _ found _ _ | ambiguous found _ _ => some found
  | _ => none

/-- What a kind of failure says of the text in front of which it is reported. -/
def Suits (after : List Char) : Failure → Prop
  | illegalEncoding _ => False
  | illegalNul _ => after.head? = some '\x00'
  | illegalMarker _ => after.head? = some CodePoint.byteOrderMark
  | unexpected found expected _ =>
    (found = .invalid ∧ expected = [.method, .slash, .segment, .colon, .leftBrace] ∧
      ∃ x, after.head? = some x ∧ (CodePoint.isControl x = true ∨ x = '\uFFFD')) ∨
    (found ≠ .rightParen ∧ expected = [.rightParen])
  | unterminated _ found _ => found = .endOfInput
  | unbalanced _ _ found depth _ => found = .endOfInput ∧ 1 ≤ depth
  | ambiguous found _ _ => found = .upper ∨ found = .whitespace

/-- A failure in a pattern is reported between two parts of its text, of which the second is at fault. -/
structure Truthful (e : Failure) (pattern : String) (before after : List Char) : Prop where
  split : pattern.toList = before ++ after
  offset : e.offset = size before
  found : ∀ l, e.found? = some l →
    l = (CodePoint.ofHead after).classify ∧ (l = .endOfInput ↔ e.offset = size pattern.toList)
  suits : e.Suits after
  annotated : e.annotate pattern =
    let total := TextPadding.padLeft 3 (toString pattern.utf8ByteSize)
    let edge := String.ofList (Marker.edgeBelow.lineAt Marker.edgeBelow.left before after)
    let place := TextPadding.padLeft 3 (toString (size before))
    s!"{e.message}\n{pattern} [{total}]\n{edge} [{place}]\n"

end Failure

section
variable {x : Char}

/-- Of what may stand in a pattern only controls and the replacement character have no lexeme. -/
theorem CodePoint.control_of_invalid (hx : IsLegal x) (h : (char x).classify = .invalid) :
    isControl x = true ∨ x = '\uFFFD' := by
  refine Decidable.byContradiction fun hn => ?_
  obtain ⟨hc, hr⟩ := not_or.1 hn
  have hliteral : (char x).isLiteral = true := by simp [isLiteral, isValid, char?, hx.1, hx.2, hr, hc]
  exact absurd hliteral (Bool.eq_false_iff.1 (isLiteral_of_invalid h))

theorem CodePoint.eq_of_rightParen (h : (char x).classify = .rightParen) : x = ')' :=
  eq_of_mark (mark_of_classify h (by decide)) rfl

theorem CodePoint.endOfInput_iff (after : List Char) : (ofHead after).classify = .endOfInput ↔ after = [] := by
  cases after with
  | nil => exact iff_of_true rfl rfl
  | cons x after => exact iff_of_false (classify_ne_endOfInput x) (List.cons_ne_nil x after)

end

/-- Where a pattern is text, what ends its legal part is text too. -/
theorem SourceText.exists_more {s : SourceText} {text : List Char} (h : s.bytes = encode text) :
    ∃ more, text = s.lead ++ s.text ++ more ∧ s.rest = encode more :=
  Utf8.exists_encode_append h

theorem Failure.Truthful.of_suits {e : Failure} {pattern : String} {before after : List Char}
    (hs : pattern.toList = before ++ after) (ho : e.offset = size before)
    (hf : ∀ l, e.found? = some l → l = (CodePoint.ofHead after).classify) (hsuits : e.Suits after) :
    e.Truthful pattern before after := by
  refine ⟨hs, ho, fun l hl => ⟨hf l hl, ?_⟩, hsuits, ?_⟩
  · rw [hf l hl, CodePoint.endOfInput_iff, ho, hs, Utf8.size_append, ← Utf8.size_eq_zero]
    omega
  · have hdraw : Marker.edgeBelow.draw pattern (size before) =
        String.ofList (Marker.edgeBelow.lineAt Marker.edgeBelow.left before after) := by
      rw [Marker.draw, hs, Marker.drawFrom_size]
    simp only [annotate, Marker.annotate, ho, hdraw]

namespace SourceText

section
variable {s : SourceText} {pattern : String} {before after : List Char} {x : Char} {e : Failure}

/-- A failure at a character of the text. -/
theorem truthful_at (hp : s.bytes = encode pattern.toList) (ht : s.text = before ++ x :: after)
    (ho : e.offset = s.place before) (hf : ∀ l, e.found? = some l → l = (CodePoint.char x).classify)
    (hs : ∀ more, e.Suits (x :: more)) : ∃ before after, e.Truthful pattern before after := by
  obtain ⟨more, hmore, -⟩ := s.exists_more hp
  exact ⟨s.lead ++ before, x :: (after ++ more), .of_suits (by simp [hmore, ht]) ho hf (hs _)⟩

/-- A failure at the end of the pattern. -/
theorem truthful_end (hp : s.bytes = encode pattern.toList) (ho : e.offset = s.bytes.length)
    (hf : ∀ l, e.found? = some l → l = .endOfInput) (hs : e.Suits []) :
    ∃ before after, e.Truthful pattern before after := by
  refine ⟨pattern.toList, [], .of_suits (List.append_nil _).symm ?_ hf hs⟩
  rw [ho, hp]
  rfl

/-- A failure at what ends the text, which is a NUL or a marker. -/
theorem truthful_obstacle (hp : s.bytes = encode pattern.toList) (he : s.obstacle = some e) :
    ∃ before after, e.Truthful pattern before after := by
  obtain ⟨more, hmore, hr⟩ := s.exists_more hp
  have hne : s.rest ≠ [] := fun hn => by cases he.symm.trans (s.obstacle_eq_none.2 hn)
  obtain ⟨c, cs, rfl⟩ : ∃ c cs, more = c :: cs := by
    refine List.exists_cons_of_ne_nil ?_
    rintro rfl
    exact hne hr
  have hfirst : Utf8.first? s.rest = some c := by
    have := Utf8.first?_encode_cons c cs []
    rwa [List.append_nil, ← hr] at this
  refine ⟨s.lead ++ s.text, c :: cs, ?_⟩
  unfold obstacle at he
  rw [if_neg hne, hfirst] at he
  rcases s.first?_rest hfirst with rfl | ⟨rfl, -⟩
  · cases he
    exact .of_suits hmore rfl (by rintro l ⟨⟩) rfl
  · cases he
    exact .of_suits hmore rfl (by rintro l ⟨⟩) rfl

/-- Every flaw of a text is reported where it is. -/
theorem Flaw.truthful (h : s.Flaw e) (hp : s.bytes = encode pattern.toList) :
    ∃ before after, e.Truthful pattern before after := by
  cases h with
  | obstacle he => exact truthful_obstacle hp he
  | @unreadable before x after ht hx =>
    refine truthful_at hp ht rfl ?_ fun more => .inl ⟨rfl, rfl, x, rfl, ?_⟩
    · rintro l ⟨⟩
      exact hx.symm
    · exact CodePoint.control_of_invalid (s.legal x (by simp [ht])) hx
  | unclosed ht hx =>
    refine truthful_at hp ht rfl ?_ fun more => .inr ⟨fun he => hx (CodePoint.eq_of_rightParen he), rfl⟩
    rintro l ⟨⟩
    rfl
  | undecided ht hx =>
    refine truthful_at hp ht rfl ?_ fun more => ?_
    · rintro l ⟨⟩
      rfl
    · rcases hx with hu | rfl | rfl
      · exact .inl (CodePoint.classify_of_isUpper hu)
      · exact .inr rfl
      · exact .inr rfl
  | unclosedEnd =>
    refine truthful_end hp rfl ?_ (.inr ⟨Lexeme.noConfusion, rfl⟩)
    rintro l ⟨⟩
    rfl
  | unterminated =>
    refine truthful_end hp rfl ?_ rfl
    rintro l ⟨⟩
    rfl
  | unbalanced _ hd =>
    refine truthful_end hp rfl ?_ ⟨rfl, hd⟩
    rintro l ⟨⟩
    rfl

end
end SourceText

theorem scan_error_truthful {pattern : String} {e : Failure} (h : scan (encode pattern.toList) = .error e) :
    ∃ before after, e.Truthful pattern before after := by
  obtain ⟨s, hs⟩ := SourceText.exists_bytes (encode pattern.toList)
  rcases scan_cases s with ⟨ks, -, -, -, hscan⟩ | ⟨f, hscan, hflaw⟩
  · rw [hs, h] at hscan
    cases hscan
  · rw [hs, h] at hscan
    obtain rfl := Except.error.inj hscan
    exact hflaw.truthful hs

theorem scan_error_truthful_control : ∃ before after,
    (Failure.unexpected .invalid Scanner.recovery 4).Truthful "/\x7b\u00E9\x01)" before after :=
  scan_error_truthful (scan_eq_error (by decide +kernel))

end RoutePattern
