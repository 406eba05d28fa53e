import RoutePattern.Proofs.IllegalInput
import RoutePattern.Proofs.UnreadText

/-!
# Nested delimiters

Behind an opening delimiter the text is read to the first place at which as many delimiters have been closed as
opened. Without such a place all of it is read, and the failure tells how many delimiters are open.
-/
namespace RoutePattern
open Utf8 (encode size)

namespace EnclosedText

/-- How many delimiters are open after so many characters behind an opening one. -/
def height (opener closer : Char) (text : List Char) (count : Nat) : Int := 1 + depth opener closer (text.take count)

section
variable {opener closer : Char} {body text : List Char} {count : Nat} (rest : List Char)

theorem Inside.height (h : Inside opener closer 1 text) (count : Nat) : 1 ≤ height opener closer text count :=
  h _ (List.take_prefix count text)

theorem height_length (opener closer : Char) (text : List Char) :
    height opener closer text text.length = 1 + depth opener closer text := by
  rw [EnclosedText.height, List.take_length]

/-- Up to the closing delimiter of a body something is open, and behind it nothing. -/
theorem height_closing (ho : opener ≠ closer) (hi : Inside opener closer 1 body)
    (hd : 1 + depth opener closer body = 1) : height opener closer (body ++ closer :: rest) (body.length + 1) = 0 ∧
      ∀ j ≤ body.length, 1 ≤ height opener closer (body ++ closer :: rest) j := by
  constructor
  · have ht : (body ++ closer :: rest).take (body.length + 1) = body ++ [closer] := by
      rw [List.append_cons body closer rest]
      exact List.take_left' (by simp)
    rw [EnclosedText.height, ht, depth_append, depth_closer ho]
    omega
  · intro j hj
    rw [EnclosedText.height, List.take_append_of_le_length hj]
    exact hi.height j

/-- The first place at which nothing is open is behind the closing delimiter. -/
theorem eq_of_first (ho : opener ≠ closer) (hi : Inside opener closer 1 body)
    (hd : 1 + depth opener closer body = 1) (hz : height opener closer (body ++ closer :: rest) count = 0)
    (hf : ∀ j < count, height opener closer (body ++ closer :: rest) j ≠ 0) : count = body.length + 1 := by
  obtain ⟨hclosed, hopen⟩ := height_closing rest ho hi hd
  rcases Nat.lt_trichotomy count (body.length + 1) with hlt | he | hgt
  · have := hopen count (Nat.le_of_lt_succ hlt)
    omega
  · exact he
  · exact absurd hclosed (hf _ hgt)

end
end EnclosedText

theorem Failure.cause_unbalanced {opener closer found : Lexeme} {depth : Int} {offset : Nat} (h : 1 ≤ depth) :
    (unbalanced opener closer found depth offset).cause = "unbalanced " ++ opener.name ++ ", " ++ toString depth ++
      " unclosed " ++ closer.name ++ " remains but got " ++ found.name := by
  have hd : ¬ depth < 0 := by omega
  exact if_neg hd

namespace SourceText

variable {s : SourceText}

theorem unclosed_of_rest (h : s.rest = []) (after : List Char) : s.unclosed after = String.ofList after := by
  unfold unclosed
  split
  · rename_i ha
    rw [ha]
  · rw [h, Utf8.wellFormedPart_of_none Utf8.first?_nil, List.append_nil]

/-- A pattern whose delimiters do not balance has open ones left. -/
theorem Flaw.one_le_depth {opener closer found : Lexeme} {depth : Int} {offset : Nat}
    (h : s.Flaw (.unbalanced opener closer found depth offset)) : 1 ≤ depth := by
  cases h with
  | obstacle he => cases isIllegal_obstacle he
  | unbalanced _ hd => exact hd

end SourceText

namespace Cursor
open EnclosedText

/-- What reading from an opening delimiter over the text behind it gives, as text and as the cursor behind it. -/
structure ReadsNested (pattern : List UInt8) (opener closer : Char) (c : Cursor) (after : List Char) (text : String)
    (d : Cursor) : Prop where
  closed : ∀ count, height opener closer after count = 0 → (∀ j < count, height opener closer after j ≠ 0) →
    text = String.ofList (after.take (count - 1)) ∧ StandsOn d closer (c.readOffset + size (after.take (count - 1)))
  unclosed : (∀ count, height opener closer after count ≠ 0) → 1 ≤ height opener closer after after.length ∧
    text = String.ofList after ∧ d.readOffset = pattern.length ∧
    d.failure = some (.unbalanced (CodePoint.char opener).classify (CodePoint.char closer).classify .endOfInput
      (height opener closer after after.length) pattern.length)

/-- A scan that fails on delimiters has left some of them open, and says so. -/
def FailsOpen (pattern : List UInt8) : Prop :=
  ∀ scanner opener closer found depth offset, Scanner.Reached pattern scanner →
    scanner.failure = some (.unbalanced opener closer found depth offset) →
      1 ≤ depth ∧ (Failure.unbalanced opener closer found depth offset).cause = "unbalanced " ++ opener.name ++ ", " ++
        toString depth ++ " unclosed " ++ closer.name ++ " remains but got " ++ found.name

section
variable {s : SourceText} {pattern : List UInt8} {before after : List Char} {opener closer : Char} {c : Cursor}

theorem On.reads_nested (ho : opener ≠ closer) (h : On s before opener after c) (hr : s.rest = []) :
    ReadsNested s.bytes opener closer c after (c.balanced opener closer).1 (c.balanced opener closer).2 := by
  rcases closes_or_inside after ho (Int.le_refl 1) with ⟨body, rest, rfl, hi, hd⟩ | hi
  · have hclosed := (height_closing rest ho hi hd).1
    refine ⟨fun count hz hf => ?_, fun hn => absurd hclosed (hn _)⟩
    obtain ⟨d, hon, he⟩ := h.balanced ho (balanced_iff.2 ⟨hi, hd⟩)
    have ht : (body ++ closer :: rest).take (count - 1) = body := by
      rw [eq_of_first rest ho hi hd hz hf, Nat.add_sub_cancel, List.take_left]
    rw [he, ht]
    exact ⟨rfl, h.place_behind body ▸ hon.standsOn⟩
  · refine ⟨fun count hz _ => ?_, fun _ => ?_⟩
    · have := hi.height count
      omega
    · obtain ⟨d, hspent, he⟩ := h.balanced_open ho hi
      have hhalted := hspent.unbalanced opener closer (1 + depth opener closer after)
      rw [s.obstacle_eq_none.2 hr] at hhalted
      have hn : s.text ≠ [] := by simp [h.sourceText]
      rw [he, height_length, SourceText.unclosed_of_rest hr]
      refine ⟨height_length opener closer after ▸ hi.height _, rfl, ?_, hhalted.failure⟩
      rw [hhalted.readOffset, s.reached_of_ne_nil hn, s.length_bytes, hr]
      rfl

theorem failsOpen (pattern : List UInt8) : FailsOpen pattern := by
  intro scanner opener closer found depth offset hreached hf
  obtain ⟨s, rfl⟩ := SourceText.exists_bytes pattern
  have hd : 1 ≤ depth := (hreached.flaw hf).one_le_depth
  exact ⟨hd, Failure.cause_unbalanced hd⟩

theorem Worked.balanced_text (h : Worked pattern c) (hx : c.current = .char opener) (ho : opener ≠ closer)
    (hl : ∀ x ∈ after, CodePoint.IsLegal x) (hu : pattern.drop c.readOffset = encode after) :
    ReadsNested pattern opener closer c after (c.balanced opener closer).1 (c.balanced opener closer).2 ∧
      FailsOpen pattern := by
  obtain ⟨s, before, unread, rfl, hon⟩ := h.exists_on hx
  obtain ⟨rfl, hr, -⟩ := hon.of_unread hl hu
  exact ⟨hon.reads_nested ho hr, failsOpen _⟩

theorem balanced_text_inner :
    (let c := (start (encode ['(', 'a', '(', 'é', ')', ')', 'b'])).advance
    (c.balanced '(' ')').1 = "a(é)" ∧ StandsOn (c.balanced '(' ')').2 ')' 6) ∧
    ((start (encode ['(', '(', 'a'])).advance.balanced '(' ')').2.failure =
      some (.unbalanced .leftParen .rightParen .endOfInput 2 3) := by
  have hclosed : Worked (encode ['(', 'a', '(', 'é', ')', ')', 'b']) _ := .advance .start
  have hopen : Worked (encode ['(', '(', 'a']) _ := .advance .start
  constructor
  · have hread : ReadsNested _ '(' ')' _ ['a', '(', 'é', ')', ')', 'b'] _ _ ∧ _ :=
      hclosed.balanced_text (by decide +kernel) (by decide) (CodePoint.isLegal_of_all (by decide)) (by decide +kernel)
    exact hread.1.closed 5 (by decide) (by decide)
  · have hread : ReadsNested _ '(' ')' _ ['(', 'a'] _ _ ∧ _ :=
      hopen.balanced_text (by decide +kernel) (by decide) (CodePoint.isLegal_of_all (by decide)) (by decide +kernel)
    have hheight : ∀ count, height '(' ')' ['(', 'a'] count ≠ 0
      | 0 | 1 => by decide
      | count + 2 => by
        rw [height, List.take_of_length_le (Nat.le_add_left 2 count)]
        decide
    exact (hread.1.unclosed hheight).2.2.2

end
end Cursor
end RoutePattern
