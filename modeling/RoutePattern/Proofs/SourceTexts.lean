import RoutePattern.PatternCursor
import RoutePattern.Proofs.EncodedText

/-!
# Patterns as text

Every byte list is a byte order marker that may be missing, then legal characters, and then nothing or
something illegal. Decoding at the end of any part of the text finds the character after it, or what
ends the text.
-/
namespace RoutePattern

/-- A character that may stand anywhere in a pattern. -/
def CodePoint.IsLegal (c : Char) : Prop := c ≠ '\x00' ∧ c ≠ byteOrderMark

instance (c : Char) : Decidable (CodePoint.IsLegal c) := inferInstanceAs (Decidable (_ ∧ _))

/-- No character that may stand anywhere starts the bytes. -/
def Utf8.Barred (bytes : List UInt8) : Prop :=
  ∀ c, CodePoint.IsLegal c → ¬ String.utf8EncodeChar c <+: bytes

/-- The bytes behind the byte order marker in front, if there is one. -/
def withoutMarker (pattern : List UInt8) : List UInt8 :=
  if Utf8.first? pattern = some CodePoint.byteOrderMark then pattern.drop CodePoint.byteOrderMark.utf8Size
  else pattern

/-- A pattern with its text read as far as it is legal. -/
structure SourceText where
  marked : Bool
  text : List Char
  rest : List UInt8
  legal : ∀ c ∈ text, CodePoint.IsLegal c
  barred : Utf8.Barred rest
  unmarked : marked = false → text = [] → ¬ String.utf8EncodeChar CodePoint.byteOrderMark <+: rest

/-- What comes behind a text does not prolong a run in it, if it starts outside of the class. -/
theorem takeWhile_append_of_head {p : Char → Bool} (cs : List Char) {ds : List Char}
    (h : ∀ x, ds.head? = some x → p x = false) : (cs ++ ds).takeWhile p = cs.takeWhile p := by
  have hd : ds.takeWhile p = [] := by
    cases ds with
    | nil => rfl
    | cons x ds => simp [h x rfl]
  rw [List.takeWhile_append]
  split
  · rename_i hl
    rw [hd, List.append_nil, (List.takeWhile_prefix p).eq_of_length hl]
  · rfl

namespace SourceText
open Utf8 (encode size)

/-- The byte order marker in front, if there is one. -/
def lead (s : SourceText) : List Char := if s.marked then [CodePoint.byteOrderMark] else []

def bytes (s : SourceText) : List UInt8 := encode (s.lead ++ s.text) ++ s.rest

/-- Where the code point after some of the text stands. -/
def place (s : SourceText) (before : List Char) : Nat := size (s.lead ++ before)

/-- Where the unread bytes start after some of the text. The marker is read with the first character. -/
def reached (s : SourceText) (before : List Char) : Nat := if before = [] then 0 else s.place before

/-- The position after some of the text. -/
def position (s : SourceText) (before : List Char) : Position :=
  ⟨1 + before.count '\n', max 1 before.length, s.reached before⟩

/-- What ends the text: nothing at the end of the pattern, or the failure of reading on. -/
def obstacle (s : SourceText) : Option Failure :=
  if s.rest = [] then none
  else some <| match Utf8.first? s.rest with
    | none => .illegalEncoding (s.place s.text)
    | some c => if c = '\x00' then .illegalNul (s.place s.text) else .illegalMarker (s.place s.text)

/-- What is taken of text that an opening delimiter leaves open: all that can be read behind it. -/
def unclosed (s : SourceText) (after : List Char) : String :=
  if after = [] then "" else String.ofList (after ++ Utf8.wellFormedPart s.rest)

/-- What ends the text, as far as it stands right in front of the unread part. -/
def obstacleAhead (s : SourceText) (after : List Char) : Option Failure := if after = [] then s.obstacle else none

theorem obstacle_eq_none (s : SourceText) : s.obstacle = none ↔ s.rest = [] := by
  unfold obstacle
  split <;> simp_all

theorem exists_legal_text (bytes : List UInt8) :
    ∃ text rest, bytes = encode text ++ rest ∧ (∀ c ∈ text, CodePoint.IsLegal c) ∧ Utf8.Barred rest := by
  induction hn : bytes.length using Nat.strongRecOn generalizing bytes with
  | ind n ih =>
    by_cases hb : Utf8.Barred bytes
    · exact ⟨[], bytes, rfl, by simp, hb⟩
    · obtain ⟨c, hc, tail, rfl⟩ : ∃ c, CodePoint.IsLegal c ∧ String.utf8EncodeChar c <+: bytes := by
        simpa [Utf8.Barred] using hb
      have hlt : tail.length < n := by
        have := c.utf8Size_pos
        simp at hn; omega
      obtain ⟨text, rest, ht, hl, hr⟩ := ih tail.length hlt tail rfl
      refine ⟨c :: text, rest, by rw [ht, Utf8.encode_cons, List.append_assoc], ?_, hr⟩
      intro d hd
      rcases List.mem_cons.1 hd with rfl | hd
      · exact hc
      · exact hl d hd

theorem exists_bytes (pattern : List UInt8) : ∃ s : SourceText, s.bytes = pattern := by
  by_cases hm : String.utf8EncodeChar CodePoint.byteOrderMark <+: pattern
  · obtain ⟨tail, rfl⟩ := hm
    obtain ⟨text, rest, rfl, hl, hr⟩ := exists_legal_text tail
    exact ⟨⟨true, text, rest, hl, hr, by simp⟩, by simp [bytes, lead]⟩
  · obtain ⟨text, rest, rfl, hl, hr⟩ := exists_legal_text pattern
    refine ⟨⟨false, text, rest, hl, hr, ?_⟩, by simp [bytes, lead]⟩
    rintro - rfl
    exact hm

theorem barred_nil : Utf8.Barred [] := by
  intro c _ hp
  have := c.utf8Size_pos
  simp [List.prefix_nil] at hp

/-- A pattern that is legal throughout. -/
def ofLegal (marked : Bool) (text : List Char) (legal : ∀ c ∈ text, CodePoint.IsLegal c) : SourceText where
  marked := marked
  text := text
  rest := []
  legal := legal
  barred := barred_nil
  unmarked := by simp [List.prefix_nil]

section
variable (s : SourceText) {before after : List Char} {x : Char}

@[simp] theorem reached_nil : s.reached [] = 0 := rfl

theorem reached_of_ne_nil (h : before ≠ []) : s.reached before = s.place before := if_neg h

@[simp] theorem reached_concat : s.reached (before ++ [x]) = s.place (before ++ [x]) := by simp [reached]

theorem place_append (before after : List Char) : s.place (before ++ after) = s.place before + size after := by
  simp [place, Nat.add_assoc]

theorem reached_le_place : s.reached before ≤ s.place (before ++ after) := by
  unfold reached
  split
  · exact Nat.zero_le _
  · rw [place_append]
    exact Nat.le_add_right _ _

theorem isValid_position : (s.position before).isValid = true := by
  have hl : 0 < 1 + before.count '\n' := by omega
  have hc : 0 < max 1 before.length := Nat.lt_of_lt_of_le Nat.one_pos (Nat.le_max_left _ _)
  simp only [position, Position.isValid, hl, hc]
  rfl

theorem length_bytes : s.bytes.length = s.place s.text + s.rest.length := by
  simp [bytes, place, Nat.add_assoc]

theorem place_le_length (h : s.text = before ++ after) : s.place before ≤ s.bytes.length := by
  rw [length_bytes, h, place_append]; omega

theorem drop_place (h : s.text = before ++ after) :
    s.bytes.drop (s.place before) = encode after ++ s.rest := by
  have hb : s.bytes = encode (s.lead ++ before) ++ (encode after ++ s.rest) := by
    simp [bytes, h]
  rw [hb]
  exact List.drop_left' rfl

theorem first?_bytes_of_marked (h : s.marked = true) :
    Utf8.first? s.bytes = some CodePoint.byteOrderMark := by
  have hb : s.bytes = encode (CodePoint.byteOrderMark :: s.text) ++ s.rest := by simp [bytes, lead, h]
  rw [hb, Utf8.first?_encode_cons]

theorem first?_bytes_ne_of_unmarked (h : s.marked = false) :
    Utf8.first? s.bytes ≠ some CodePoint.byteOrderMark := by
  have hb : s.bytes = encode s.text ++ s.rest := by simp [bytes, lead, h]
  intro hf
  rw [hb] at hf
  cases ht : s.text with
  | nil =>
    rw [ht, Utf8.first?_eq_some_iff] at hf
    exact s.unmarked h ht hf
  | cons c cs =>
    rw [ht, Utf8.first?_encode_cons] at hf
    exact (s.legal c (by simp [ht])).2 (Option.some.inj hf)

theorem strict_char (h : s.text = before ++ x :: after) :
    Decoded.strict s.bytes (s.place before) = .char x x.utf8Size := by
  have hx : CodePoint.IsLegal x := s.legal x (by simp [h])
  have hf := Utf8.first?_encode_cons x after s.rest
  rw [Decoded.strict, s.drop_place h]
  split
  · rename_i hn; simp at hn
  · rename_i b bs hb
    rw [hb] at hf
    simp [hf, Decoded.ofChar, hx.1, hx.2]

/-- What decoding finds where the text ends. -/
def ending (s : SourceText) : Decoded := s.obstacle.elim .stop .illegal

theorem strict_end : Decoded.strict s.bytes (s.place s.text) = s.ending := by
  have hd : s.bytes.drop (s.place s.text) = s.rest := s.drop_place (List.append_nil s.text).symm
  unfold Decoded.strict ending obstacle
  rw [hd]
  split
  · rename_i hr; simp [hr]
  · rename_i b bs hr
    split
    · rename_i hf; simp [hr, hf]
    · rename_i c hf
      have hp : String.utf8EncodeChar c <+: s.rest := hr ▸ Utf8.first?_eq_some_iff.1 hf
      have hc : c ≠ '\x00' → c = CodePoint.byteOrderMark := fun h0 =>
        Decidable.byContradiction fun hm => s.barred c ⟨h0, hm⟩ hp
      by_cases h0 : c = '\x00'
      · simp [hr, hf, h0, Decoded.ofChar]
      · have hm : CodePoint.byteOrderMark ≠ '\x00' := by decide
        simp [hr, hf, hc h0, hm, Decoded.ofChar]

theorem ofPattern_eq_strict (hb : before ≠ []) :
    Decoded.ofPattern s.bytes (s.reached before) = Decoded.strict s.bytes (s.place before) := by
  have hp : s.place before ≠ 0 := by simp [place, hb]
  simp [Decoded.ofPattern, reached, hb, hp]

theorem ofPattern_zero :
    Decoded.ofPattern s.bytes 0 = (Decoded.strict s.bytes (s.place [])).widen (s.place []) := by
  cases hm : s.marked with
  | true => simp [Decoded.ofPattern, s.first?_bytes_of_marked hm, place, lead, hm]
  | false =>
    have hf := s.first?_bytes_ne_of_unmarked hm
    have hw (d : Decoded) : d.widen 0 = d := by cases d <;> rfl
    simp [Decoded.ofPattern, hf, place, lead, hm, hw]

/-- A character is decoded behind the text before it, the first one together with the marker. -/
theorem ofPattern_char (h : s.text = before ++ x :: after) :
    ∃ width, Decoded.ofPattern s.bytes (s.reached before) = .char x width ∧
      s.reached before + width = s.place before + x.utf8Size := by
  by_cases hb : before = []
  · subst hb
    refine ⟨x.utf8Size + s.place [], ?_, by simp [Nat.add_comm]⟩
    rw [reached_nil, ofPattern_zero, s.strict_char h]
    rfl
  · exact ⟨x.utf8Size, by rw [s.ofPattern_eq_strict hb, s.strict_char h], by simp [reached, hb]⟩

theorem ofPattern_end : Decoded.ofPattern s.bytes (s.reached s.text) = s.ending := by
  by_cases hb : s.text = []
  · have hw : s.ending.widen (s.place []) = s.ending := by
      unfold ending; cases s.obstacle <;> rfl
    have he := s.strict_end
    rw [hb] at he ⊢
    rw [reached_nil, ofPattern_zero, he, hw]
  · rw [s.ofPattern_eq_strict hb, strict_end]

theorem withoutMarker_bytes : withoutMarker s.bytes = encode s.text ++ s.rest := by
  cases hm : s.marked with
  | true =>
    have hb : s.bytes = encode (CodePoint.byteOrderMark :: s.text) ++ s.rest := by simp [bytes, lead, hm]
    rw [withoutMarker, if_pos (s.first?_bytes_of_marked hm), hb, Utf8.encode_cons, List.append_assoc]
    exact List.drop_left' (by simp)
  | false =>
    rw [withoutMarker, if_neg (s.first?_bytes_ne_of_unmarked hm)]
    simp [bytes, lead, hm]

/-- Legal text stands at an offset only if the text goes on with it. -/
theorem encode_prefix_iff {word : List Char} (h : s.text = before ++ after)
    (hw : ∀ x ∈ word, CodePoint.IsLegal x) :
    encode word <+: s.bytes.drop (s.place before) ↔ word <+: after := by
  rw [s.drop_place h]
  constructor
  · rintro ⟨bytes, hb⟩
    rcases Utf8.encode_append_eq hb with ⟨more, rfl, -⟩ | ⟨more, rfl, hr⟩
    · exact List.prefix_append _ _
    · cases more with
      | nil => simp
      | cons x more =>
        refine absurd ?_ (s.barred x (hw x (by simp)))
        rw [hr, Utf8.encode_cons, List.append_assoc]
        exact List.prefix_append _ _
  · rintro ⟨more, rfl⟩
    rw [Utf8.encode_append, List.append_assoc]
    exact List.prefix_append _ _

/-- What ends the text does not prolong a run of legal characters. -/
theorem takeWhile_unread {p : Char → Bool} (hp : ∀ x, p x = true → CodePoint.IsLegal x) (after : List Char) :
    (after ++ Utf8.wellFormedPart s.rest).takeWhile p = after.takeWhile p := by
  refine takeWhile_append_of_head after fun x hx => Bool.eq_false_iff.2 fun hb => ?_
  rw [Utf8.head?_wellFormedPart] at hx
  exact s.barred x (hp x hb) (Utf8.first?_eq_some_iff.1 hx)

/-- The text of the bytes between two places. -/
theorem text_between {following : List Char} (h : s.text = before ++ (after ++ following)) :
    Utf8.text ((s.bytes.drop (s.place before)).take (s.place (before ++ after) - s.place before)) =
      String.ofList after := by
  have ht : (encode (after ++ following) ++ s.rest).take (size after) = encode after := by
    rw [Utf8.encode_append, List.append_assoc]
    exact List.take_left' rfl
  rw [s.drop_place h, place_append, Nat.add_sub_cancel_left, ht, Utf8.text_encode]

end
end SourceText
end RoutePattern
