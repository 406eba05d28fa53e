import RoutePattern.Proofs.UnreadText

/-!
# Decoding is exact

Four bytes tell which character stands in front of a byte list. What a cursor decodes depends on that character
alone, and where there is none the encoding is illegal. So a legal text is read back character by character.
-/
namespace RoutePattern
open Utf8 (encode size first?)

namespace Utf8

/-- Gives the longest text whose encoding stands in front of the bytes. -/
structure GivesLongest (valid : List UInt8 → List Char) : Prop where
  fits : ∀ bytes, encode (valid bytes) <+: bytes
  longest : ∀ bytes text, encode text <+: bytes → size text ≤ size (valid bytes)

section
variable {valid : List UInt8 → List Char} {bytes : List UInt8} {c : Char} {cs : List Char}

theorem isPrefix_of_encode_cons (h : encode (c :: cs) <+: bytes) : String.utf8EncodeChar c <+: bytes :=
  (List.prefix_append (String.utf8EncodeChar c) (encode cs)).trans h

/-- The longest text starts with the first character. -/
theorem GivesLongest.head? (h : GivesLongest valid) (bytes : List UInt8) : (valid bytes).head? = first? bytes := by
  have hfits := h.fits bytes
  cases hv : valid bytes with
  | nil =>
    refine (Option.eq_none_iff_forall_ne_some.2 fun c hc => ?_).symm
    have hle : size [c] ≤ size (valid bytes) := h.longest bytes [c] (by simpa using first?_eq_some_iff.1 hc)
    have := c.utf8Size_pos
    simp [hv] at hle
    omega
  | cons c cs =>
    rw [hv] at hfits
    exact (first?_eq_some_iff.2 (isPrefix_of_encode_cons hfits)).symm

theorem first?_take_four (bytes : List UInt8) : first? (bytes.take 4) = first? bytes := by
  rw [first?, List.take_take]
  rfl

/-- The window cuts what stands behind the first character, which changes nothing. -/
theorem GivesLongest.window (h : GivesLongest valid) (bytes : List UInt8) :
    (valid (bytes.take 4)).head? = first? bytes ∧ (valid bytes).head? = first? bytes :=
  ⟨(h.head? _).trans (first?_take_four bytes), h.head? bytes⟩

theorem encode_wellFormedPart (bytes : List UInt8) : encode (wellFormedPart bytes) <+: bytes := by
  fun_induction wellFormedPart bytes with
  | case1 => exact List.nil_prefix
  | case2 bytes c hc ih =>
    obtain ⟨tail, rfl⟩ := first?_eq_some_iff.1 hc
    have hd : (String.utf8EncodeChar c ++ tail).drop c.utf8Size = tail := List.drop_left' (by simp)
    rw [hd] at ih ⊢
    exact (List.prefix_append_right_inj _).2 ih

theorem givesLongest_wellFormedPart : GivesLongest wellFormedPart where
  fits := encode_wellFormedPart
  longest := by
    rintro bytes text ⟨tail, rfl⟩
    rw [wellFormedPart_encode_append, size_append]
    exact Nat.le_add_right _ _

theorem first?_eq_none_iff : first? bytes = none ↔ ∀ x, ¬ String.utf8EncodeChar x <+: bytes := by
  simp only [Option.eq_none_iff_forall_ne_some, ne_eq, first?_eq_some_iff]

theorem not_prefix_nil (x : Char) : ¬ String.utf8EncodeChar x <+: [] := by
  rw [← first?_eq_some_iff, first?_nil]
  exact nofun

end
end Utf8

namespace Decoded

section
variable {pattern : List UInt8} {offset n width : Nat} {x c : Char} {e : Failure} {d : Decoded}

theorem ofChar_eq_char_iff : ofChar c offset = .char x width ↔ c = x ∧ CodePoint.IsLegal x ∧ width = x.utf8Size := by
  unfold ofChar
  split
  · rename_i hc
    exact iff_of_false Decoded.noConfusion fun ⟨hx, hl, _⟩ => hl.1 (hx ▸ hc)
  · split
    · rename_i hc
      exact iff_of_false Decoded.noConfusion fun ⟨hx, hl, _⟩ => hl.2 (hx ▸ hc)
    · rename_i hn hm
      constructor
      · intro h
        cases h
        exact ⟨rfl, ⟨hn, hm⟩, rfl⟩
      · rintro ⟨rfl, -, rfl⟩
        rfl

theorem ofChar_ne_encoding : ofChar c offset ≠ .illegal (.illegalEncoding n) := by
  unfold ofChar
  split
  · simp
  · split <;> simp

theorem strict_of_nil (h : pattern.drop offset = []) : strict pattern offset = .stop := by
  unfold strict
  rw [h]

theorem strict_of_ne_nil (h : pattern.drop offset ≠ []) : strict pattern offset =
    (first? (pattern.drop offset)).elim (.illegal (.illegalEncoding offset)) (ofChar · offset) := by
  unfold strict
  obtain ⟨b, bytes, hb⟩ := List.exists_cons_of_ne_nil h
  rw [hb]
  dsimp only
  cases first? (b :: bytes) <;> rfl

theorem strict_eq_char_iff : strict pattern offset = .char x width ↔
    String.utf8EncodeChar x <+: pattern.drop offset ∧ CodePoint.IsLegal x ∧ width = x.utf8Size := by
  by_cases hn : pattern.drop offset = []
  · rw [strict_of_nil hn, hn]
    exact iff_of_false Decoded.noConfusion fun h => Utf8.not_prefix_nil x h.1
  · rw [strict_of_ne_nil hn, ← Utf8.first?_eq_some_iff]
    cases first? (pattern.drop offset) with
    | none => exact iff_of_false Decoded.noConfusion fun h => nomatch h.1
    | some c =>
      rw [Option.some_inj]
      exact ofChar_eq_char_iff

theorem strict_eq_encoding_iff : strict pattern offset = .illegal (.illegalEncoding n) ↔
    (pattern.drop offset ≠ [] ∧ ∀ x, ¬ String.utf8EncodeChar x <+: pattern.drop offset) ∧ n = offset := by
  by_cases hn : pattern.drop offset = []
  · rw [strict_of_nil hn]
    exact iff_of_false Decoded.noConfusion fun h => h.1.1 hn
  · rw [strict_of_ne_nil hn, ← Utf8.first?_eq_none_iff]
    cases first? (pattern.drop offset) with
    | none => simp [hn, eq_comm]
    | some c => exact iff_of_false ofChar_ne_encoding fun h => nomatch h.1.2

theorem widen_eq_char_iff : d.widen n = .char x width ↔ ∃ w, d = .char x w ∧ w + n = width := by
  cases d with
  | stop | illegal => exact iff_of_false Decoded.noConfusion fun ⟨_, h, _⟩ => Decoded.noConfusion h
  | char c w => simp [widen, and_assoc]

theorem widen_eq_illegal_iff : d.widen n = .illegal e ↔ d = .illegal e := by
  cases d <;> simp [widen]

/-- A marker in front is decoded together with what stands behind it. -/
theorem ofPattern_marked (h : String.utf8EncodeChar CodePoint.byteOrderMark <+: pattern) :
    ofPattern pattern 0 = (strict pattern 3).widen 3 := if_pos ⟨rfl, Utf8.first?_eq_some_iff.2 h⟩

theorem ofPattern_unmarked (h : ¬ (offset = 0 ∧ String.utf8EncodeChar CodePoint.byteOrderMark <+: pattern)) :
    ofPattern pattern offset = strict pattern offset := if_neg (by rwa [Utf8.first?_eq_some_iff])

/-- A marker in front is no exception, since what is decoded there is wider than the character. -/
theorem ofPattern_eq_char_iff : ofPattern pattern offset = .char x x.utf8Size ↔
    String.utf8EncodeChar x <+: pattern.drop offset ∧ CodePoint.IsLegal x := by
  by_cases hm : offset = 0 ∧ String.utf8EncodeChar CodePoint.byteOrderMark <+: pattern
  · obtain ⟨rfl, hm⟩ := hm
    rw [ofPattern_marked hm, widen_eq_char_iff]
    refine iff_of_false ?_ fun ⟨hx, hl⟩ => hl.2 (Utf8.eq_of_isPrefix hx hm)
    rintro ⟨w, hs, hw⟩
    have := (strict_eq_char_iff.1 hs).2.2
    omega
  · rw [ofPattern_unmarked hm, strict_eq_char_iff]
    simp

theorem ofPattern_eq_encoding_iff : ofPattern pattern offset = .illegal (.illegalEncoding offset) ↔
    pattern.drop offset ≠ [] ∧ ∀ x, ¬ String.utf8EncodeChar x <+: pattern.drop offset := by
  by_cases hm : offset = 0 ∧ String.utf8EncodeChar CodePoint.byteOrderMark <+: pattern
  · obtain ⟨rfl, hm⟩ := hm
    rw [ofPattern_marked hm, widen_eq_illegal_iff, strict_eq_encoding_iff]
    exact iff_of_false (fun h => by cases h.2) fun h => h.2 _ hm
  · rw [ofPattern_unmarked hm, strict_eq_encoding_iff]
    simp

end
end Decoded

namespace Cursor

/-- What a cursor decodes, by the bytes from its read offset on, and the failures that decoding leads to. -/
structure DecodesExactly (c : Cursor) : Prop where
  char : ∀ x, c.next = .char x x.utf8Size ↔
    String.utf8EncodeChar x <+: c.pattern.drop c.readOffset ∧ x ≠ '\x00' ∧ x ≠ CodePoint.byteOrderMark
  encoding : c.next = .illegal (.illegalEncoding c.readOffset) ↔
    c.pattern.drop c.readOffset ≠ [] ∧ ∀ x, ¬ String.utf8EncodeChar x <+: c.pattern.drop c.readOffset
  latched : ∀ e, (c.advance.failure = some e ↔ c.next = .illegal e) ∧
    (c.lookahead = none → (c.look.failure = some e ↔ c.next = .illegal e))
  marked : c.readOffset = 0 → String.utf8EncodeChar CodePoint.byteOrderMark <+: c.pattern →
    c.next = ({ c with readOffset := 3 } : Cursor).next.widen 3

/-- What so many steps show one after the other. -/
def stepped : Nat → Cursor → List (CodePoint × Option Failure)
  | 0, _ => []
  | n + 1, c => (c.advance.current, c.advance.failure) :: stepped n c.advance

section
variable {s : SourceText} {before after text : List Char} {c : Cursor}

theorem next_of_unfailed (h : c.failure = none) : c.next = .ofPattern c.pattern c.readOffset := by simp [next, h]

theorem failure_advance_iff (h : c.failure = none) (e : Failure) :
    c.advance.failure = some e ↔ c.next = .illegal e := by
  unfold Cursor.advance
  cases c.next with
  | stop => simp [finish, h]
  | char => simp [moveTo, h]
  | illegal f => simp [finish, failure_fail_of_none h]

theorem failure_look_iff (h : c.failure = none) (hl : c.lookahead = none) (e : Failure) :
    c.look.failure = some e ↔ c.next = .illegal e := by
  unfold Cursor.look
  rw [hl]
  cases c.next with
  | stop => simp [h]
  | char => simp [h]
  | illegal f => simp [failure_fail_of_none h]

theorem decodesExactly (h : c.failure = none) : DecodesExactly c where
  char x := by
    rw [next_of_unfailed h]
    exact Decoded.ofPattern_eq_char_iff
  encoding := by
    rw [next_of_unfailed h]
    exact Decoded.ofPattern_eq_encoding_iff
  latched e := ⟨failure_advance_iff h e, fun hl => failure_look_iff h hl e⟩
  marked hr hm := by
    have hbehind : ({ c with readOffset := 3 } : Cursor).next = .ofPattern c.pattern 3 := next_of_unfailed h
    have hstrict : Decoded.ofPattern c.pattern 3 = .strict c.pattern 3 := Decoded.ofPattern_unmarked (by simp)
    rw [next_of_unfailed h, hr, hbehind, hstrict, Decoded.ofPattern_marked hm]

theorem Ended.stepped (h : Ended s c) (n : Nat) : c.stepped n = List.replicate n (.eof, none) := by
  induction n generalizing c with
  | zero => rfl
  | succ n ih => rw [Cursor.stepped, h.advance.current, h.advance.failure, ih h.advance, List.replicate_succ]

/-- Steps show the rest of the text and then the end. -/
theorem Behind.stepped (h : Behind s before after c) (ho : s.obstacle = none) (n : Nat) :
    c.stepped (after.length + n) = after.map (fun x => (.char x, none)) ++ List.replicate n (.eof, none) := by
  induction after generalizing before c with
  | nil =>
    cases n with
    | zero => rfl
    | succ n =>
      have he := h.advance_spent.ended ho
      rw [List.length_nil, Nat.zero_add, Cursor.stepped, he.current, he.failure, he.stepped]
      rfl
  | cons x after ih =>
    have hx := h.advance
    rw [List.length_cons, Nat.add_right_comm, Cursor.stepped, hx.currentChar, hx.failure, ih hx.toBehind]
    rfl

theorem stepped_encode (h : ∀ x ∈ text, CodePoint.IsLegal x) (n : Nat) : (start (encode text)).stepped
    (text.length + n) = text.map (fun x => (.char x, none)) ++ List.replicate n (.eof, none) := by
  let s := SourceText.ofLegal false text h
  have hb : s.bytes = encode text := List.append_nil _
  have hs := behind_start s
  rw [hb] at hs
  exact hs.stepped (s.obstacle_eq_none.2 rfl) n

/-- Decoding through a window is exact, and so steps over an encoded text give the text and then the end. -/
theorem decode_exact (h : c.failure = none) : DecodesExactly c ∧
    (∀ valid, Utf8.GivesLongest valid → ∀ bytes : List UInt8,
      (valid (bytes.take 4)).head? = first? bytes ∧ (valid bytes).head? = first? bytes) ∧
    ∀ text : List Char, (∀ x ∈ text, CodePoint.IsLegal x) → ∀ n, (start (encode text)).stepped (text.length + n) =
      text.map (fun x => (.char x, none)) ++ List.replicate n (.eof, none) :=
  ⟨decodesExactly h, fun _ hv => hv.window, fun _ => stepped_encode⟩

/-- A surrogate is refused, a window may cut a character in two, and characters of different widths are read. -/
theorem decode_exact_surrogate :
    let c := (start [0x2F, 0xED, 0xA0, 0x80]).advance
    c.failure = none ∧ c.advance.failure = some (.illegalEncoding 1) ∧
      (∀ x, ¬ String.utf8EncodeChar x <+: [0xED, 0xA0, 0x80]) ∧
      (Utf8.wellFormedPart ([0x61, 0x62, 0x63, 0xC3, 0xA9].take 4)).head? = first? [0x61, 0x62, 0x63, 0xC3, 0xA9] ∧
      (start (encode ['é', '/'])).stepped 3 = [(.char 'é', none), (.char '/', none), (.eof, none)] := by
  intro c
  have h : c.failure = none := by decide +kernel
  have hnext : c.next = .illegal (.illegalEncoding c.readOffset) := by decide +kernel
  obtain ⟨hd, hwindow, hsteps⟩ := decode_exact h
  exact ⟨h, (hd.latched _).1.2 hnext, (hd.encoding.1 hnext).2, (hwindow _ Utf8.givesLongest_wellFormedPart _).1,
    hsteps ['é', '/'] (CodePoint.isLegal_of_all (by decide)) 1⟩

end
end Cursor
end RoutePattern
