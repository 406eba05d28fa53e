import Mathlib.Data.List.Flatten
import RoutePattern.Proofs.IllegalInput
import RoutePattern.Proofs.TokenPositions

/-!
# What a literal covers

The literal of a token comes from the bytes that its call has consumed: from those between where the call starts to
read and where the token ends. There is one exception. A call that fails at a NUL or at a byte order marker inside
of quotes or parentheses takes all that can be read behind them, the illegal character included.
-/
namespace RoutePattern
open SourceText EnclosedText
open Utf8 (encode size first? wellFormedPart)

/-- The literal of a token comes from the bytes between an offset and the end of the token. -/
structure Token.Covers (t : Token) (pattern : List UInt8) (first : Nat) : Prop where
  excerpt : ∃ start part, first ≤ start ∧ encode part <+: pattern.drop start ∧ start + size part ≤ t.stop.offset ∧
    Excerpt part t.literal.toList
  length : first + size t.literal.toList ≤ t.stop.offset
  legal : ∀ x ∈ t.literal.toList, CodePoint.IsLegal x

/-- The literal of a token comes from all that can be read behind an offset, over an illegal character. -/
structure Token.Overruns (t : Token) (pattern : List UInt8) (first : Nat) (e : Failure) : Prop where
  character : e = .illegalNul e.offset ∨ e = .illegalMarker e.offset
  excerpt : ∃ start, first ≤ start ∧ start < e.offset ∧
    Excerpt (wellFormedPart (pattern.drop start)) t.literal.toList

section
variable {part literal : List Char}

theorem sublist_escape (quote : Char) (cs : List Char) : cs.Sublist (escape quote cs) := by
  have h : (cs.flatMap fun x => [x]).Sublist (escape quote cs) :=
    List.Sublist.flatMap_right cs fun x _ => by split <;> simp
  rwa [List.flatMap_singleton'] at h

theorem Excerpt.sublist (h : Excerpt part literal) : literal.Sublist part := by
  cases h with
  | verbatim => exact .refl _
  | unescaped _ hl => exact hl ▸ sublist_escape _ _
  | trimmed ht =>
    obtain ⟨front, back, rfl, -⟩ := ht.split
    exact (List.sublist_append_right front literal).trans (List.sublist_append_left _ back)

theorem Utf8.size_le_of_sublist (h : literal.Sublist part) : size literal ≤ size part :=
  (h.flatMap String.utf8EncodeChar).length_le

end

section
variable {s : SourceText} {before text front part rest : List Char} {t : Token} {pattern : List UInt8} {first : Nat}

theorem Token.covers_of_empty (hl : t.literal = "") (hs : first ≤ t.stop.offset) : t.Covers pattern first where
  excerpt := ⟨first, [], Nat.le_refl _, List.nil_prefix, hs, hl ▸ .verbatim⟩
  length := by rw [hl]; exact hs
  legal x hx := by rw [hl] at hx; cases hx

/-- A literal from a part of the text is covered, if the token ends behind that part. -/
theorem Token.covers_of_yields (ht : s.text = before ++ (text ++ rest)) (hy : Yields text t.literal.toList)
    (hs : s.reached (before ++ text) ≤ t.stop.offset) : t.Covers s.bytes (s.reached before) := by
  obtain ⟨front, part, back, rfl, he⟩ := hy
  have hreached : s.reached (before ++ front ++ part) ≤ t.stop.offset :=
    Nat.le_trans (s.reached_mono ⟨back, by simp⟩) hs
  have hfirst : s.reached before ≤ s.reached (before ++ front ++ part) := s.reached_mono ⟨front ++ part, by simp⟩
  by_cases hn : part = []
  · subst hn
    refine covers_of_empty (String.toList_eq_nil_iff.1 (List.sublist_nil.1 he.sublist)) (Nat.le_trans hfirst hreached)
  · have htext : s.text = before ++ front ++ (part ++ (back ++ rest)) := by simp [ht]
    rw [s.reached_of_ne_nil (List.append_ne_nil_of_right_ne_nil _ hn), s.place_append] at hreached
    have hstart : s.reached before ≤ s.place (before ++ front) := s.reached_le_place
    have hsize := Utf8.size_le_of_sublist he.sublist
    refine ⟨⟨s.place (before ++ front), part, hstart, ?_, hreached, he⟩, by omega, fun x hx => ?_⟩
    · rw [s.drop_place htext, Utf8.encode_append, List.append_assoc]
      exact List.prefix_append _ _
    · exact s.legal x (by simp [htext, he.sublist.subset hx])

/-- A character that can be read where the text ends is an illegal one. -/
theorem SourceText.obstacle_of_first? {c : Char} (h : first? s.rest = some c) :
    s.obstacle = some (.illegalNul (s.place s.text)) ∨ s.obstacle = some (.illegalMarker (s.place s.text)) := by
  have hn : s.rest ≠ [] := s.rest_ne_nil h
  rw [obstacle, if_neg hn, h]
  dsimp only
  split
  · exact .inl rfl
  · exact .inr rfl

/-- A literal that is taken up to the end of the text is covered, or runs on over the character that ends the text. -/
theorem SourceText.Takes.covers {e : Failure} (h : s.Takes text t.literal) (ht : s.text = before ++ text)
    (hs : t.stop.offset = s.reached s.text) :
    t.Covers s.bytes (s.reached before) ∨ t.Overruns s.bytes (s.reached before) (s.obstacle.getD e) := by
  have hend : s.text = before ++ (text ++ []) := by rw [List.append_nil, ht]
  have hcovers (hy : Yields text t.literal.toList) : t.Covers s.bytes (s.reached before) :=
    Token.covers_of_yields hend hy (Nat.le_of_eq (hs.trans (congrArg s.reached ht)).symm)
  cases h with
  | inside hy => exact .inl (hcovers hy)
  | beyond front part htext hn he =>
    cases hf : first? s.rest with
    | none =>
      rw [Utf8.wellFormedPart_of_none hf, List.append_nil] at he
      exact .inl (hcovers (by simpa [htext] using he.yields.mono front []))
    | some c =>
      have hsplit : s.text = before ++ front ++ part := by rw [ht, htext, List.append_assoc]
      have hsize : 0 < size part := Nat.pos_of_ne_zero fun h0 => hn (Utf8.size_eq_zero.1 h0)
      have hoffset {o : Failure} (ho : o.offset = s.place s.text) : ∃ start, s.reached before ≤ start ∧
          start < o.offset ∧ Excerpt (wellFormedPart (s.bytes.drop start)) t.literal.toList := by
        refine ⟨s.place (before ++ front), s.reached_le_place, ?_, ?_⟩
        · rw [ho, hsplit, s.place_append (before ++ front)]
          omega
        · rwa [s.drop_place hsplit, Utf8.wellFormedPart_encode_append]
      rcases s.obstacle_of_first? hf with ho | ho
      · rw [ho]
        exact .inr ⟨.inl rfl, hoffset rfl⟩
      · rw [ho]
        exact .inr ⟨.inr rfl, hoffset rfl⟩

end

namespace Scanner

section
variable {s : SourceText} {before after done : List Char} {scanner : Scanner} {e : Failure}

theorem stop_of_placed (h : Cursor.Placed s done scanner.step.scanner.cursor) :
    scanner.step.token.stop.offset = s.reached done := by
  rw [stop_step, h.position]
  rfl

theorem Ready.covers (h : Ready s before after scanner) :
    scanner.step.token.Covers s.bytes scanner.cursor.readOffset ∨
      ∃ e, scanner.step.scanner.failure = some e ∧ scanner.step.token.Overruns s.bytes scanner.cursor.readOffset e := by
  have ht := h.behind.text
  rw [h.behind.readOffset]
  cases h.outlook with
  | @fits k rest htext hk =>
    subst htext
    have hy : Yields k.text (String.ofList k.literal).toList := by
      simpa [Chunk.text] using hk.spelling.yields.mono k.blanks []
    rcases h.step_reads hk with ⟨hp, -⟩ | hb
    · rw [hp.token]
      exact .inl (Token.covers_of_yields ht hy (Nat.le_refl _))
    · obtain ⟨e, -, hc⟩ := hb.halted
      refine .inl (Token.covers_of_yields ht (hb.literal ▸ hy) ?_)
      rw [stop_of_placed hc.toPlaced]
      exact s.reached_mono ⟨rest, by rw [ht, List.append_assoc]⟩
  | dead rest htext hd =>
    subst htext
    obtain ⟨hy, hc⟩ := h.step_dead hd
    refine .inl (Token.covers_of_yields ht hy ?_)
    rw [stop_of_placed hc.toPlaced]
    exact s.reached_mono (List.prefix_append _ _)
  | «open» ho =>
    obtain ⟨hl, e, -, hc⟩ := h.step_open ho
    rcases hl.covers (e := e) ht (stop_of_placed hc.toPlaced) with hcovers | hover
    · exact .inl hcovers
    · exact .inr ⟨_, hc.failure, hover⟩

/-- Where a call reads nothing, its token is empty. -/
theorem covers_endOfInput {pattern : List UInt8} (hp : Cursor.Placed s done scanner.cursor)
    (ht : scanner.step.token = .endOfInput scanner.cursor.position) :
    scanner.step.token.Covers pattern scanner.cursor.readOffset := by
  rw [ht]
  refine Token.covers_of_empty rfl ?_
  rw [hp.readOffset]
  show _ ≤ scanner.cursor.position.offset
  rw [hp.position]
  exact Nat.le_refl _

end
end Scanner

/-- A token covers text that its call has consumed, unless the call fails at a NUL or a marker and runs on over it. -/
theorem literal_covers {pattern : List UInt8} {scanner : Scanner} (h : scanner.Reached pattern) :
    scanner.step.token.Covers pattern scanner.cursor.readOffset ∨ scanner.failure = none ∧
      ∃ e, scanner.step.scanner.failure = some e ∧
        scanner.step.token.Overruns pattern scanner.cursor.readOffset e := by
  obtain ⟨s, rfl⟩ := SourceText.exists_bytes pattern
  have hstanding := h.standing
  cases hstanding with
  | ready hr =>
    rcases hr.covers with hcovers | hover
    · exact .inl hcovers
    · exact .inr ⟨hr.failure, hover⟩
  | ended he hm =>
    exact .inl (Scanner.covers_endOfInput (s := s) ⟨List.prefix_rfl, he.pattern, he.position, he.readOffset⟩
      (Scanner.step_of_ended he hm).1)
  | failed hf hp => exact .inl (Scanner.covers_endOfInput hp (by rw [Scanner.step_of_failure hf]))

/-- The scanner in front of quoted text with an escape. -/
def Scanner.beforeEscape : Scanner := (start (encode "/:'it\x5c's'".toList)).step.scanner.step.scanner

theorem literal_covers_escape : Scanner.beforeEscape.Reached (encode "/:'it\x5c's'".toList) ∧
    Scanner.beforeEscape.step.token.literal = "it's" ∧
    Scanner.beforeEscape.step.token.Covers (encode "/:'it\x5c's'".toList) 2 := by
  have hr : Scanner.beforeEscape.Reached (encode "/:'it\x5c's'".toList) := .step (.step .start)
  have hf : Scanner.beforeEscape.step.scanner.failure = none := by decide +kernel
  have ho : Scanner.beforeEscape.cursor.readOffset = 2 := by decide +kernel
  refine ⟨hr, by decide +kernel, ?_⟩
  rcases literal_covers hr with hcovers | ⟨-, e, he, -⟩
  · exact ho ▸ hcovers
  · cases hf.symm.trans he

/-- The scanner in front of quoted text with a NUL. -/
def Scanner.beforeNul : Scanner := (start (encode "/:'a\x00bc".toList)).step.scanner.step.scanner

/-- A NUL inside of quotes becomes a part of the literal, and so does what stands behind it. -/
theorem literal_overruns_nul : Scanner.beforeNul.Reached (encode "/:'a\x00bc".toList) ∧
    Scanner.beforeNul.cursor.readOffset = 2 ∧
    Scanner.beforeNul.step.token = ⟨.string, "a\x00bc", ⟨1, 2, 2⟩, ⟨1, 4, 4⟩⟩ ∧
    Scanner.beforeNul.step.scanner.failure = some (.illegalNul 4) ∧
    ¬ Scanner.beforeNul.step.token.Covers (encode "/:'a\x00bc".toList) Scanner.beforeNul.cursor.readOffset := by
  have ht : Scanner.beforeNul.step.token = ⟨.string, "a\x00bc", ⟨1, 2, 2⟩, ⟨1, 4, 4⟩⟩ := by decide +kernel
  refine ⟨.step (.step .start), by decide +kernel, ht, by decide +kernel, fun hc => ?_⟩
  have hnul : CodePoint.IsLegal '\x00' := hc.legal _ (by rw [ht]; decide +kernel)
  exact hnul.1 rfl

end RoutePattern
