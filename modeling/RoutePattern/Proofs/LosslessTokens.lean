import RoutePattern.Proofs.ScanRuns

/-!
# Nothing of a pattern is lost

A pattern that is scanned is made up of its tokens as they are written, with whitespace in front of them
only where a path goes on, and each token ends where its chunk does.
-/
namespace RoutePattern
open SourceText

/-- A chunk is a token as it is written in a mode. -/
structure Chunk.Spells (k : Chunk) (mode : Mode) (t : Token) : Prop where
  lexeme : k.lexeme = t.lexeme
  literal : t.literal = String.ofList k.literal
  spelling : Spelling k.lexeme k.literal k.spelling
  blanks : ∀ x ∈ k.blanks, AsciiTrait.blank x = true
  front : k.blanks ≠ [] → mode ≠ .pattern ∧ k.lexeme ≠ .method

/-- A pattern is the text of its tokens. A marker that stands alone is read with nothing behind it, so
that no token ends there. -/
structure Lossless (lead : List Char) (ks : List Chunk) (pattern : List UInt8) (ts : List Token) : Prop where
  marker : lead = [] ∨ lead = [CodePoint.byteOrderMark]
  bytes : pattern = Utf8.encode (lead ++ ks.flatMap Chunk.text)
  length : ks.length = ts.length
  spells : ∀ (i : Nat) (k : Chunk) (t : Token), ks[i]? = some k → ts[i]? = some t →
    k.Spells (Mode.reset.before (ts.map Token.lexeme) i) t
  stops : pattern ≠ Utf8.encode [CodePoint.byteOrderMark] →
    ∀ (i : Nat) (t : Token), ts[i]? = some t → t.stop.offset = Utf8.size (lead ++ Chunk.textUpTo ks (i + 1))

section
variable {s : SourceText} {ks : List Chunk} {pattern : List UInt8} {ts : List Token}

theorem SourceText.Tokenized.spells (h : s.Tokenized ks pattern ts) {i : Nat} {k : Chunk} {t : Token}
    (hk : ks[i]? = some k) (ht : ts[i]? = some t) : k.Spells (Mode.reset.before (ts.map Token.lexeme) i) t := by
  obtain ⟨k', hk', rfl, hf⟩ := h.exists_chunk ht
  obtain rfl : k' = k := Option.some.inj (hk'.symm.trans hk)
  exact ⟨rfl, rfl, hf.spelling, hf.blanks, hf.front⟩

/-- Text that ends nowhere is all there is. -/
theorem SourceText.Tokenized.text_eq_nil (h : s.Tokenized ks pattern ts) {i : Nat} {t : Token}
    (ht : ts[i]? = some t) (hn : Chunk.textUpTo ks (i + 1) = []) : s.text = [] := by
  obtain ⟨k, hk, rfl, hf⟩ := h.exists_chunk ht
  have hempty : k.text = [] := by
    rw [textUpTo_succ hk] at hn
    exact (List.append_eq_nil_iff.1 hn).2
  have hl : k.lexeme = .endOfInput := Decidable.byContradiction fun hl => hf.text_ne_nil hl hempty
  obtain ⟨-, -, hr⟩ := hf.finish_of_endOfInput hl
  rw [h.text_at hk, hn, hr]
  rfl

theorem SourceText.Tokenized.stops (h : s.Tokenized ks pattern ts)
    (hp : pattern ≠ Utf8.encode [CodePoint.byteOrderMark]) {i : Nat} {t : Token} (ht : ts[i]? = some t) :
    t.stop.offset = Utf8.size (s.lead ++ Chunk.textUpTo ks (i + 1)) := by
  rw [h.stop_offset ht, reached]
  split
  · rename_i hn
    have htext : ks.flatMap Chunk.text = [] := h.text.symm.trans (h.text_eq_nil ht hn)
    cases hm : s.marked with
    | true =>
      refine absurd ?_ hp
      rw [h.bytes_eq, htext, SourceText.lead, hm]
      rfl
    | false => simp [hn, SourceText.lead, hm]
  · rfl

end

theorem scan_lossless {pattern : List UInt8} {ts : List Token} (h : scan pattern = .ok ts) :
    ∃ lead ks, Lossless lead ks pattern ts := by
  obtain ⟨s, ks, hs⟩ := scan_ok h
  refine ⟨s.lead, ks, ?_, hs.bytes_eq, ?_, fun _ _ _ => hs.spells, fun hp _ _ => hs.stops hp⟩
  · unfold SourceText.lead
    split
    · exact .inr rfl
    · exact .inl rfl
  · rw [hs.tokens, length_tokens]

theorem scan_lossless_marked : ∃ lead ks,
    Lossless lead ks (Utf8.encode (CodePoint.byteOrderMark :: "GET /\x7bid:(a|(b))\x7d ".toList))
      [⟨.method, "GET", ⟨1, 1, 0⟩, ⟨1, 4, 7⟩⟩, ⟨.slash, "/", ⟨1, 4, 7⟩, ⟨1, 5, 8⟩⟩,
       ⟨.leftBrace, "\x7b", ⟨1, 5, 8⟩, ⟨1, 6, 9⟩⟩, ⟨.identifier, "id", ⟨1, 6, 9⟩, ⟨1, 8, 11⟩⟩,
       ⟨.colon, ":", ⟨1, 8, 11⟩, ⟨1, 9, 12⟩⟩, ⟨.regexp, "a|(b)", ⟨1, 9, 12⟩, ⟨1, 16, 19⟩⟩,
       ⟨.rightBrace, "\x7d", ⟨1, 16, 19⟩, ⟨1, 17, 20⟩⟩, ⟨.endOfInput, "", ⟨1, 18, 21⟩, ⟨1, 18, 21⟩⟩] :=
  scan_lossless (scan_eq_ok (by decide +kernel))

end RoutePattern
