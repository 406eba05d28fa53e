import RoutePattern.Proofs.ScanRuns

/-!
# Tokens are as long as they can be

A run takes all characters of its class, so that none follows it. Every other token without quotes or
parentheses is a single character of its own lexeme, and the mode decides which lexemes can follow.
-/
namespace RoutePattern
open SourceText

/-- The code point that stands at an offset. -/
def codePointAt (pattern : List UInt8) (offset : Nat) : CodePoint :=
  (Utf8.first? (pattern.drop offset)).elim .eof .char

/-- A token covers all of its run, with nothing behind it that the run could go on with. -/
def Token.Whole (pattern : List UInt8) (t : Token) : Prop :=
  match t.lexeme with
  | .segment =>
    (∀ x ∈ t.literal.toList, (CodePoint.char x).isSegment = true ∧ x ≠ '\x7b') ∧
      t.literal.toList.head? ≠ some ':' ∧
      (t.stop.offset = pattern.length ∨ ∃ x, codePointAt pattern t.stop.offset = .char x ∧
        (x = '/' ∨ x = '\x7b' ∨ (CodePoint.char x).isWhitespace = true))
  | .identifier =>
    (∃ x xs, t.literal.toList = x :: xs ∧ (CodePoint.char x).isIdentifierStart = true ∧
      (CodePoint.char x).isUpper = false ∧ ∀ y ∈ xs, (CodePoint.char y).isIdentifier = true) ∧
      (codePointAt pattern t.stop.offset).isIdentifier = false
  | .number =>
    (∃ x xs, t.literal.toList = x :: xs ∧ x.isDigit = true ∧ ∀ y ∈ xs, (CodePoint.char y).isDigit = true) ∧
      (codePointAt pattern t.stop.offset).isDigit = false
  | .literal =>
    t.literal.toList ≠ [] ∧ (∀ x ∈ t.literal.toList, (CodePoint.char x).classify = .literal) ∧
      (codePointAt pattern t.stop.offset).classify ≠ .literal
  | .method | .string | .regexp | .endOfInput => True
  | l => ∃ x, t.literal.toList = [x] ∧ (CodePoint.char x).classify = l

/-- How tokens lie in a pattern and behind each other. -/
structure MaximalMunch (pattern : List UInt8) (ts : List Token) : Prop where
  whole : ∀ t ∈ ts, t.Whole pattern
  follows : ∀ (i : Nat) (t u : Token), ts[i]? = some t → ts[i + 1]? = some u →
    t.lexeme ∈ [.slash, .segment, .method, .rightBrace] →
    u.lexeme ∈ [.colon, .slash, .leftBrace, .segment, .endOfInput]
  paths : ∀ (i : Nat) (t : Token), ts[i]? = some t → t.lexeme ∈ [.segment, .method] →
    Mode.reset.before (ts.map Token.lexeme) i ≠ .pattern
  never : ∀ t ∈ ts, t.lexeme ∉ [.invalid, .digit, .leftParen, .backquote, .singleQuote, .doubleQuote]

namespace Fits

section
variable {pattern : List UInt8} {mode : Mode} {k : Chunk} {rest : List Char} {t : Token}

/-- A single character of its own lexeme is a whole token. -/
theorem whole_single {x : Char} (hx : (CodePoint.char x).classify ∈ Lexeme.singles)
    (hl : t.lexeme = (CodePoint.char x).classify) (ht : t.literal = String.ofList [x]) : t.Whole pattern := by
  have hs : ∃ y, t.literal.toList = [y] ∧ (CodePoint.char y).classify = t.lexeme :=
    ⟨x, by rw [ht, String.toList_ofList], hl.symm⟩
  rw [← hl] at hx
  unfold Token.Whole
  generalize t.lexeme = l at hs hx
  cases l <;> first | exact hs | exact absurd hx (by decide)

/-- What stands behind a segment, unless it is the end. -/
theorem behind_segment {y : Char} {ys : List Char} (hy : CodePoint.IsLegal y)
    (hr : (CodePoint.ofHead (y :: ys)).continuesSegment = false) :
    y = '/' ∨ y = '\x7b' ∨ (CodePoint.char y).isWhitespace = true := by
  rw [CodePoint.isWhitespace_char]
  refine Decidable.byContradiction fun hn => ?_
  simp only [not_or, Bool.not_eq_true] at hn
  rw [show (CodePoint.ofHead (y :: ys)).continuesSegment = true from
    (CodePoint.continuesSegment_iff hy.1).2 ⟨hn.2.2, hn.1, hn.2.1⟩] at hr
  cases hr

theorem whole (h : Fits mode k rest) (hl : t.lexeme = k.lexeme) (ht : t.literal = String.ofList k.literal)
    (hlegal : ∀ x ∈ rest, CodePoint.IsLegal x)
    (hnext : k.lexeme ≠ .endOfInput → codePointAt pattern t.stop.offset = .ofHead rest)
    (hend : k.lexeme ≠ .endOfInput → rest = [] → t.stop.offset = pattern.length) : t.Whole pattern := by
  have hlit : t.literal.toList = k.literal := by rw [ht, String.toList_ofList]
  cases h with
  | mark _ _ hx => exact whole_single (CodePoint.classify_mem_singles hx) hl ht
  | single hx => exact whole_single hx hl ht
  | method | finish | string | regexp | patternEnd =>
    rw [Token.Whole, hl]
    trivial
  | @segment _ blanks x xs _ _ _ hs hc _ hr =>
    rw [Token.Whole, hl, hlit]
    refine ⟨fun y hy => ?_, fun hn => hc (Option.some.inj hn), ?_⟩
    · have := hs y hy
      simpa [CodePoint.continuesSegment, CodePoint.is] using this
    · cases rest with
      | nil => exact .inl (hend Lexeme.noConfusion rfl)
      | cons y ys => exact .inr ⟨y, hnext Lexeme.noConfusion, behind_segment (hlegal y (by simp)) hr⟩
  | @identifier x xs _ hx hu hs hr =>
    rw [Token.Whole, hl, hlit]
    exact ⟨⟨x, xs, rfl, hx, hu, hs⟩, hnext Lexeme.noConfusion ▸ hr⟩
  | @literal x xs _ hs hr =>
    rw [Token.Whole, hl, hlit]
    exact ⟨List.cons_ne_nil x xs, hs, hnext Lexeme.noConfusion ▸ hr⟩
  | @number x xs _ hx hs hr =>
    rw [Token.Whole, hl, hlit]
    exact ⟨⟨x, xs, rfl, hx, hs⟩, hnext Lexeme.noConfusion ▸ hr⟩

theorem path_lexeme (h : Fits .path k rest) : k.lexeme ∈ [.colon, .slash, .leftBrace, .segment, .endOfInput] := by
  cases h with
  | mark _ _ hx =>
    exact (by decide : ∀ l ∈ [.slash, .colon, .leftBrace],
      l ∈ [Lexeme.colon, .slash, .leftBrace, .segment, .endOfInput]) _ (CodePoint.classify_of_path hx).1
  | segment | finish => simp [Chunk.run, Chunk.finish]

theorem ne_pattern (h : Fits mode k rest) (hl : k.lexeme ∈ [.segment, .method]) : mode ≠ .pattern := by
  cases h with
  | method => exact Mode.noConfusion
  | mark hm | segment hm | finish hm => exact hm
  | single hx => exact absurd hl ((by decide : ∀ l ∈ Lexeme.singles, l ∉ [.segment, .method]) _ hx)
  | _ => simp [Chunk.run, Chunk.finish] at hl

theorem never (h : Fits mode k rest) :
    k.lexeme ∉ [.invalid, .digit, .leftParen, .backquote, .singleQuote, .doubleQuote] :=
  (by decide : ∀ l ∈ Lexeme.returned,
    l ∉ [.invalid, .digit, .leftParen, .backquote, .singleQuote, .doubleQuote]) _ h.lexeme_mem

end
end Fits

section
variable {s : SourceText} {ks : List Chunk} {pattern : List UInt8} {ts : List Token} {i : Nat} {k : Chunk} {t : Token}

theorem SourceText.Tokenized.stop_eq_place (h : s.Tokenized ks pattern ts) (ht : ts[i]? = some t)
    (hk : ks[i]? = some k) (hn : k.text ≠ []) : t.stop.offset = s.place (Chunk.textUpTo ks (i + 1)) := by
  obtain ⟨j, hj, rfl, -⟩ := h.exists_chunk ht
  obtain rfl := Option.some.inj (hk.symm.trans hj)
  rw [textUpTo_succ hk, s.stop_token _ hn]

theorem SourceText.Tokenized.drop_stop (h : s.Tokenized ks pattern ts) (ht : ts[i]? = some t)
    (hk : ks[i]? = some k) (hn : k.text ≠ []) :
    pattern.drop t.stop.offset = Utf8.encode ((ks.drop (i + 1)).flatMap Chunk.text) := by
  rw [h.stop_eq_place ht hk hn, ← h.bytes, s.drop_place (h.text_at hk), h.rest, List.append_nil]

theorem SourceText.Tokenized.stop_eq_length (h : s.Tokenized ks pattern ts) (ht : ts[i]? = some t)
    (hk : ks[i]? = some k) (hn : k.text ≠ []) (hr : (ks.drop (i + 1)).flatMap Chunk.text = []) :
    t.stop.offset = pattern.length := by
  have htext : s.text = Chunk.textUpTo ks (i + 1) := by rw [h.text_at hk, hr, List.append_nil]
  rw [h.stop_eq_place ht hk hn, ← h.bytes, s.length_bytes, h.rest, htext]
  rfl

theorem codePointAt_encode {offset : Nat} {rest : List Char} (h : pattern.drop offset = Utf8.encode rest) :
    codePointAt pattern offset = .ofHead rest := by
  rw [codePointAt, h]
  cases rest with
  | nil => rw [Utf8.encode_nil, Utf8.first?_nil]; rfl
  | cons x rest =>
    have := Utf8.first?_encode_cons x rest []
    rw [List.append_nil] at this
    rw [this]
    rfl

end

theorem scan_munches {pattern : List UInt8} {ts : List Token} (h : scan pattern = .ok ts) :
    MaximalMunch pattern ts := by
  obtain ⟨s, ks, hs⟩ := scan_ok h
  refine ⟨fun t ht => ?_, fun i t u ht hu hl => ?_, fun i t ht hl => ?_, fun t ht => ?_⟩
  · obtain ⟨i, hi⟩ := List.mem_iff_getElem?.1 ht
    obtain ⟨k, hk, rfl, hf⟩ := hs.exists_chunk hi
    have hlegal : ∀ x ∈ (ks.drop (i + 1)).flatMap Chunk.text, CodePoint.IsLegal x :=
      fun x hx => s.legal x (by rw [hs.text_at hk]; exact List.mem_append_right _ hx)
    refine hf.whole rfl rfl hlegal (fun hl => ?_) fun hl hr => ?_
    · exact codePointAt_encode (hs.drop_stop hi hk (hf.text_ne_nil hl))
    · exact hs.stop_eq_length hi hk (hf.text_ne_nil hl) hr
  · obtain ⟨k, hk, rfl, hf⟩ := hs.exists_chunk hu
    have hm : Mode.reset.before (ts.map Token.lexeme) (i + 1) = .path := by
      simp only [Mode.before, List.getElem?_map, ht, Option.map_some, Option.elim_some]
      exact (by decide : ∀ l ∈ [.slash, .segment, .method, .rightBrace], Mode.after l = .path) _ hl
    exact (hm ▸ hf).path_lexeme
  · obtain ⟨k, hk, rfl, hf⟩ := hs.exists_chunk ht
    exact hf.ne_pattern hl
  · obtain ⟨i, hi⟩ := List.mem_iff_getElem?.1 ht
    obtain ⟨k, hk, rfl, hf⟩ := hs.exists_chunk hi
    exact hf.never

theorem scan_munches_digits : MaximalMunch (Utf8.encode "/\x7bx1\u0663-4\u0663!\u00A7\x7da".toList)
    [⟨.slash, "/", ⟨1, 1, 0⟩, ⟨1, 1, 1⟩⟩, ⟨.leftBrace, "\x7b", ⟨1, 1, 1⟩, ⟨1, 2, 2⟩⟩,
     ⟨.identifier, "x1\u0663", ⟨1, 2, 2⟩, ⟨1, 5, 6⟩⟩, ⟨.minus, "-", ⟨1, 5, 6⟩, ⟨1, 6, 7⟩⟩,
     ⟨.number, "4\u0663", ⟨1, 6, 7⟩, ⟨1, 8, 10⟩⟩, ⟨.literal, "!\u00A7", ⟨1, 8, 10⟩, ⟨1, 10, 13⟩⟩,
     ⟨.rightBrace, "\x7d", ⟨1, 10, 13⟩, ⟨1, 11, 14⟩⟩, ⟨.segment, "a", ⟨1, 11, 14⟩, ⟨1, 12, 15⟩⟩,
     ⟨.endOfInput, "", ⟨1, 12, 15⟩, ⟨1, 12, 15⟩⟩] :=
  scan_munches (scan_eq_ok (by decide +kernel))

end RoutePattern
