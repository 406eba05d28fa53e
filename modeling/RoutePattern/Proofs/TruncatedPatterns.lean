import RoutePattern.Proofs.MaximalMunch

/-!
# Patterns that are cut off

A pattern that is cut off at one of its characters keeps the text in front of the cut. Cut off right behind a
token it is scanned as the tokens up to there, since no token but a method depends on what stands behind it.
-/
namespace RoutePattern
open SourceText

namespace SourceText
open Utf8 (encode first?)

section
variable (s : SourceText) {before after : List Char} {bytes : List UInt8}

/-- The text in front of a cut, with bytes behind it that start with no character. -/
def upTo (h : s.text = before ++ after) (bytes : List UInt8) (hb : first? bytes = none) : SourceText where
  marked := s.marked
  text := before
  rest := bytes
  legal y hy := s.legal y (h ▸ List.mem_append_left after hy)
  barred c _ hc := by
    cases hb.symm.trans (Utf8.first?_eq_some_iff.2 hc)
  unmarked _ _ hm := by
    cases hb.symm.trans (Utf8.first?_eq_some_iff.2 hm)

/-- What is left of a pattern that is cut off some bytes behind a place. -/
theorem take_place_add (h : s.text = before ++ after) (n : Nat) : s.bytes.take (s.place before + n) =
    encode (s.lead ++ before) ++ (encode after ++ s.rest).take n := by
  have hb : s.bytes = encode (s.lead ++ before) ++ (encode after ++ s.rest) := by
    simp [SourceText.bytes, h]
  rw [hb]
  exact List.take_length_add_append n

/-- A pattern that is cut off in front of a character. -/
theorem bytes_upTo (h : s.text = before ++ after) :
    (s.upTo h [] Utf8.first?_nil).bytes = s.bytes.take (s.place before) :=
  (s.take_place_add h 0).symm

/-- A pattern that is cut off inside a character. -/
theorem bytes_upTo_torn {x : Char} {n : Nat} (h : s.text = before ++ x :: after) (hn : n < x.utf8Size) :
    (s.upTo h ((String.utf8EncodeChar x).take n) (Utf8.first?_take_encodeChar hn)).bytes =
      s.bytes.take (s.place before + n) := by
  have hl : n ≤ (String.utf8EncodeChar x).length := by
    rw [String.length_utf8EncodeChar]
    omega
  rw [s.take_place_add h, Utf8.encode_cons, List.append_assoc, List.take_append_of_le_length hl]
  rfl

/-- Where the bytes of a part of a character end the text, the encoding is at fault. -/
theorem obstacle_upTo_torn {x : Char} {n : Nat} (h : s.text = before ++ x :: after) (hn : n < x.utf8Size)
    (hpos : 0 < n) : (s.upTo h ((String.utf8EncodeChar x).take n) (Utf8.first?_take_encodeChar hn)).obstacle =
      some (.illegalEncoding (s.place before)) := by
  have hne : (String.utf8EncodeChar x).take n ≠ [] := by
    have := x.utf8Size_pos
    rw [← List.length_pos_iff, List.length_take, String.length_utf8EncodeChar]
    omega
  simp only [obstacle, upTo, hne, if_false, Utf8.first?_take_encodeChar hn]
  rfl

end
end SourceText

theorem Fits.finish_nil (mode : Mode) : Fits mode (.finish []) [] := by
  cases mode with
  | pattern => exact .patternEnd
  | reset | path => exact .finish Mode.noConfusion (List.forall_mem_nil _)

section
variable {s : SourceText} {ks behind : List Chunk} {k : Chunk} {rest : List Char} {mode last : Mode}

theorem Sentence.text_ne_nil (h : Sentence mode (k :: behind)) (hb : behind ≠ []) : k.text ≠ [] := by
  cases h with
  | finish => exact absurd rfl hb
  | cons hf hk _ => exact hf.text_ne_nil hk

/-- A pattern that is cut off behind a phrase is scanned as the chunks of the phrase. -/
theorem scan_take_place (hp : Phrase .reset ks rest last) (hm : ∀ k ∈ ks.getLast?, k.lexeme ≠ .method)
    (ht : s.text = ks.flatMap Chunk.text ++ rest) :
    scan (s.bytes.take (s.place (ks.flatMap Chunk.text))) =
      .ok (s.tokens [] ks ++ [.endOfInput (s.position (ks.flatMap Chunk.text))]) := by
  have hend : Sentence .reset (ks ++ [.finish []]) := (hp.to_end hm).sentence (Fits.finish_nil last)
  let r := s.upTo ht [] Utf8.first?_nil
  have hr : r.text = (ks ++ [Chunk.finish []]).flatMap Chunk.text := by
    show ks.flatMap Chunk.text = _
    simp [Chunk.finish, Chunk.text]
  have hfinish : r.tokens (ks.flatMap Chunk.text) [.finish []] =
      [.endOfInput (s.position (ks.flatMap Chunk.text))] := by
    rw [tokens, tokens, r.token_finish, List.append_nil]
    rfl
  have hscan : scan r.bytes = .ok (r.tokens [] (ks ++ [.finish []])) := scan_sentence hend hr rfl
  rw [s.bytes_upTo ht, r.tokens_append, List.nil_append, hfinish] at hscan
  have htokens : r.tokens [] ks = s.tokens [] ks := r.tokens_congr [] ks rfl
  rw [hscan, htokens]

end

theorem scan_take_stop {pattern : List UInt8} {front back : List Token} {t : Token}
    (h : scan pattern = .ok (front ++ t :: back)) (hb : back ≠ []) (ht : t.lexeme ≠ .method) :
    scan (pattern.take t.stop.offset) = .ok (front ++ [t, .endOfInput t.stop]) := by
  obtain ⟨s, ks, hs⟩ := scan_ok h
  obtain ⟨js, k, behind, rfl, rfl, rfl, rfl⟩ := s.exists_chunks [] ks hs.tokens.symm
  obtain ⟨next, behind, rfl⟩ := List.exists_cons_of_ne_nil (l := behind) fun hn => hb (by rw [hn]; rfl)
  have hsplit : js ++ k :: next :: behind = js ++ [k] ++ next :: behind := List.append_cons ..
  obtain ⟨_, -, hk⟩ := hs.sentence.exists_phrase
  obtain ⟨last, hphrase, -⟩ := (hsplit ▸ hs.sentence).exists_phrase
  have htext : s.text = (js ++ [k]).flatMap Chunk.text ++ (next :: behind).flatMap Chunk.text := by
    rw [hs.text, hsplit, List.flatMap_append]
  have hend : (js ++ [k]).flatMap Chunk.text = js.flatMap Chunk.text ++ k.text := by
    rw [List.flatMap_append, List.flatMap_singleton]
  have hstop := s.stop_token (js.flatMap Chunk.text) (hk.text_ne_nil (List.cons_ne_nil _ _))
  have hlast : ∀ j ∈ (js ++ [k]).getLast?, j.lexeme ≠ .method := by
    intro j hj
    obtain rfl : k = j := by simpa using hj
    exact ht
  have hcut := scan_take_place hphrase hlast htext
  rw [hs.bytes, hend, ← hstop, s.tokens_append, List.append_assoc] at hcut
  exact hcut

theorem scan_take_stop_name : scan ((Utf8.encode "GET /\x7bid1:a\x7d".toList).take 9) =
    .ok [⟨.method, "GET", ⟨1, 1, 0⟩, ⟨1, 4, 4⟩⟩, ⟨.slash, "/", ⟨1, 4, 4⟩, ⟨1, 5, 5⟩⟩,
      ⟨.leftBrace, "\x7b", ⟨1, 5, 5⟩, ⟨1, 6, 6⟩⟩, ⟨.identifier, "id1", ⟨1, 6, 6⟩, ⟨1, 9, 9⟩⟩,
      .endOfInput ⟨1, 9, 9⟩] :=
  @scan_take_stop (Utf8.encode "GET /\x7bid1:a\x7d".toList)
    [⟨.method, "GET", ⟨1, 1, 0⟩, ⟨1, 4, 4⟩⟩, ⟨.slash, "/", ⟨1, 4, 4⟩, ⟨1, 5, 5⟩⟩,
      ⟨.leftBrace, "\x7b", ⟨1, 5, 5⟩, ⟨1, 6, 6⟩⟩]
    [⟨.colon, ":", ⟨1, 9, 9⟩, ⟨1, 10, 10⟩⟩, ⟨.identifier, "a", ⟨1, 10, 10⟩, ⟨1, 11, 11⟩⟩,
      ⟨.rightBrace, "\x7d", ⟨1, 11, 11⟩, ⟨1, 12, 12⟩⟩, .endOfInput ⟨1, 12, 12⟩]
    ⟨.identifier, "id1", ⟨1, 6, 6⟩, ⟨1, 9, 9⟩⟩ (scan_eq_ok (by decide +kernel)) (by decide) (by decide)

end RoutePattern
