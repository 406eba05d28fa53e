import RoutePattern.Proofs.ScanRuns

/-!
# What is written is read

The chunks of a sentence are scanned as the tokens that they spell, with or without a byte order marker in
front of them.
-/
namespace RoutePattern
open SourceText

def Token.content (t : Token) : Lexeme × String := (t.lexeme, t.literal)

def Chunk.content (k : Chunk) : Lexeme × String := (k.lexeme, String.ofList k.literal)

theorem SourceText.content_tokens (s : SourceText) (before : List Char) (ks : List Chunk) :
    (s.tokens before ks).map Token.content = ks.map Chunk.content := by
  induction ks generalizing before with
  | nil => rfl
  | cons k ks ih => exact congrArg (k.content :: ·) (ih _)

theorem scan_spelled {lead blanks : List Char} {items : List Chunk}
    (hl : lead = [] ∨ lead = [CodePoint.byteOrderMark]) (hs : Sentence .reset (items ++ [Chunk.finish blanks]))
    (hc : ∀ x ∈ (items ++ [Chunk.finish blanks]).flatMap Chunk.text, CodePoint.IsLegal x) :
    ∃ ts, scan (Utf8.encode (lead ++ (items ++ [Chunk.finish blanks]).flatMap Chunk.text)) = .ok ts ∧
      ts.map Token.content = items.map Chunk.content ++ [(.endOfInput, "")] := by
  obtain ⟨marked, rfl⟩ : ∃ marked : Bool, lead = if marked then [CodePoint.byteOrderMark] else [] := by
    rcases hl with rfl | rfl
    · exact ⟨false, rfl⟩
    · exact ⟨true, rfl⟩
  let s := SourceText.ofLegal marked _ hc
  have hb : s.bytes = Utf8.encode (s.lead ++ s.text) := List.append_nil _
  have hscan := scan_sentence (s := s) hs rfl rfl
  rw [hb] at hscan
  refine ⟨_, hscan, ?_⟩
  rw [content_tokens, List.map_append]
  rfl

theorem scan_spelled_quoted : ∃ ts,
    scan (Utf8.encode (CodePoint.byteOrderMark ::
      ['G', 'E', 'T', ' ', '/', ':', '\x27', 'a', '\x5c', '\x27', 'b', '\x27'])) = .ok ts ∧
      ts.map Token.content =
        [(.method, "GET"), (.slash, "/"), (.colon, ":"), (.string, "a'b"), (.endOfInput, "")] := by
  have hend : Sentence .pattern [.finish []] := .finish .patternEnd
  have hstring : Sentence .pattern [⟨[], .string, ['a', '\x27', 'b'], _⟩, .finish []] :=
    .cons (.string (.escaped (.inl rfl) (by decide))) (by decide) hend
  have hcolon : Sentence .path (.run [] (CodePoint.char ':').classify [':'] :: _) :=
    .cons (.mark (by decide) (List.forall_mem_nil _) (by decide)) (by decide) hstring
  have hslash : Sentence .path (.run [] (CodePoint.char '/').classify ['/'] :: _) :=
    .cons (.mark (by decide) (List.forall_mem_nil _) (by decide)) (by decide) hcolon
  have hmethod : Sentence .reset (⟨[], .method, ['G', 'E', 'T'], ['G', 'E', 'T', ' ']⟩ :: _) :=
    .cons (.method (by decide) (List.all_eq_true.1 (by decide)) (.inl rfl)) (by decide) hslash
  have hlegal (text : List Char) (h : text.all (fun x => decide (CodePoint.IsLegal x)) = true) :
      ∀ x ∈ text, CodePoint.IsLegal x := fun x hx => of_decide_eq_true (List.all_eq_true.1 h x hx)
  obtain ⟨ts, hscan, hcontent⟩ :=
    @scan_spelled [CodePoint.byteOrderMark] [] [_, _, _, _] (.inr rfl) hmethod (hlegal _ (by decide))
  exact ⟨ts, hscan, hcontent.trans (by decide)⟩

end RoutePattern
