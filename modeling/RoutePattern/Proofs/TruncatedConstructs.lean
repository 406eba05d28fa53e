import RoutePattern.Proofs.TruncatedPatterns

/-!
# Quoted text and expressions that are cut off

A pattern that is cut off inside quoted text or inside an expression is not accepted, since no part of such a
construct reads as something else. The failure is at the cut and says what is open there. Where the cut runs
through a character, what is left of the character is at fault.
-/
namespace RoutePattern
open EnclosedText SourceText

/-- The failure at a cut behind a part of a construct, by the spelling of the construct. -/
inductive CutShort (stop : Nat) : List Char → List Char → Failure → Prop where
  | string {quote body part} (hq : quote ∈ Cursor.quotes) :
      CutShort stop (quote :: body) part (.unterminated (CodePoint.char quote).classify .endOfInput stop)
  | nested {body part} (hb : ∀ x ∈ body.head?, x ∉ Cursor.quotes) (hd : 1 ≤ depth '(' ')' part) :
      CutShort stop ('(' :: body) part (.unbalanced .leftParen .rightParen .endOfInput (depth '(' ')' part) stop)
  | opened {quote inner} (hq : quote ∈ Cursor.quotes) :
      CutShort stop ('(' :: quote :: (inner ++ [quote, ')'])) ['(']
        (.unbalanced .leftParen .rightParen .endOfInput 1 stop)
  | quoted {quote inner part} (hq : quote ∈ Cursor.quotes) (hp : part <+: inner) :
      CutShort stop ('(' :: quote :: (inner ++ [quote, ')'])) ('(' :: quote :: part)
        (.unterminated (CodePoint.char quote).classify .endOfInput stop)
  | unclosed {quote inner} (hq : quote ∈ Cursor.quotes) :
      CutShort stop ('(' :: quote :: (inner ++ [quote, ')'])) ('(' :: quote :: (inner ++ [quote]))
        (.unexpected .endOfInput [.rightParen] stop)

/-- The failure of a pattern that is cut off inside a construct, between two of its characters or inside one. -/
inductive Interrupted (opened stop : Nat) (spelling : List Char) : Failure → Prop where
  | between {part more e} (hs : spelling = part ++ more) (hc : stop = opened + Utf8.size part)
      (he : CutShort stop spelling part e) : Interrupted opened stop spelling e
  | within {part x more} (hs : spelling = part ++ x :: more) (hl : opened + Utf8.size part < stop)
      (hr : stop < opened + Utf8.size part + x.utf8Size) :
      Interrupted opened stop spelling (.illegalEncoding (opened + Utf8.size part))

/-- A token is written from an offset of a pattern on. -/
structure Token.WrittenAt (t : Token) (pattern : List UInt8) (opened : Nat) (spelling : List Char) : Prop where
  spells : Spelling t.lexeme t.literal.toList spelling
  bytes : Utf8.encode spelling <+: pattern.drop opened
  stop : t.stop.offset = opened + Utf8.size spelling

theorem prefix_of_concat {α : Type} {xs part more : List α} {x : α} (h : xs ++ [x] = part ++ more) (hm : more ≠ []) :
    part <+: xs := by
  have hp : part <+: xs ++ [x] := ⟨more, h.symm⟩
  rcases List.prefix_concat_iff.1 hp with rfl | hp
  · exact absurd (List.append_right_eq_self.1 h.symm) hm
  · exact hp

/-- Quoted text closes nowhere in front of its last quote. -/
theorem Quotation.not_closed_before {literal literal' inner inner' : List Char} {quote : Char}
    (h : Quotation literal quote inner) (h' : Quotation literal' quote inner') : ¬ inner' ++ [quote] <+: inner := by
  rintro ⟨more, ht⟩
  cases h with
  | raw hl => exact hl (by rw [← ht]; simp)
  | escaped hq hl =>
    have hb : quote ≠ '\x5c' := by rcases hq with rfl | rfl <;> decide
    cases h' with
    | raw => exact absurd hq (by decide)
    | escaped _ hl' =>
      have hlast : Closes quote literal [] (escape quote literal ++ [quote]) := ⟨rfl, hl⟩
      have hearlier : Closes quote literal' (more ++ [quote]) (escape quote literal ++ [quote]) :=
        ⟨by rw [← ht]; simp, hl'⟩
      exact absurd (hlast.unique hb hearlier) (by simp)

namespace Cursor

section
variable {s : SourceText} {before after body literal inner more : List Char} {x quote : Char} {l : Lexeme} {c : Cursor}

/-- Quoted text that is cut off in front of its last quote. -/
theorem On.quotation_cutShort (hq : Quotation literal quote inner) (hp : after <+: inner)
    (h : On s before quote after c) : (c.quotation quote).2.failure =
      some (s.obstacle.getD (.unterminated (CodePoint.char quote).classify .endOfInput s.bytes.length)) := by
  refine (h.quotation_open (mem_quotes hq) ?_).2.failure
  rintro literal' inner' rest rfl hq'
  refine hq.not_closed_before hq' (List.IsPrefix.trans ?_ hp)
  exact ⟨rest, by simp⟩

/-- An expression without quotes that is cut off. -/
theorem On.nested_cutShort (hb : Balanced '(' ')' body) (hh : ∀ y ∈ (body ++ [')']).head?, y ∉ quotes)
    (hp : after <+: body) (h : On s before '(' after c) :
    ∃ f, CutShort s.bytes.length ('(' :: (body ++ [')'])) ('(' :: after) f ∧
      ∀ start, (c.patternToken start).cursor.failure = some (s.obstacle.getD f) := by
  have hhead : ∀ y ∈ after.head?, y ∉ quotes := by
    obtain ⟨rest, rfl⟩ := hp
    intro y hy
    obtain ⟨ys, rfl⟩ := List.head?_eq_some_iff.1 hy
    exact hh y rfl
  have hinside : Inside '(' ')' 1 after := by
    intro part hpart
    have := hb.inside part (hpart.trans hp)
    omega
  have hdepth : depth '(' ')' ('(' :: after) = 1 + depth '(' ')' after := by
    rw [depth_cons, depth_opener (by decide)]
  refine ⟨_, .nested hh (hdepth ▸ hinside after List.prefix_rfl), fun start => ?_⟩
  rw [h.patternToken_paren, hdepth]
  exact (h.nested_open hhead hinside start).2.failure

/-- An expression in quotes that is cut off. -/
theorem On.quoted_cutShort (hq : Quotation literal quote inner) (hm : more ≠ [])
    (ht : quote :: (inner ++ [quote, ')']) = after ++ more) (h : On s before '(' after c) :
    ∃ f, CutShort s.bytes.length ('(' :: quote :: (inner ++ [quote, ')'])) ('(' :: after) f ∧
      ∀ start, (c.patternToken start).cursor.failure = some (s.obstacle.getD f) := by
  have hquote := mem_quotes hq
  cases after with
  | nil =>
    refine ⟨_, .opened hquote, fun start => ?_⟩
    rw [h.patternToken_paren]
    exact (h.nested_open (by simp) (.nil (Int.le_refl 1)) start).2.failure
  | cons y part =>
    obtain ⟨rfl, ht⟩ := List.cons.inj ht
    obtain ⟨d, hd, he⟩ := h.expressionToken_quote hquote
    have hp : part <+: inner ++ [quote] := prefix_of_concat (by simpa using ht) hm
    rcases List.prefix_concat_iff.1 hp with rfl | hp
    · refine ⟨_, .unclosed hquote, fun start => ?_⟩
      obtain ⟨c', hc, hr⟩ := hd.quotation hq
      rw [h.patternToken_paren, he, hr]
      exact hc.closing_end.failure
    · refine ⟨_, .quoted hquote hp, fun start => ?_⟩
      rw [h.patternToken_paren, he]
      exact (kept_failure _).expect ((kept_failure _).take (hd.quotation_cutShort hq hp) _) _

/-- A construct that is cut off fails where the text ends. -/
theorem On.patternToken_cutShort (hl : l = .string ∨ l = .regexp) (hs : Spelling l literal (x :: (after ++ more)))
    (hm : more ≠ []) (h : On s before x after c) : ∃ f, CutShort s.bytes.length (x :: (after ++ more)) (x :: after) f ∧
      ∀ start, (c.patternToken start).cursor.failure = some (s.obstacle.getD f) := by
  generalize htext : after ++ more = text at hs
  rcases hl with rfl | rfl
  · cases hs with
    | string hq =>
      have hp := prefix_of_concat htext.symm hm
      refine ⟨_, .string (mem_quotes hq), fun start => ?_⟩
      rw [h.patternToken_quote (mem_quotes hq)]
      exact h.quotation_cutShort hq hp
    | itself hn => exact absurd (by simp) hn
  · cases hs with
    | quoted hq => exact h.quoted_cutShort hq hm htext.symm
    | nested hb hh =>
      have hhead : ∀ y ∈ (literal ++ [')']).head?, y ∉ quotes := by
        intro y hy hquote
        cases literal with
        | nil =>
          obtain rfl : ')' = y := Option.some.inj hy
          exact absurd hquote (by decide)
        | cons z zs => exact hh y hy (List.mem_append_left ['\n'] hquote)
      exact h.nested_cutShort hb hhead (prefix_of_concat htext.symm hm)
    | @laidOut body _ hb =>
      have hhead : ∀ y ∈ ('\n' :: body ++ [')']).head?, y ∉ quotes := by
        rintro y ⟨⟩
        decide
      exact h.nested_cutShort hb hhead (prefix_of_concat htext.symm hm)
    | itself hn => exact absurd (by simp) hn

end
end Cursor

theorem Fits.of_construct {mode : Mode} {k : Chunk} {rest : List Char} (h : Fits mode k rest)
    (hl : k.lexeme = .string ∨ k.lexeme = .regexp) : mode = .pattern ∧ k.text = k.spelling := by
  have hn : ∀ l ∈ Lexeme.singles, ¬ (l = .string ∨ l = .regexp) := by decide
  cases h with
  | string | regexp => exact ⟨rfl, rfl⟩
  | mark hm hb hx => exact absurd hl (hn _ (CodePoint.classify_mem_singles hx))
  | single hx => exact absurd hl (hn _ hx)
  | _ => simp [Chunk.run, Chunk.finish] at hl

section
variable {s : SourceText} {ks : List Chunk} {part more literal : List Char} {l : Lexeme}

/-- A scan of a text that ends inside a construct fails with what ends the text, or with what is open there. -/
theorem scan_cutShort (hp : Phrase .reset ks part .pattern) (ht : s.text = ks.flatMap Chunk.text ++ part)
    (hl : l = .string ∨ l = .regexp) (hs : Spelling l literal (part ++ more)) (hpart : part ≠ []) (hm : more ≠ []) :
    ∃ f, CutShort s.bytes.length (part ++ more) part f ∧ scan s.bytes = .error (s.obstacle.getD f) := by
  obtain ⟨x, after, rfl⟩ := List.exists_cons_of_ne_nil hpart
  obtain ⟨behind, hb, hmode, hscan⟩ := scan_phrase hp ht fun hsees => absurd hsees.rest_nil hpart
  obtain ⟨f, hf, hfail⟩ := hb.behind.advance.patternToken_cutShort hl hs hm
  refine ⟨f, hf, (hscan _ ?_).1⟩
  rw [hb.step, hmode]
  exact Scanner.failure_accept (hfail _)

end

theorem Spelling.utf8Size_opener {l : Lexeme} {literal cs : List Char} {x : Char} (h : Spelling l literal (x :: cs))
    (hl : l = .string ∨ l = .regexp) : x.utf8Size = 1 := by
  rcases hl with rfl | rfl
  · cases h with
    | string hq =>
      have hx : x = '\x60' ∨ x = '\x27' ∨ x = '\x22' := by simpa [Cursor.quotes] using Cursor.mem_quotes hq
      rcases hx with rfl | rfl | rfl <;> rfl
    | itself hn => exact absurd (by simp) hn
  · obtain ⟨tail, ht⟩ := h.exists_paren
    obtain rfl : x = '(' := (List.cons.inj ht).1
    decide

/-- Every cut through a construct is reported. -/
theorem SourceText.scan_interrupted {s : SourceText} {ks : List Chunk} {rest spelling literal : List Char} {l : Lexeme}
    (hp : Phrase .reset ks (spelling ++ rest) .pattern) (ht : s.text = ks.flatMap Chunk.text ++ (spelling ++ rest))
    (hl : l = .string ∨ l = .regexp) (hs : Spelling l literal spelling) {n : Nat} (hpos : 0 < n)
    (hn : n < Utf8.size spelling) :
    ∃ e, scan (s.bytes.take (s.place (ks.flatMap Chunk.text) + n)) = .error e ∧
      Interrupted (s.place (ks.flatMap Chunk.text)) (s.place (ks.flatMap Chunk.text) + n) spelling e := by
  have hphrase {part more : List Char} (he : spelling = part ++ more) (hpart : part ≠ []) :
      Phrase .reset ks part .pattern := by
    obtain ⟨y, ys, rfl⟩ := List.exists_cons_of_ne_nil hpart
    exact hp.congr_head (by rw [he]; rfl)
  have htext {part more : List Char} (he : spelling = part ++ more) :
      s.text = ks.flatMap Chunk.text ++ part ++ (more ++ rest) := by
    rw [ht, he, List.append_assoc, List.append_assoc]
  rcases Utf8.exists_cut (Nat.le_of_lt hn) with ⟨part, more, he, rfl⟩ | ⟨part, x, more, he, hlow, hhigh⟩
  · have hpart : part ≠ [] := by
      rintro rfl
      exact Nat.lt_irrefl 0 hpos
    have hmore : more ≠ [] := by
      rintro rfl
      rw [he, List.append_nil] at hn
      exact Nat.lt_irrefl _ hn
    let r := s.upTo (htext he) [] Utf8.first?_nil
    obtain ⟨f, hf, hscan⟩ := scan_cutShort (s := r) (hphrase he hpart) rfl hl (he ▸ hs) hpart hmore
    have hlength : r.bytes.length = s.place (ks.flatMap Chunk.text) + Utf8.size part :=
      r.length_bytes.trans (s.place_append _ _)
    rw [hlength] at hf
    rw [s.bytes_upTo, s.place_append] at hscan
    exact ⟨f, hscan, .between he rfl (he ▸ hf)⟩
  · have hpart : part ≠ [] := by
      rintro rfl
      subst he
      have := hs.utf8Size_opener hl
      rw [Utf8.size_nil] at hhigh
      omega
    obtain ⟨m, rfl⟩ := Nat.exists_eq_add_of_le (Nat.le_of_lt hlow)
    have hm : m < x.utf8Size := by omega
    let r := s.upTo (htext he) _ (Utf8.first?_take_encodeChar hm)
    obtain ⟨f, -, hscan⟩ := scan_cutShort (s := r) (hphrase he hpart) rfl hl (he ▸ hs) hpart (List.cons_ne_nil _ _)
    rw [s.bytes_upTo_torn _ hm, s.obstacle_upTo_torn _ hm (by omega), s.place_append] at hscan
    rw [← Nat.add_assoc]
    exact ⟨_, hscan, .within he (by omega) (by omega)⟩

section
variable {s : SourceText} {js behind : List Chunk} {k : Chunk} {pattern : List UInt8} {ts : List Token}

/-- Between two tokens the text is cut where the first one ends. -/
theorem SourceText.Tokenized.exists_last (h : s.Tokenized (js ++ k :: behind) pattern ts) (hn : js ≠ []) :
    ∃ u, (s.tokens [] js).getLast? = some u ∧ u.stop.offset = s.place (js.flatMap Chunk.text) := by
  obtain ⟨init, j, rfl⟩ : ∃ init j, js = init ++ [j] := by
    rcases List.eq_nil_or_concat js with rfl | ⟨init, j, he⟩
    · exact absurd rfl hn
    · exact ⟨init, j, he.trans (List.concat_eq_append ..)⟩
  rw [List.append_assoc] at h
  obtain ⟨_, -, hj⟩ := h.sentence.exists_phrase
  refine ⟨s.token (init.flatMap Chunk.text) j, ?_, ?_⟩
  · rw [s.tokens_append]
    exact List.getLast?_concat
  · rw [s.stop_token _ (hj.text_ne_nil (List.cons_ne_nil _ _)), List.flatMap_append, List.flatMap_singleton]

/-- A construct is a phrase away from the start, and is written without anything in front. -/
theorem SourceText.Tokenized.construct (h : s.Tokenized (js ++ k :: behind) pattern ts)
    (hl : k.lexeme = .string ∨ k.lexeme = .regexp) :
    Phrase .reset js (k.spelling ++ behind.flatMap Chunk.text) .pattern ∧
      s.text = js.flatMap Chunk.text ++ (k.spelling ++ behind.flatMap Chunk.text) ∧
      (s.token (js.flatMap Chunk.text) k).WrittenAt pattern (s.place (js.flatMap Chunk.text)) k.spelling := by
  obtain ⟨last, hphrase, hrest⟩ := h.sentence.exists_phrase
  cases hrest with
  | finish => simp [Chunk.finish] at hl
  | cons hf hk _ =>
    obtain ⟨rfl, hspelling⟩ := hf.of_construct hl
    have htext : s.text = js.flatMap Chunk.text ++ (k.spelling ++ behind.flatMap Chunk.text) := by
      rw [h.text, List.flatMap_append, List.flatMap_cons, hspelling]
    refine ⟨by rwa [List.flatMap_cons, hspelling] at hphrase, htext, ?_, ?_, ?_⟩
    · simpa [SourceText.token] using hf.spelling
    · rw [← h.bytes, s.drop_place htext, Utf8.encode_append, List.append_assoc]
      exact List.prefix_append _ _
    · rw [s.stop_token _ (hf.text_ne_nil hk), s.place_append, hspelling]

end

theorem scan_take_construct {pattern : List UInt8} {front back : List Token} {t : Token}
    (h : scan pattern = .ok (front ++ t :: back)) (ht : t.lexeme = .string ∨ t.lexeme = .regexp) :
    ∃ u spelling, front.getLast? = some u ∧ t.WrittenAt pattern u.stop.offset spelling ∧
      ∀ stop, u.stop.offset < stop → stop < t.stop.offset →
        ∃ e, scan (pattern.take stop) = .error e ∧ Interrupted u.stop.offset stop spelling e := by
  obtain ⟨s, ks, hs⟩ := scan_ok h
  obtain ⟨js, k, behind, rfl, rfl, rfl, rfl⟩ := s.exists_chunks [] ks hs.tokens.symm
  obtain ⟨hphrase, htext, hwritten⟩ := hs.construct ht
  have hjs : js ≠ [] := by
    rintro rfl
    cases hphrase
  obtain ⟨u, hu, hopened⟩ := hs.exists_last hjs
  rw [← hopened] at hwritten
  refine ⟨u, k.spelling, hu, hwritten, fun stop hlow hhigh => ?_⟩
  obtain ⟨n, rfl⟩ := Nat.exists_eq_add_of_le (Nat.le_of_lt hlow)
  have hpos : 0 < n := Nat.lt_add_right_iff_pos.1 hlow
  have hn : n < Utf8.size k.spelling := by
    have hstop := hwritten.stop
    exact Nat.lt_of_add_lt_add_left (Nat.lt_of_lt_of_eq hhigh hstop)
  rw [← hs.bytes, hopened]
  exact s.scan_interrupted hphrase htext ht (by simpa [SourceText.token] using hwritten.spells) hpos hn

theorem scan_take_construct_quoted : ∃ spelling,
    (⟨.regexp, "'\u00E9", ⟨1, 3, 3⟩, ⟨1, 10, 11⟩⟩ : Token).WrittenAt (Utf8.encode "/\x7b:('\x5c'\u00E9')\x7d".toList)
      3 spelling ∧
    ∃ e, scan ((Utf8.encode "/\x7b:('\x5c'\u00E9')\x7d".toList).take 8) = .error e ∧ Interrupted 3 8 spelling e := by
  obtain ⟨u, spelling, hu, hwritten, hcut⟩ :=
    @scan_take_construct (Utf8.encode "/\x7b:('\x5c'\u00E9')\x7d".toList)
      [⟨.slash, "/", ⟨1, 1, 0⟩, ⟨1, 1, 1⟩⟩, ⟨.leftBrace, "\x7b", ⟨1, 1, 1⟩, ⟨1, 2, 2⟩⟩,
        ⟨.colon, ":", ⟨1, 2, 2⟩, ⟨1, 3, 3⟩⟩]
      [⟨.rightBrace, "\x7d", ⟨1, 10, 11⟩, ⟨1, 11, 12⟩⟩, .endOfInput ⟨1, 11, 12⟩]
      ⟨.regexp, "'\u00E9", ⟨1, 3, 3⟩, ⟨1, 10, 11⟩⟩ (scan_eq_ok (by decide +kernel)) (.inr rfl)
  cases hu
  exact ⟨spelling, hwritten, hcut 8 (by decide) (by decide)⟩

end RoutePattern
