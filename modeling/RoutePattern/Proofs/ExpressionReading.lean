import RoutePattern.Proofs.Findings

/-!
# Reading quoted text and expressions

Text in quotes or in parentheses is read up to where it closes. Where it does not close, the failure is
what ends the text, or else that the construct is open there.
-/
namespace RoutePattern
open EnclosedText SourceText

namespace Cursor

/-- Text between quotes of a kind, which has escapes unless the quotes are backquotes. -/
def quotation (quote : Char) (c : Cursor) : String × Cursor :=
  if quote = '\x60' then c.raw quote quote else c.quoted quote quote []

def quotes : List Char := ['\x60', '\x27', '\x22']

section
variable {s : SourceText} {before after rest literal inner : List Char} {x quote : Char} {c d : Cursor}

theorem mem_quotes (hq : Quotation literal quote inner) : quote ∈ quotes := by
  cases hq with
  | raw => simp [quotes]
  | escaped hq => rcases hq with rfl | rfl <;> simp [quotes]

/-- The cursor on a closing quote, which has looked ahead if there may be escapes. -/
def closing (quote : Char) (c : Cursor) : Cursor := if quote = '\x60' then c else c.look

theorem On.quotation (hq : Quotation literal quote inner) (h : On s before quote (inner ++ quote :: rest) c) :
    ∃ c', On s (before ++ quote :: inner) quote rest c' ∧
      c.quotation quote = (String.ofList literal, c'.closing quote) := by
  cases hq with
  | raw hl => exact h.raw hl
  | escaped hq hl =>
    have hb : quote ≠ '\x5c' := by rcases hq with rfl | rfl <;> decide
    have hr : quote ≠ '\x60' := by rcases hq with rfl | rfl <;> decide
    obtain ⟨c', hc, he⟩ := h.quoted hb ⟨rfl, hl⟩
    exact ⟨c', hc, by simpa [Cursor.quotation, Cursor.closing, hr] using he⟩

/-- Quotes that are opened and never closed are read to the end of the text. -/
theorem On.quotation_open (hq : quote ∈ quotes) (h : On s before quote after c)
    (hn : ∀ literal inner rest, after = inner ++ quote :: rest → ¬ Quotation literal quote inner) :
    s.Takes after (c.quotation quote).1 ∧ Halted s s.text
      (s.obstacle.getD (.unterminated (CodePoint.char quote).classify .endOfInput s.bytes.length))
      (c.quotation quote).2 := by
  by_cases hr : quote = '\x60'
  · subst hr
    have hm : '\x60' ∉ after := fun hm => by
      obtain ⟨body, rest, rfl, hb⟩ := List.eq_append_cons_of_mem hm
      exact hn body body rest rfl (.raw hb)
    obtain ⟨c', hc, he⟩ := h.raw_open hm
    have he : c.quotation '\x60' = _ := he
    rw [he]
    exact ⟨s.takes_unclosed after, hc.unterminated '\x60'⟩
  · have hq : quote = '\x27' ∨ quote = '\x22' := by simpa [quotes, hr] using hq
    have hb : quote ≠ '\x5c' := by rcases hq with rfl | rfl <;> decide
    have he : c.quotation quote = c.quoted quote quote [] := if_neg hr
    obtain ⟨c', literal, hc, hopen, hquoted⟩ :=
      h.quoted_open hb fun literal rest hc => hn literal _ rest hc.split (.escaped hq hc.last)
    rw [he, hquoted]
    refine ⟨?_, hc.unterminated quote⟩
    cases hopen with
    | plain hl => exact hl ▸ s.takes_unclosed after
    | unescaped hl hcs => exact .inside (hl ▸ (Excerpt.unescaped hq (by simpa using hcs)).yields)

theorem On.closing {y : Char} {ys : List Char} (h : On s before quote (y :: ys) c) :
    On s before quote (y :: ys) (c.closing quote) := by
  unfold Cursor.closing
  split
  · exact h
  · exact h.look (by simp)

theorem On.closing_paren (h : On s before quote (')' :: rest) c) :
    On s (before ++ [quote]) ')' rest (((c.closing quote).take [quote]).expect [')']) := by
  have ht : (c.closing quote).take [quote] = (c.closing quote).advance := h.closing.take (by simp)
  have hp : On s (before ++ [quote]) ')' rest (c.closing quote).advance := h.closing.advance
  rw [ht, hp.expect (by simp)]
  exact hp

/-- Where the text ends behind a closing quote, the parenthesis is missing. -/
theorem On.closing_end (h : On s before quote [] c) :
    Halted s s.text (s.obstacle.getD (.unexpected .endOfInput [.rightParen] s.bytes.length))
      (((c.closing quote).take [quote]).expect [')']) := by
  have htake {d : Cursor} (h : On s before quote [] d) :
      Halted s s.text (s.obstacle.getD (.unexpected .endOfInput [.rightParen] s.bytes.length))
        ((d.take [quote]).expect [')']) := by
    rw [h.take (by simp)]
    exact h.advance_spent.expect [')']
  unfold Cursor.closing
  split
  · exact htake h
  · rcases h.look_cases with hl | ⟨-, e, he, hf⟩
    · exact htake hl
    · have ht : before ++ [quote] = s.text := by simp [h.sourceText]
      have hk := kept_halted s s.text e
      rw [he]
      exact hk.expect (hk.take ⟨(ht ▸ h.placed : Placed s s.text c).look, hf⟩ _) _

theorem On.closing_other {y : Char} {ys : List Char} (h : On s before quote (y :: ys) c) (hy : y ≠ ')') :
    Halted s (before ++ [quote] ++ [y])
      (.unexpected (CodePoint.char y).classify [.rightParen] (s.place (before ++ [quote])))
      (((c.closing quote).take [quote]).expect [')']) := by
  rw [h.closing.take (by simp)]
  exact h.closing.advance.expect_other fun hm => hy (List.mem_singleton.1 hm)

theorem On.expressionToken_quote (hq : quote ∈ quotes) (h : On s before '(' (quote :: after) c) :
    ∃ d, On s (before ++ ['(']) quote after d ∧ ∀ start, c.expressionToken start =
      ⟨.regexp, (d.quotation quote).1, start, ((d.quotation quote).2.take [quote]).expect [')']⟩ := by
  have hl : On s before '(' (quote :: after) c.look := h.look (by simp)
  have ht : c.look.take ['('] = c.look.advance := hl.take (by simp)
  have ha : c.look.ahead = .char quote := h.ahead_look
  refine ⟨c.look.advance, hl.advance, fun start => ?_⟩
  unfold Cursor.expressionToken
  dsimp only
  rw [ha, ht]
  simp only [quotes, List.mem_cons, List.not_mem_nil, or_false] at hq
  rcases hq with rfl | rfl | rfl <;> rfl

theorem On.expressionToken_layout (h : On s before '(' ('\n' :: after) c) (start : Position) :
    c.expressionToken start =
      let (body, d) := c.look.balanced '(' ')'
      let margin := ExpressionLayout.margin body
      ⟨.regexp, ExpressionLayout.trim body, start.advance 0 margin margin, d⟩ := by
  have ha : c.look.ahead = .char '\n' := h.ahead_look
  unfold Cursor.expressionToken
  dsimp only
  rw [ha]
  rfl

theorem On.expressionToken_plain (h : On s before '(' after c)
    (hh : ∀ y ∈ after.head?, y ∉ ['\x60', '\x27', '\x22', '\n']) (start : Position) :
    c.expressionToken start =
      ⟨.regexp, (c.look.balanced '(' ')').1, start, (c.look.balanced '(' ')').2⟩ := by
  have ha : c.look.ahead = .ofHead after := h.ahead_look
  unfold Cursor.expressionToken
  dsimp only
  rw [ha]
  cases after with
  | nil => rfl
  | cons y ys =>
    have hy := hh y rfl
    simp only [List.mem_cons, List.not_mem_nil, or_false, not_or] at hy
    simp only [CodePoint.ofHead, List.head?_cons, Option.elim_some]
    split
    · rename_i hc; exact absurd (CodePoint.char.inj hc) hy.1
    · rename_i hc; exact absurd (CodePoint.char.inj hc) hy.2.1
    · rename_i hc; exact absurd (CodePoint.char.inj hc) hy.2.2.1
    · rename_i hc; exact absurd (CodePoint.char.inj hc) hy.2.2.2
    · rfl

/-- Without quotes in front an expression ends where its parentheses balance, and is trimmed behind a new line. -/
theorem On.expressionToken_cases (h : On s before '(' after c) (hh : ∀ y ∈ after.head?, y ∉ quotes)
    (start : Position) : (c.expressionToken start).cursor = (c.look.balanced '(' ')').2 ∧
      ((c.expressionToken start).literal = (c.look.balanced '(' ')').1 ∨
        after ≠ [] ∧ (c.expressionToken start).literal = ExpressionLayout.trim (c.look.balanced '(' ')').1) := by
  by_cases hn : after.head? = some '\n'
  · obtain ⟨after, rfl⟩ := List.head?_eq_some_iff.1 hn
    rw [h.expressionToken_layout]
    exact ⟨rfl, .inr ⟨List.cons_ne_nil _ _, rfl⟩⟩
  · have hplain : ∀ y ∈ after.head?, y ∉ ['\x60', '\x27', '\x22', '\n'] := by
      intro y hy hm
      have hnl : y ≠ '\n' := by rintro rfl; exact hn hy
      exact hh y hy (by simpa [quotes, hnl] using hm)
    rw [h.expressionToken_plain hplain]
    exact ⟨rfl, .inl rfl⟩

/-- The blanks in front of a laid out expression are those of its body. -/
theorem margin_eq {body : List Char} : (⟨[], .regexp, literal, '(' :: '\n' :: (body ++ [')'])⟩ : Chunk).margin =
    ExpressionLayout.margin (String.ofList ('\n' :: body)) := by
  have hp : ['(', '\n'] <+: '(' :: '\n' :: (body ++ [')']) := ⟨body ++ [')'], rfl⟩
  have hc : ∀ x, [')'].head? = some x → AsciiTrait.blank x = false := by
    rintro x ⟨⟩
    decide
  have hb := takeWhile_append_of_head ('\n' :: body) hc
  simp only [Chunk.margin, hp, and_self, if_true, ExpressionLayout.margin, String.toList_ofList, List.tail_cons, ← hb]
  rfl

theorem margin_eq_zero {inside : List Char} (h : inside.head? ≠ some '\n') (l : Lexeme) :
    (⟨[], l, literal, '(' :: inside⟩ : Chunk).margin = 0 := by
  have hn : ¬ ['(', '\n'] <+: '(' :: inside := by
    rintro ⟨more, he⟩
    obtain rfl : '\n' :: more = inside := (List.cons.inj he).2
    exact h rfl
  simp [Chunk.margin, hn]

theorem On.expressionToken_quoted (hq : Quotation literal quote inner)
    (h : On s before '(' (quote :: (inner ++ quote :: ')' :: rest)) c) :
    s.Reads before ⟨[], .regexp, literal, '(' :: quote :: (inner ++ [quote, ')'])⟩ rest
      (c.expressionToken (s.position before)) := by
  obtain ⟨d, hd, he⟩ := h.expressionToken_quote (mem_quotes hq)
  obtain ⟨c', hc, hr⟩ := hd.quotation hq
  have hp := hc.closing_paren
  have hn : quote ≠ '\n' := by
    rintro rfl
    exact absurd (mem_quotes hq) (by decide)
  have hm : (⟨[], .regexp, literal, '(' :: quote :: (inner ++ [quote, ')'])⟩ : Chunk).margin = 0 :=
    margin_eq_zero (by simpa using hn) _
  rw [he, hr]
  apply OnLast.reads
  · simpa [Chunk.text] using hp.onLast
  · exact Lexeme.noConfusion
  · exact Chunk.not_seesEnd rfl _
  · simp [hm]

theorem On.expressionToken_nested (hb : Balanced '(' ')' literal)
    (hh : ∀ y ∈ literal.head?, y ∉ ['\x60', '\x27', '\x22', '\n'])
    (h : On s before '(' (literal ++ ')' :: rest) c) :
    s.Reads before ⟨[], .regexp, literal, '(' :: (literal ++ [')'])⟩ rest
      (c.expressionToken (s.position before)) := by
  obtain ⟨c', hc, he⟩ := (h.look (by simp)).balanced (by decide) hb
  have hhead {more : List Char} : ∀ y ∈ (literal ++ ')' :: more).head?, y ∉ ['\x60', '\x27', '\x22', '\n'] := by
    cases literal with
    | nil => rintro y ⟨⟩; decide
    | cons z zs => exact hh
  have hm : (⟨[], .regexp, literal, '(' :: (literal ++ [')'])⟩ : Chunk).margin = 0 :=
    margin_eq_zero (fun hn => hhead '\n' hn (by decide)) _
  rw [h.expressionToken_plain hhead, he]
  apply OnLast.reads
  · simpa [Chunk.text] using hc.onLast
  · exact Lexeme.noConfusion
  · exact Chunk.not_seesEnd rfl _
  · simp [hm]

theorem On.expressionToken_laidOut {body : List Char} (hb : Balanced '(' ')' ('\n' :: body))
    (ht : Trimmed ('\n' :: body) literal) (h : On s before '(' ('\n' :: (body ++ ')' :: rest)) c) :
    s.Reads before ⟨[], .regexp, literal, '(' :: '\n' :: (body ++ [')'])⟩ rest
      (c.expressionToken (s.position before)) := by
  have hl : On s before '(' ('\n' :: body ++ ')' :: rest) c.look := h.look (by simp)
  obtain ⟨c', hc, he⟩ := hl.balanced (by decide) hb
  rw [h.expressionToken_layout, he]
  dsimp only
  rw [ht.trim_eq]
  apply OnLast.reads
  · simpa [Chunk.text] using hc.onLast
  · exact Lexeme.noConfusion
  · exact Chunk.not_seesEnd rfl _
  · simp [margin_eq]

theorem On.expressionToken {spelling : List Char} (hs : Spelling .regexp literal spelling)
    (h : On s before '(' after c) (ht : '(' :: after = spelling ++ rest) :
    s.Reads before ⟨[], .regexp, literal, spelling⟩ rest (c.expressionToken (s.position before)) := by
  cases hs with
  | quoted hq =>
    obtain rfl : after = _ := by simpa using ht
    exact h.expressionToken_quoted hq
  | nested hb hh =>
    obtain rfl : after = literal ++ ')' :: rest := by simpa using ht
    exact h.expressionToken_nested hb hh
  | laidOut hb htrim =>
    obtain rfl : after = _ := by simpa using ht
    exact h.expressionToken_laidOut hb htrim
  | itself hl => exact absurd (by simp) hl

theorem exists_spelling {body : List Char} (hb : Balanced '(' ')' body) (hh : ∀ y ∈ body.head?, y ∉ quotes) :
    ∃ literal, Spelling .regexp literal ('(' :: (body ++ [')'])) := by
  by_cases hn : body.head? = some '\n'
  · obtain ⟨body, rfl⟩ := List.head?_eq_some_iff.1 hn
    obtain ⟨literal, ht⟩ := Trimmed.exists ('\n' :: body)
    exact ⟨literal, .laidOut hb ht⟩
  · refine ⟨body, .nested hb fun y hy hm => hh y hy ?_⟩
    have hnl : y ≠ '\n' := by rintro rfl; exact hn hy
    simpa [quotes, hnl] using hm

theorem literal_balanced_of_failure {e : Failure} (h : c.failure = some e) (opener closer : Char) :
    (c.balanced opener closer).1 = "" := by
  have hd : (c.take [opener]).more = false := more_of_failure ((kept_failure e).take h _)
  rw [Cursor.balanced, balancedLoop]
  simp [hd, Cursor.unbalanced, since_fail, since_offset]

/-- Parentheses that are never balanced are read to the end of the text. -/
theorem On.nested_open (hh : ∀ y ∈ after.head?, y ∉ quotes) (h : On s before '(' after c)
    (hi : Inside '(' ')' 1 after) (start : Position) : s.Takes after (c.expressionToken start).literal ∧
      Halted s s.text (s.obstacle.getD (.unbalanced .leftParen .rightParen .endOfInput (1 + depth '(' ')' after)
        s.bytes.length)) (c.expressionToken start).cursor := by
  obtain ⟨hcursor, hliteral⟩ := h.expressionToken_cases hh start
  have hbody : (c.look.balanced '(' ')').1 = s.unclosed after ∧
      Halted s s.text (s.obstacle.getD (.unbalanced .leftParen .rightParen .endOfInput (1 + depth '(' ')' after)
        s.bytes.length)) (c.look.balanced '(' ')').2 := by
    rcases h.look_cases with hl | ⟨rfl, e, he, hf⟩
    · obtain ⟨c', hc, hb⟩ := hl.balanced_open (by decide) hi
      rw [hb]
      exact ⟨rfl, hc.unbalanced '(' ')' _⟩
    · have ht : before ++ ['('] = s.text := by simp [h.sourceText]
      rw [he]
      exact ⟨literal_balanced_of_failure hf _ _,
        (kept_halted s s.text e).balanced ⟨(ht ▸ h.placed : Placed s s.text c).look, hf⟩ _ _⟩
  refine ⟨?_, hcursor ▸ hbody.2⟩
  rcases hliteral with hl | ⟨hn, hl⟩
  · exact hl.trans hbody.1 ▸ s.takes_unclosed after
  · obtain ⟨literal, ht⟩ := Trimmed.exists (after ++ Utf8.wellFormedPart s.rest)
    rw [hl, hbody.1, SourceText.unclosed, if_neg hn, ht.trim_eq]
    exact .beyond [] after rfl hn (by simpa using Excerpt.trimmed ht)

end
end Cursor
end RoutePattern
