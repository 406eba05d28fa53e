import RoutePattern.Proofs.CharacterKinds
import RoutePattern.Proofs.EnclosedText

/-!
# The grammar of patterns

A pattern is written as chunks, each the spelling of one token with the whitespace in front of it. Which
chunks may stand at a place depends on the mode there and on the text behind the chunk, since runs go on
as long as they can.
-/
namespace RoutePattern
open EnclosedText

/-- The ways to write a literal between two quotes of a kind. -/
inductive Quotation (literal : List Char) : Char → List Char → Prop where
  | raw (hl : '\x60' ∉ literal) : Quotation literal '\x60' literal
  | escaped {quote} (hq : quote = '\x27' ∨ quote = '\x22') (hl : literal.getLast? ≠ some '\x5c') :
      Quotation literal quote (escape quote literal)

/-- The literal is the body without the whitespace around it. -/
structure Trimmed (body literal : List Char) : Prop where
  split : ∃ front back, body = front ++ literal ++ back ∧
    (∀ x ∈ front, AsciiTrait.blank x = true) ∧ ∀ x ∈ back, AsciiTrait.blank x = true
  head : ∀ x, literal.head? = some x → AsciiTrait.blank x = false
  last : ∀ x, literal.getLast? = some x → AsciiTrait.blank x = false

/-- The ways a literal comes from a part of a text. -/
inductive Excerpt (part : List Char) : List Char → Prop where
  | verbatim : Excerpt part part
  | unescaped {quote literal} (hq : quote = '\x27' ∨ quote = '\x22') (hl : escape quote literal = part) :
      Excerpt part literal
  | trimmed {literal} (ht : Trimmed part literal) : Excerpt part literal

/-- A literal comes from a part of the text. -/
def Yields (text literal : List Char) : Prop :=
  ∃ front part back, text = front ++ (part ++ back) ∧ Excerpt part literal

/-- The ways to write a token with a given lexeme and literal. -/
inductive Spelling : Lexeme → List Char → List Char → Prop where
  | method {word gap} (hg : gap = ' ' ∨ gap = '\t') : Spelling .method word (word ++ [gap])
  | string {literal quote inner} (hq : Quotation literal quote inner) :
      Spelling .string literal (quote :: (inner ++ [quote]))
  | quoted {literal quote inner} (hq : Quotation literal quote inner) :
      Spelling .regexp literal ('(' :: quote :: (inner ++ [quote, ')']))
  | nested {body} (hb : Balanced '(' ')' body) (hh : ∀ x ∈ body.head?, x ∉ ['\x60', '\x27', '\x22', '\n']) :
      Spelling .regexp body ('(' :: (body ++ [')']))
  | laidOut {body literal} (hb : Balanced '(' ')' ('\n' :: body)) (ht : Trimmed ('\n' :: body) literal) :
      Spelling .regexp literal ('(' :: '\n' :: (body ++ [')']))
  | endOfInput : Spelling .endOfInput [] []
  | itself {l literal} (hl : l ∉ [.method, .string, .regexp, .endOfInput]) : Spelling l literal literal

theorem Spelling.exists_paren {literal spelling} (h : Spelling .regexp literal spelling) :
    ∃ tail, spelling = '(' :: tail := by
  cases h with
  | quoted | nested | laidOut => exact ⟨_, rfl⟩
  | itself hl => exact absurd (by simp) hl

section
variable {literal text inner spelling : List Char} {quote : Char}

theorem Excerpt.yields (h : Excerpt text literal) : Yields text literal := ⟨[], text, [], by simp, h⟩

theorem Yields.mono (h : Yields text literal) (before after : List Char) :
    Yields (before ++ (text ++ after)) literal := by
  obtain ⟨front, part, back, rfl, he⟩ := h
  exact ⟨before ++ front, part, back ++ after, by simp, he⟩

theorem Quotation.excerpt (h : Quotation literal quote inner) : Excerpt inner literal := by
  cases h with
  | raw => exact .verbatim
  | escaped hq => exact .unescaped hq rfl

/-- A literal comes from the spelling of its token. -/
theorem Spelling.yields {l : Lexeme} (h : Spelling l literal spelling) : Yields spelling literal := by
  cases h with
  | @method word gap => exact Excerpt.verbatim.yields.mono [] [gap]
  | @string _ quote _ hq => exact hq.excerpt.yields.mono [quote] [quote]
  | @quoted _ quote _ hq => exact hq.excerpt.yields.mono ['(', quote] [quote, ')']
  | nested => exact Excerpt.verbatim.yields.mono ['('] [')']
  | laidOut _ ht => exact (Excerpt.trimmed ht).yields.mono ['('] [')']
  | endOfInput | itself => exact Excerpt.verbatim.yields

end

/-- A token as it is written, with the whitespace in front. -/
structure Chunk where
  blanks : List Char
  lexeme : Lexeme
  literal : List Char
  spelling : List Char

/-- The lexemes that a character alone has in a pattern. -/
def Lexeme.singles : List Lexeme :=
  [.whitespace, .slash, .backslash, .colon, .upper, .comma, .minus, .wildcard, .rightParen, .leftBrace,
   .rightBrace, .leftBracket, .rightBracket]

/-- The lexemes that a token can have. -/
def Lexeme.returned : List Lexeme :=
  singles ++ [.identifier, .literal, .method, .number, .regexp, .string, .segment, .endOfInput]

namespace Chunk

def text (k : Chunk) : List Char := k.blanks ++ k.spelling

/-- The end of the input behind some whitespace. -/
def finish (blanks : List Char) : Chunk := ⟨blanks, .endOfInput, [], []⟩

/-- A run that is its own literal. -/
def run (blanks : List Char) (l : Lexeme) (word : List Char) : Chunk := ⟨blanks, l, word, word⟩

/-- How much whitespace in front of a laid out expression does not count. -/
def margin (k : Chunk) : Nat :=
  if k.lexeme = .regexp ∧ ['(', '\n'] <+: k.spelling then
    (k.spelling.tail.takeWhile AsciiTrait.blank).length
  else 0

/-- Whether the end of a chunk is known without a look at what stands behind it. -/
def closed (k : Chunk) : Bool :=
  match k.lexeme with
  | .segment | .identifier | .literal | .number | .method | .endOfInput => false
  | .string => k.spelling.head? = some '\x60'
  | _ => true

/-- The look behind a chunk meets what ends the text. -/
def SeesEnd (k : Chunk) (rest : List Char) : Prop := rest = [] ∧ k.closed = false

theorem not_seesEnd {k : Chunk} (h : k.closed = true) (rest : List Char) : ¬ k.SeesEnd rest := fun hs => by
  cases h.symm.trans hs.2

theorem closed_of_singles {k : Chunk} (h : k.lexeme ∈ Lexeme.singles) : k.closed = true := by
  obtain ⟨blanks, l, literal, spelling⟩ := k
  simp only [Lexeme.singles, List.mem_cons, List.not_mem_nil, or_false] at h
  rcases h with rfl | rfl | rfl | rfl | rfl | rfl | rfl | rfl | rfl | rfl | rfl | rfl | rfl <;> rfl

end Chunk

/-- The chunks that may stand in a mode, with the text behind them. -/
inductive Fits : Mode → Chunk → List Char → Prop where
  | method {word gap rest} (hn : word ≠ []) (hw : ∀ x ∈ word, (CodePoint.char x).isUpper = true)
      (hg : gap = ' ' ∨ gap = '\t') : Fits .reset ⟨[], .method, word, word ++ [gap]⟩ ('/' :: rest)
  | mark {mode blanks x rest} (hm : mode ≠ .pattern) (hb : ∀ y ∈ blanks, AsciiTrait.blank y = true)
      (hx : x ∈ ['/', ':', '\x7b']) : Fits mode (.run blanks (CodePoint.char x).classify [x]) rest
  | segment {mode blanks x xs rest} (hm : mode ≠ .pattern) (hb : ∀ y ∈ blanks, AsciiTrait.blank y = true)
      (hs : ∀ y ∈ x :: xs, (CodePoint.char y).continuesSegment = true) (hc : x ≠ ':')
      (hu : mode = .reset → blanks = [] → (CodePoint.char x).isUpper = false)
      (hr : (CodePoint.ofHead rest).continuesSegment = false) : Fits mode (.run blanks .segment (x :: xs)) rest
  | finish {mode blanks} (hm : mode ≠ .pattern) (hb : ∀ y ∈ blanks, AsciiTrait.blank y = true) :
      Fits mode (.finish blanks) []
  | single {x rest} (hx : (CodePoint.char x).classify ∈ Lexeme.singles) :
      Fits .pattern (.run [] (CodePoint.char x).classify [x]) rest
  | identifier {x xs rest} (hx : (CodePoint.char x).isIdentifierStart = true)
      (hu : (CodePoint.char x).isUpper = false) (hs : ∀ y ∈ xs, (CodePoint.char y).isIdentifier = true)
      (hr : (CodePoint.ofHead rest).isIdentifier = false) : Fits .pattern (.run [] .identifier (x :: xs)) rest
  | literal {x xs rest} (hs : ∀ y ∈ x :: xs, (CodePoint.char y).classify = .literal)
      (hr : (CodePoint.ofHead rest).classify ≠ .literal) : Fits .pattern (.run [] .literal (x :: xs)) rest
  | number {x xs rest} (hx : x.isDigit = true) (hs : ∀ y ∈ xs, (CodePoint.char y).isDigit = true)
      (hr : (CodePoint.ofHead rest).isDigit = false) : Fits .pattern (.run [] .number (x :: xs)) rest
  | string {literal quote inner rest} (hq : Quotation literal quote inner) :
      Fits .pattern ⟨[], .string, literal, quote :: (inner ++ [quote])⟩ rest
  | regexp {literal spelling rest} (hs : Spelling .regexp literal spelling) :
      Fits .pattern ⟨[], .regexp, literal, spelling⟩ rest
  | patternEnd : Fits .pattern (.finish []) []

/-- Chunks that make up a whole pattern from a mode on. -/
inductive Sentence : Mode → List Chunk → Prop where
  | finish {mode blanks} (hf : Fits mode (.finish blanks) []) : Sentence mode [.finish blanks]
  | cons {mode k ks} (hf : Fits mode k (ks.flatMap Chunk.text)) (hk : k.lexeme ≠ .endOfInput)
      (hs : Sentence (.after k.lexeme) ks) : Sentence mode (k :: ks)

theorem Trimmed.exists (body : List Char) : ∃ literal, Trimmed body literal := by
  let p := AsciiTrait.blank
  let inner := body.dropWhile p
  have hback : inner = (inner.reverse.dropWhile p).reverse ++ (inner.reverse.takeWhile p).reverse := by
    rw [← List.reverse_append, List.takeWhile_append_dropWhile, List.reverse_reverse]
  have hhead : ∀ x, inner.head? = some x → p x = false := by
    intro x hx
    have := List.head?_dropWhile_not p body
    rw [hx] at this
    exact this
  refine ⟨(inner.reverse.dropWhile p).reverse, ⟨body.takeWhile p, (inner.reverse.takeWhile p).reverse, ?_, ?_, ?_⟩,
    ?_, ?_⟩
  · rw [List.append_assoc, ← hback, List.takeWhile_append_dropWhile]
  · exact List.all_eq_true.1 List.all_takeWhile
  · intro x hx
    exact List.all_eq_true.1 (List.all_takeWhile (p := p)) x (List.mem_reverse.1 hx)
  · intro x hx
    refine hhead x ?_
    rw [hback, List.head?_append, hx]
    rfl
  · intro x hx
    have := List.head?_dropWhile_not p inner.reverse
    rw [List.getLast?_reverse] at hx
    rw [hx] at this
    exact this

theorem dropWhile_of_head {p : Char → Bool} {cs : List Char} (h : ∀ x, cs.head? = some x → p x = false) :
    cs.dropWhile p = cs := by
  cases cs with
  | nil => rfl
  | cons x xs => simp [h x rfl]

theorem Trimmed.trim_eq {body literal : List Char} (h : Trimmed body literal) :
    ExpressionLayout.trim (String.ofList body) = String.ofList literal := by
  obtain ⟨front, back, rfl, hf, hb⟩ := h.split
  have hdrop : (front ++ literal ++ back).dropWhile AsciiTrait.blank = (literal ++ back).dropWhile AsciiTrait.blank := by
    rw [List.append_assoc]
    exact List.dropWhile_append_of_pos hf
  have hlast : (literal.reverse).dropWhile AsciiTrait.blank = literal.reverse :=
    dropWhile_of_head fun x hx => h.last x (by rwa [List.head?_reverse] at hx)
  unfold ExpressionLayout.trim
  rw [String.toList_ofList, hdrop]
  cases literal with
  | nil =>
    have hn : (back ++ []).dropWhile AsciiTrait.blank = [] := List.dropWhile_append_of_pos hb
    rw [List.append_nil] at hn
    rw [List.nil_append, hn]
    rfl
  | cons x xs =>
    have hh : (x :: xs ++ back).dropWhile AsciiTrait.blank = x :: xs ++ back :=
      dropWhile_of_head fun y hy => h.head y hy
    rw [hh]
    dsimp only
    rw [List.reverse_append, List.dropWhile_append_of_pos fun y hy => hb y (List.mem_reverse.1 hy), hlast,
      List.reverse_reverse]

end RoutePattern
