import RoutePattern.Proofs.PatternReading

/-!
# Texts that fit no chunk

Where a text fits no chunk, it is dead or open. The first characters of a dead text make it fail, and it does not
matter what stands behind them. An open text ends before something that it starts is closed or decided.
-/
namespace RoutePattern
open EnclosedText SourceText

/-- Texts that fail in a mode: the part that is read, a character and what stands right behind it, which no token
goes on with, and the failure at the offset of the character. -/
inductive Dead : Mode → List Char → Char → List Char → (Nat → Failure) → Prop where
  | unreadable {x} (hx : (CodePoint.char x).classify = .invalid) :
      Dead .pattern [] x [] (.unexpected .invalid Scanner.recovery)
  | unclosed {literal quote inner x} (hq : Quotation literal quote inner) (hx : x ≠ ')') :
      Dead .pattern ('(' :: quote :: (inner ++ [quote])) x [] (.unexpected (CodePoint.char x).classify [.rightParen])
  | letter {word x y} (hw : ∀ z ∈ word ++ [x], (CodePoint.char z).isUpper = true)
      (hy : (CodePoint.char y).isUpper = false ∧ y ≠ ' ' ∧ y ≠ '\t') :
      Dead .reset word x [y]
        (.ambiguous (CodePoint.char x).classify (Cursor.readings (String.ofList (word ++ [x]))))
  | gap {word x y} (hn : word ≠ []) (hw : ∀ z ∈ word, (CodePoint.char z).isUpper = true) (hx : x = ' ' ∨ x = '\t')
      (hy : y ≠ '/') :
      Dead .reset word x [y] (.ambiguous (CodePoint.char x).classify (Cursor.readings (String.ofList word)))

/-- Texts that end too early in a mode. -/
inductive Open : Mode → List Char → Prop where
  | quotes {quote after} (hq : quote ∈ Cursor.quotes)
      (hn : ∀ literal inner rest, after = inner ++ quote :: rest → ¬ Quotation literal quote inner) :
      Open .pattern (quote :: after)
  | quoted {quote after} (hq : quote ∈ Cursor.quotes)
      (hn : ∀ literal inner rest, after = inner ++ quote :: rest → ¬ Quotation literal quote inner) :
      Open .pattern ('(' :: quote :: after)
  | unclosed {literal quote inner} (hq : Quotation literal quote inner) :
      Open .pattern ('(' :: quote :: (inner ++ [quote]))
  | nested {after} (hh : ∀ y ∈ after.head?, y ∉ Cursor.quotes) (hi : Inside '(' ')' 1 after) :
      Open .pattern ('(' :: after)
  | word {word} (hn : word ≠ []) (hw : ∀ z ∈ word, (CodePoint.char z).isUpper = true) : Open .reset word
  | gap {word x} (hn : word ≠ []) (hw : ∀ z ∈ word, (CodePoint.char z).isUpper = true) (hx : x = ' ' ∨ x = '\t') :
      Open .reset (word ++ [x])

/-- Texts whose reading meets the end: open ones, and chunks whose end is not known without a look behind them. -/
inductive MeetsEnd (mode : Mode) : List Char → Prop where
  | chunk {k} (hk : Fits mode k []) (hc : k.closed = false) : MeetsEnd mode k.text
  | open {text} (ho : Open mode text) : MeetsEnd mode text

/-- What reading a text in a mode comes to. -/
inductive Outlook (mode : Mode) (text : List Char) : Prop where
  | fits {k} (rest) (ht : text = k.text ++ rest) (hk : Fits mode k rest)
  | dead {front x ahead f} (rest) (ht : text = front ++ x :: (ahead ++ rest)) (hd : Dead mode front x ahead f)
  | open (ho : Open mode text)

section
variable {mode : Mode} {text after : List Char} {x quote : Char}

theorem Outlook.quotation (hq : quote ∈ Cursor.quotes) (after : List Char) : Outlook .pattern (quote :: after) := by
  by_cases hc : ∃ literal inner rest, after = inner ++ quote :: rest ∧ Quotation literal quote inner
  · obtain ⟨literal, inner, rest, rfl, hl⟩ := hc
    exact .fits rest (by simp [Chunk.text]) (.string hl)
  · exact .open (.quotes hq fun literal inner rest ht hl => hc ⟨literal, inner, rest, ht, hl⟩)

theorem Outlook.quoted (hq : quote ∈ Cursor.quotes) (after : List Char) :
    Outlook .pattern ('(' :: quote :: after) := by
  by_cases hc : ∃ literal inner rest, after = inner ++ quote :: rest ∧ Quotation literal quote inner
  · obtain ⟨literal, inner, rest, rfl, hl⟩ := hc
    cases rest with
    | nil => exact .open (.unclosed hl)
    | cons x rest =>
      by_cases hx : x = ')'
      · subst hx
        exact .fits rest (by simp [Chunk.text]) (.regexp (.quoted hl))
      · exact .dead rest (by simp) (.unclosed hl hx)
  · exact .open (.quoted hq fun literal inner rest ht hl => hc ⟨literal, inner, rest, ht, hl⟩)

theorem Outlook.nested (hh : ∀ y ∈ after.head?, y ∉ Cursor.quotes) : Outlook .pattern ('(' :: after) := by
  rcases @closes_or_inside '(' ')' 1 after (by decide) (Int.le_refl 1) with ⟨body, rest, rfl, hi, hb⟩ | hi
  · have hhead : ∀ y ∈ body.head?, y ∉ Cursor.quotes := by
      intro y hy
      obtain ⟨ys, rfl⟩ := List.head?_eq_some_iff.1 hy
      exact hh y rfl
    obtain ⟨literal, hs⟩ := Cursor.exists_spelling (balanced_iff.2 ⟨hi, hb⟩) hhead
    exact .fits rest (by simp [Chunk.text]) (.regexp hs)
  · exact .open (.nested hh hi)

theorem Outlook.expression (after : List Char) : Outlook .pattern ('(' :: after) := by
  by_cases hq : ∃ quote rest, quote ∈ Cursor.quotes ∧ after = quote :: rest
  · obtain ⟨quote, rest, hq, rfl⟩ := hq
    exact .quoted hq rest
  · refine .nested fun y hy hm => ?_
    obtain ⟨ys, rfl⟩ := List.head?_eq_some_iff.1 hy
    exact hq ⟨y, ys, hm, rfl⟩

/-- A mark is a token of its own, or opens quotes or an expression. -/
theorem Outlook.mark {l : Lexeme} (hm : Lexeme.ofMark? x = some l) (after : List Char) :
    Outlook .pattern (x :: after) := by
  by_cases hp : x = '('
  · exact hp ▸ .expression after
  · by_cases hx : x ∈ Cursor.quotes
    · exact .quotation hx after
    · have hs := CodePoint.of_mark
        (p := fun y => decide (y = '(' ∨ y ∈ Cursor.quotes ∨ (CodePoint.char y).classify ∈ Lexeme.singles))
        (by decide) hm
      have hx : (CodePoint.char x).classify ∈ Lexeme.singles := by simpa [hp, hx] using hs
      exact .fits after (by simp [Chunk.run, Chunk.text]) (.single hx)

theorem Outlook.pattern (text : List Char) : Outlook .pattern text := by
  cases text with
  | nil => exact .fits [] rfl .patternEnd
  | cons x after =>
    have hsingle (hx : (CodePoint.char x).classify ∈ Lexeme.singles) : Outlook .pattern (x :: after) :=
      .fits after (by simp [Chunk.run, Chunk.text]) (.single hx)
    rcases CodePoint.classify_cases x with
      ⟨-, hc⟩ | ⟨l, hm, -⟩ | ⟨hd, -⟩ | ⟨-, hc⟩ | ⟨-, hc⟩ | ⟨hi, hu, -⟩ | hc
    case inl => exact hsingle (by rw [hc]; decide)
    case inr.inl => exact .mark hm after
    case inr.inr.inl =>
      obtain ⟨xs, rest, rfl, hs, hr⟩ := CodePoint.exists_run CodePoint.isDigit rfl after
      exact .fits rest (by simp [Chunk.run, Chunk.text]) (.number hd hs hr)
    case inr.inr.inr.inl => exact .dead after (by simp) (.unreadable hc)
    case inr.inr.inr.inr.inl => exact hsingle (by rw [hc]; decide)
    case inr.inr.inr.inr.inr.inl =>
      obtain ⟨xs, rest, rfl, hs, hr⟩ := CodePoint.exists_run CodePoint.isIdentifier rfl after
      exact .fits rest (by simp [Chunk.run, Chunk.text]) (.identifier hi hu hs hr)
    case inr.inr.inr.inr.inr.inr =>
      obtain ⟨xs, rest, rfl, hs, hr⟩ := CodePoint.exists_run CodePoint.continuesLiteral (by decide) after
      simp only [CodePoint.continuesLiteral, decide_eq_true_eq, decide_eq_false_iff_not] at hs hr
      have hrun : ∀ y ∈ x :: xs, (CodePoint.char y).classify = .literal := List.forall_mem_cons.2 ⟨hc, hs⟩
      exact .fits rest (by simp [Chunk.run, Chunk.text]) (.literal hrun hr)

/-- Capitals in front of a pattern are a method or undecided. -/
theorem Outlook.word (hu : (CodePoint.ofHead text).isUpper = true) : Outlook .reset text := by
  obtain ⟨word, rest, rfl, hw, hr⟩ := CodePoint.exists_run CodePoint.isUpper rfl text
  have hn : word ≠ [] := by
    rintro rfl
    rw [List.nil_append, hr] at hu
    cases hu
  cases rest with
  | nil => exact .open (by simpa using .word hn hw)
  | cons y rest =>
    by_cases hy : y = ' ' ∨ y = '\t'
    · cases rest with
      | nil => exact .open (.gap hn hw hy)
      | cons z rest =>
        by_cases hz : z = '/'
        · subst hz
          exact .fits ('/' :: rest) (by simp [Chunk.text]) (.method hn hw hy)
        · exact .dead rest (by simp) (.gap hn hw hy hz)
    · obtain ⟨front, x, rfl⟩ : ∃ front x, word = front ++ [x] :=
        ⟨word.dropLast, word.getLast hn, (List.dropLast_concat_getLast hn).symm⟩
      exact .dead rest (by simp) (.letter hw ⟨hr, not_or.1 hy⟩)

/-- Every text fits a chunk, or is dead or open. -/
theorem outlook (mode : Mode) (hl : ∀ x ∈ text, CodePoint.IsLegal x) : Outlook mode text := by
  have hpath (hm : mode ≠ .pattern) (hu : mode = .reset → (CodePoint.ofHead text).isUpper = false) :
      Outlook mode text := by
    obtain ⟨k, rest, ht, hk⟩ := exists_fits_path hm hl hu
    exact .fits rest ht hk
  cases mode with
  | pattern => exact .pattern text
  | path => exact hpath Mode.noConfusion Mode.noConfusion
  | reset =>
    cases hu : (CodePoint.ofHead text).isUpper with
    | true => exact .word hu
    | false => exact hpath Mode.noConfusion fun _ => hu

end

namespace Dead

section
variable {mode : Mode} {front ahead rest before : List Char} {x : Char} {f : Nat → Failure} {s : SourceText}

theorem offset (h : Dead mode front x ahead f) (n : Nat) : (f n).offset = n := by cases h <;> rfl

/-- A dead text fails within five bytes behind what is read of it. -/
theorem size_le (h : Dead mode front x ahead f) : Utf8.size (x :: ahead) ≤ 5 := by
  cases h with
  | unreadable | unclosed => have := x.utf8Size_le_four; simp; omega
  | @letter _ _ y hw =>
    have hx := CodePoint.utf8Size_of_isUpper (hw x (by simp))
    have := y.utf8Size_le_four
    simp [hx]; omega
  | @gap _ _ y _ _ hx =>
    have hx : x.utf8Size = 1 := by rcases hx with rfl | rfl <;> rfl
    have := y.utf8Size_le_four
    simp [hx]; omega

/-- The failure of a dead text is one of the failures of its text. -/
theorem flaw (h : Dead mode front x ahead f) (hm : mode = .reset → before = [])
    (ht : s.text = before ++ (front ++ x :: (ahead ++ rest))) : s.Flaw (f (s.place (before ++ front))) := by
  have ht : s.text = before ++ front ++ x :: (ahead ++ rest) := by rw [ht, List.append_assoc]
  cases h with
  | unreadable hx => exact .unreadable ht hx
  | unclosed _ hx => exact .unclosed ht hx
  | letter hw =>
    obtain rfl := hm rfl
    refine .undecided ht (.inl (hw x (by simp))) ?_
    rw [ht, List.nil_append, List.append_cons]
    exact CodePoint.member_ofHead (by simp) hw _
  | gap hn hw hx =>
    obtain rfl := hm rfl
    refine .undecided ht (.inr hx) ?_
    rw [ht, List.nil_append]
    exact CodePoint.member_ofHead hn hw _

end
end Dead
end RoutePattern
