import RoutePattern.Proofs.Findings

/-!
# Places in a sentence

At each place of a sentence a chunk fits the mode that the lexeme in front of it leads to. The text of the
pattern up to there is the text of the chunks before it.
-/
namespace RoutePattern
open EnclosedText

theorem CodePoint.classify_mem_singles {x : Char} (hx : x ∈ ['/', ':', '\x7b']) :
    (char x).classify ∈ Lexeme.singles :=
  (by decide : ∀ l ∈ [.slash, .colon, .leftBrace], l ∈ Lexeme.singles) _ (classify_of_path hx).1

namespace Fits

section
variable {mode : Mode} {k : Chunk} {rest : List Char}

theorem lexeme_mem (h : Fits mode k rest) : k.lexeme ∈ Lexeme.returned := by
  have hs : ∀ l ∈ Lexeme.singles, l ∈ Lexeme.returned := fun _ => List.mem_append_left _
  cases h with
  | mark _ _ hx => exact hs _ (CodePoint.classify_mem_singles hx)
  | single hx => exact hs _ hx
  | _ => simp [Chunk.run, Chunk.finish, Lexeme.returned]

theorem isValid (h : Fits mode k rest) : k.lexeme.isValid = true :=
  (by decide : ∀ l ∈ Lexeme.returned, l.isValid = true) _ h.lexeme_mem

theorem method_inv (h : Fits mode k rest) (hk : k.lexeme = .method) : mode = .reset ∧
    ∃ word gap after, k = ⟨[], .method, word, word ++ [gap]⟩ ∧ rest = '/' :: after ∧ word ≠ [] ∧
      (∀ x ∈ word, (CodePoint.char x).isUpper = true) ∧ (gap = ' ' ∨ gap = '\t') := by
  have hn : Lexeme.method ∉ Lexeme.singles := by decide
  cases h with
  | method hn hw hg => exact ⟨rfl, _, _, _, rfl, rfl, hn, hw, hg⟩
  | mark hm hb hx => exact absurd (hk ▸ CodePoint.classify_mem_singles hx) hn
  | single hx => exact absurd (hk ▸ hx) hn
  | _ => cases hk

theorem finish_of_endOfInput (h : Fits mode k rest) (hk : k.lexeme = .endOfInput) :
    ∃ blanks, k = .finish blanks ∧ rest = [] := by
  have hn : Lexeme.endOfInput ∉ Lexeme.singles := by decide
  cases h with
  | finish | patternEnd => exact ⟨_, rfl, rfl⟩
  | mark hm hb hx => exact absurd (hk ▸ CodePoint.classify_mem_singles hx) hn
  | single hx => exact absurd (hk ▸ hx) hn
  | _ => cases hk

theorem text_ne_nil (h : Fits mode k rest) (hk : k.lexeme ≠ .endOfInput) : k.text ≠ [] := by
  cases h with
  | finish | patternEnd => exact absurd rfl hk
  | method hn => simp [Chunk.text]
  | regexp hs =>
    obtain ⟨tail, rfl⟩ := hs.exists_paren
    simp [Chunk.text]
  | _ => simp [Chunk.text, Chunk.run]

theorem spelling (h : Fits mode k rest) : Spelling k.lexeme k.literal k.spelling := by
  have hn : ∀ l ∈ Lexeme.singles, l ∉ [.method, .string, .regexp, .endOfInput] := by decide
  cases h with
  | method _ _ hg => exact .method hg
  | mark hm hb hx => exact .itself (hn _ (CodePoint.classify_mem_singles hx))
  | single hx => exact .itself (hn _ hx)
  | segment | identifier | literal | number => exact .itself (by simp [Chunk.run])
  | finish | patternEnd => exact .endOfInput
  | string hq => exact .string hq
  | regexp hs => exact hs

theorem blanks (h : Fits mode k rest) : ∀ x ∈ k.blanks, AsciiTrait.blank x = true := by
  cases h with
  | mark _ hb | segment _ hb | finish _ hb => exact hb
  | _ => exact fun _ hx => absurd hx List.not_mem_nil

/-- Only in a path whitespace may stand in front, and not in front of a method. -/
theorem front (h : Fits mode k rest) (hb : k.blanks ≠ []) : mode ≠ .pattern ∧ k.lexeme ≠ .method := by
  refine ⟨?_, fun hk => ?_⟩
  · cases h with
    | mark hm | segment hm | finish hm => exact hm
    | _ => exact absurd rfl hb
  · obtain ⟨-, word, gap, after, rfl, -⟩ := h.method_inv hk
    exact hb rfl

/-- In front of everything else only a method starts with a capital. -/
theorem head_not_upper (h : Fits .reset k rest) (hk : k.lexeme ≠ .method) :
    (CodePoint.ofHead (k.text ++ rest)).isUpper = false := by
  have hblank {blanks : List Char} (tail : List Char) (hb : ∀ y ∈ blanks, AsciiTrait.blank y = true)
      (ht : blanks = [] → (CodePoint.ofHead tail).isUpper = false) :
      (CodePoint.ofHead (blanks ++ tail)).isUpper = false := by
    cases blanks with
    | nil => exact ht rfl
    | cons y ys => exact CodePoint.isUpper_of_blank (hb y (by simp))
  cases h with
  | method => exact absurd rfl hk
  | @mark _ blanks x _ hm hb hx =>
    have ht := hblank (x :: rest) hb fun _ => (CodePoint.classify_of_path hx).2.2
    simpa [Chunk.run, Chunk.text] using ht
  | @segment _ blanks x xs _ hm hb hs hc hu hr =>
    have ht := hblank (x :: (xs ++ rest)) hb (hu rfl)
    simpa [Chunk.run, Chunk.text] using ht
  | finish hm hb => simpa [Chunk.finish, Chunk.text] using hblank [] hb fun _ => rfl

end
end Fits

/-- The mode at a place among lexemes. -/
def Mode.before (first : Mode) (ls : List Lexeme) : Nat → Mode
  | 0 => first
  | i + 1 => ls[i]?.elim .pattern .after

theorem Mode.before_cons (first : Mode) (l : Lexeme) (ls : List Lexeme) (i : Nat) :
    first.before (l :: ls) (i + 1) = (Mode.after l).before ls i := by
  cases i <;> rfl

section
variable {mode : Mode} {k : Chunk} {ks : List Chunk} {i : Nat}

/-- The text of the chunks up to a place. -/
def Chunk.textUpTo (ks : List Chunk) (i : Nat) : List Char := (ks.take i).flatMap Chunk.text

theorem Sentence.fits_at (h : Sentence mode ks) (hi : ks[i]? = some k) :
    Fits (mode.before (ks.map Chunk.lexeme) i) k ((ks.drop (i + 1)).flatMap Chunk.text) := by
  induction h generalizing i with
  | finish hf =>
    cases i with
    | zero =>
      cases hi
      exact hf
    | succ i => cases hi
  | cons hf hk hs ih =>
    cases i with
    | zero =>
      cases hi
      exact hf
    | succ i =>
      rw [List.map_cons, Mode.before_cons]
      exact ih hi

theorem flatMap_at (hi : ks[i]? = some k) : ks.flatMap Chunk.text =
    Chunk.textUpTo ks i ++ (k.text ++ (ks.drop (i + 1)).flatMap Chunk.text) := by
  obtain ⟨hlt, rfl⟩ := List.getElem?_eq_some_iff.1 hi
  conv => lhs; rw [← List.take_append_drop i ks, List.drop_eq_getElem_cons hlt]
  rw [List.flatMap_append, List.flatMap_cons]
  rfl

theorem textUpTo_succ (hi : ks[i]? = some k) : Chunk.textUpTo ks (i + 1) = Chunk.textUpTo ks i ++ k.text := by
  simp [Chunk.textUpTo, List.take_add_one, hi]

end

namespace SourceText

section
variable (s : SourceText) (before : List Char) (ks : List Chunk)

theorem lexeme_tokens : (s.tokens before ks).map Token.lexeme = ks.map Chunk.lexeme := by
  induction ks generalizing before with
  | nil => rfl
  | cons k ks ih => exact congrArg (k.lexeme :: ·) (ih _)

theorem length_tokens : (s.tokens before ks).length = ks.length := by
  induction ks generalizing before with
  | nil => rfl
  | cons k ks ih => exact congrArg (· + 1) (ih _)

theorem tokens_append (js : List Chunk) :
    s.tokens before (ks ++ js) = s.tokens before ks ++ s.tokens (before ++ ks.flatMap Chunk.text) js := by
  induction ks generalizing before with
  | nil => simp [tokens]
  | cons k ks ih => simp [tokens, ih]

theorem stop_token {k : Chunk} (hk : k.text ≠ []) :
    (s.token before k).stop.offset = s.place (before ++ k.text) :=
  s.reached_of_ne_nil (List.append_ne_nil_of_right_ne_nil before hk)

theorem place_congr {r : SourceText} (h : s.marked = r.marked) : s.place before = r.place before := by
  simp only [place, lead, h]

theorem position_congr {r : SourceText} (h : s.marked = r.marked) : s.position before = r.position before := by
  simp only [position, reached, s.place_congr before h]

/-- What stands behind the chunks does not matter. -/
theorem tokens_congr {r : SourceText} (h : s.marked = r.marked) : s.tokens before ks = r.tokens before ks := by
  induction ks generalizing before with
  | nil => rfl
  | cons k ks ih => simp only [tokens, token, s.position_congr _ h, ih]

/-- Tokens one behind the other are those of chunks one behind the other. -/
theorem exists_chunks {front back : List Token} {t : Token} (h : s.tokens before ks = front ++ t :: back) :
    ∃ js k behind, ks = js ++ k :: behind ∧ front = s.tokens before js ∧
      t = s.token (before ++ js.flatMap Chunk.text) k ∧
      back = s.tokens (before ++ js.flatMap Chunk.text ++ k.text) behind := by
  induction front generalizing before ks with
  | nil =>
    cases ks with
    | nil => cases h
    | cons k ks =>
      obtain ⟨rfl, rfl⟩ := List.cons.inj h
      exact ⟨[], k, ks, rfl, rfl, by simp, by simp⟩
  | cons u front ih =>
    cases ks with
    | nil => cases h
    | cons j ks =>
      obtain ⟨rfl, hrest⟩ := List.cons.inj h
      obtain ⟨js, k, behind, rfl, rfl, rfl, rfl⟩ := ih _ _ hrest
      exact ⟨j :: js, k, behind, rfl, rfl, by simp, by simp⟩

theorem tokens_at (i : Nat) :
    (s.tokens before ks)[i]? = ks[i]?.map fun k => s.token (before ++ Chunk.textUpTo ks i) k := by
  induction ks generalizing before i with
  | nil => rfl
  | cons k ks ih =>
    cases i with
    | zero => simp [tokens, Chunk.textUpTo]
    | succ i => simp [tokens, ih, Chunk.textUpTo]

end
end SourceText
end RoutePattern
