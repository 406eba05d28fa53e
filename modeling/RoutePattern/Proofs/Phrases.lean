import RoutePattern.Proofs.SentencePlaces

/-!
# Phrases

A phrase is the front part of a sentence. Its chunks fit each other, and the last of them fits the text that
goes on behind it. Of that text only the first character matters, so that a phrase can be read on with another
text, or with none.
-/
namespace RoutePattern

/-- The classes of the characters that runs go on with. -/
def CodePoint.runClasses : List (CodePoint → Bool) := [continuesSegment, isIdentifier, continuesLiteral, isDigit]

namespace Fits

section
variable {mode : Mode} {k : Chunk} {rest rest' : List Char}

/-- A chunk fits in front of another text that goes on with no run of its own, a method only in front of a slash. -/
theorem change_rest (h : Fits mode k rest) (hk : k.lexeme ≠ .endOfInput)
    (hm : k.lexeme = .method → rest.head? = some '/' → rest'.head? = some '/')
    (hr : ∀ member ∈ CodePoint.runClasses, member (.ofHead rest) = false → member (.ofHead rest') = false) :
    Fits mode k rest' := by
  cases h with
  | method hn hw hg =>
    obtain ⟨more, rfl⟩ := List.head?_eq_some_iff.1 (hm rfl rfl)
    exact .method hn hw hg
  | mark hmode hb hx => exact .mark hmode hb hx
  | segment hmode hb hs hc hu hn => exact .segment hmode hb hs hc hu (hr _ (by simp [CodePoint.runClasses]) hn)
  | finish | patternEnd => exact absurd rfl hk
  | single hx => exact .single hx
  | identifier hx hu hs hn => exact .identifier hx hu hs (hr _ (by simp [CodePoint.runClasses]) hn)
  | literal hs hn =>
    refine .literal hs ?_
    have := hr CodePoint.continuesLiteral (by simp [CodePoint.runClasses]) (decide_eq_false hn)
    exact of_decide_eq_false this
  | number hx hs hn => exact .number hx hs (hr _ (by simp [CodePoint.runClasses]) hn)
  | string hq => exact .string hq
  | regexp hs => exact .regexp hs

theorem congr_head (h : Fits mode k rest) (hk : k.lexeme ≠ .endOfInput) (hh : rest'.head? = rest.head?) :
    Fits mode k rest' := by
  refine h.change_rest hk (fun _ hs => hh.trans hs) fun member _ hn => ?_
  rwa [CodePoint.ofHead, hh, ← CodePoint.ofHead]

end
end Fits

/-- Chunks that lead from a mode to another one, with some text behind them that is not yet read. -/
inductive Phrase : Mode → List Chunk → List Char → Mode → Prop where
  | nil {mode rest} : Phrase mode [] rest mode
  | cons {mode k ks rest last} (hf : Fits mode k (ks.flatMap Chunk.text ++ rest)) (hk : k.lexeme ≠ .endOfInput)
      (hs : Phrase (.after k.lexeme) ks rest last) : Phrase mode (k :: ks) rest last

section
variable {mode last : Mode} {k : Chunk} {ks behind : List Chunk} {rest rest' blanks : List Char}

/-- A sentence is read up to each of its chunks by a phrase. -/
theorem Sentence.exists_phrase (h : Sentence mode (ks ++ k :: behind)) :
    ∃ last, Phrase mode ks ((k :: behind).flatMap Chunk.text) last ∧ Sentence last (k :: behind) := by
  induction ks generalizing mode with
  | nil => exact ⟨mode, .nil, h⟩
  | cons j ks ih =>
    generalize hj : j :: ks ++ k :: behind = js at h
    cases h with
    | finish => simp at hj
    | cons hf hk hs =>
      obtain ⟨rfl, rfl⟩ := List.cons.inj hj
      obtain ⟨last, hp, hl⟩ := ih hs
      exact ⟨last, .cons (by simpa using hf) hk hp, hl⟩

theorem Sentence.exists_finish (h : Sentence mode ks) : ∃ front blanks, ks = front ++ [.finish blanks] := by
  induction h with
  | finish => exact ⟨[], _, rfl⟩
  | @cons _ k _ _ _ _ ih =>
    obtain ⟨front, blanks, rfl⟩ := ih
    exact ⟨k :: front, blanks, rfl⟩

/-- A sentence is a phrase up to its end. -/
theorem Sentence.exists_phrase_finish (h : Sentence mode ks) : ∃ front blanks last,
    ks = front ++ [.finish blanks] ∧ Phrase mode front blanks last ∧ Fits last (.finish blanks) [] := by
  obtain ⟨front, blanks, rfl⟩ := h.exists_finish
  obtain ⟨last, hp, hl⟩ := h.exists_phrase
  refine ⟨front, blanks, last, rfl, by simpa [Chunk.finish, Chunk.text] using hp, ?_⟩
  cases hl with
  | finish hf => exact hf
  | cons _ hk => exact absurd rfl hk

theorem Phrase.sentence (h : Phrase mode ks blanks last) (hf : Fits last (.finish blanks) []) :
    Sentence mode (ks ++ [.finish blanks]) := by
  induction h with
  | nil => exact .finish hf
  | cons hk hl _ ih => exact .cons (by simpa [Chunk.finish, Chunk.text] using hk) hl (ih hf)

/-- Only the last chunk of a phrase meets the text behind it. -/
theorem Phrase.change_rest (h : Phrase mode ks rest last)
    (hm : ∀ k ∈ ks.getLast?, k.lexeme = .method → rest.head? = some '/' → rest'.head? = some '/')
    (hr : ∀ member ∈ CodePoint.runClasses, member (.ofHead rest) = false → member (.ofHead rest') = false) :
    Phrase mode ks rest' last := by
  induction h with
  | nil => exact .nil
  | @cons mode k ks rest last hf hk hs ih =>
    cases hs with
    | nil => exact .cons (hf.change_rest hk (hm k rfl) hr) hk .nil
    | @cons _ j js _ _ hj hl hs =>
      have hhead : ((j :: js).flatMap Chunk.text ++ rest').head? = ((j :: js).flatMap Chunk.text ++ rest).head? := by
        obtain ⟨x, xs, hx⟩ := List.exists_cons_of_ne_nil (hj.text_ne_nil hl)
        simp [hx]
      exact .cons (hf.congr_head hk hhead) hk (ih (by simpa using hm) hr)

theorem Phrase.congr_head (h : Phrase mode ks rest last) (hh : rest'.head? = rest.head?) :
    Phrase mode ks rest' last := by
  refine h.change_rest (fun _ _ _ hs => hh.trans hs) fun member _ hn => ?_
  rwa [CodePoint.ofHead, hh, ← CodePoint.ofHead]

/-- The look behind the last chunk meets what ends the text. -/
def Chunk.LastSeesEnd (ks : List Chunk) (rest : List Char) : Prop := ∃ k ∈ ks.getLast?, k.SeesEnd rest

theorem Chunk.LastSeesEnd.rest_nil (h : Chunk.LastSeesEnd ks rest) : rest = [] := by
  obtain ⟨_, -, hrest, -⟩ := h
  exact hrest

theorem Chunk.not_lastSeesEnd_nil (rest : List Char) : ¬ Chunk.LastSeesEnd [] rest := by
  rintro ⟨_, ⟨⟩, -⟩

theorem Chunk.lastSeesEnd_cons :
    Chunk.LastSeesEnd (k :: ks) rest ↔ ks = [] ∧ k.SeesEnd rest ∨ Chunk.LastSeesEnd ks rest := by
  cases ks <;> simp [Chunk.LastSeesEnd]

/-- Only behind the last chunk the text can end. -/
theorem Phrase.lastSeesEnd (h : Phrase mode ks rest last) (hs : k.SeesEnd (ks.flatMap Chunk.text ++ rest)) :
    Chunk.LastSeesEnd (k :: ks) rest := by
  obtain ⟨hempty, hc⟩ := hs
  obtain ⟨hks, rfl⟩ := List.append_eq_nil_iff.1 hempty
  cases h with
  | nil => exact Chunk.lastSeesEnd_cons.2 (.inl ⟨rfl, rfl, hc⟩)
  | cons hf hk => exact absurd (List.append_eq_nil_iff.1 hks).1 (hf.text_ne_nil hk)

/-- A phrase that ends with no method can stand at the end. -/
theorem Phrase.to_end (h : Phrase mode ks rest last) (hm : ∀ k ∈ ks.getLast?, k.lexeme ≠ .method) :
    Phrase mode ks [] last :=
  h.change_rest (fun k hk hl => absurd hl (hm k hk)) fun member hmem _ =>
    (by decide : ∀ member ∈ CodePoint.runClasses, member .eof = false) member hmem

end
end RoutePattern
