import RoutePattern.Proofs.SpelledPatterns
import RoutePattern.Proofs.UnreadText

/-!
# Names are read whole

A name in a pattern is one token, whatever letters and digits it has, unless it starts with a capital. Capitals
are tokens of their own, and the name goes on behind the first of them.
-/
namespace RoutePattern
open Utf8 (encode size)

namespace Scanner

/-- The next call reads these characters as one token, and does not fail. -/
structure ReadsWord (scanner : Scanner) (l : Lexeme) (word : List Char) : Prop where
  content : scanner.step.token.content = (l, String.ofList word)
  readOffset : scanner.step.scanner.cursor.readOffset = scanner.cursor.readOffset + size word
  failure : scanner.step.scanner.failure = none

section
variable {s : SourceText} {pattern : List UInt8} {before word rest : List Char} {l : Lexeme} {scanner : Scanner}

/-- A run that fits is read, if what stands behind it can be read too. -/
theorem Ready.readsWord (h : Ready s before (word ++ rest) scanner) (hk : Fits scanner.mode (.run [] l word) rest)
    (hn : word ≠ []) (hl : l ≠ .endOfInput) (ho : s.obstacle = none) (hr : scanner.cursor.readOffset = s.place before) :
    ReadsWord scanner l word := by
  have hready : Ready s before ((Chunk.run [] l word).text ++ rest) scanner := h
  rcases hready.step_reads hk with ⟨hp, -⟩ | hb
  · have hbehind := (hp.ready hl).behind
    refine ⟨?_, ?_, hbehind.failure⟩
    · rw [hp.token]
      rfl
    · rw [hbehind.readOffset, hr, ← SourceText.place_append]
      exact s.reached_of_ne_nil (by simp [Chunk.run, Chunk.text, hn])
  · obtain ⟨e, he, -⟩ := hb.halted
    cases ho.symm.trans he

/-- Where a scanner of patterns has legal text in front of it, it reads a run that the text starts with. -/
theorem readsWord_of_unread (h : Cursor.Worked pattern scanner.cursor) (hf : scanner.failure = none)
    (hm : scanner.mode = .pattern) (hlegal : ∀ y ∈ word ++ rest, CodePoint.IsLegal y)
    (hu : pattern.drop scanner.cursor.readOffset = encode (word ++ rest)) (hk : Fits .pattern (.run [] l word) rest)
    (hn : word ≠ []) (hl : l ≠ .endOfInput) : ReadsWord scanner l word := by
  obtain ⟨x, xs, rfl⟩ := List.exists_cons_of_ne_nil hn
  obtain ⟨s, before, rfl, hb, hr, hplace⟩ := h.exists_behind hf hlegal hu
  have hready : Ready s before (x :: xs ++ rest) scanner := ⟨hb, fun hreset => by cases hm.symm.trans hreset⟩
  exact hready.readsWord (hm.symm ▸ hk) hn hl (s.obstacle_eq_none.2 hr) hplace

end
end Scanner

section
variable {x : Char} {xs rest : List Char}

theorem CodePoint.isLegal_of_isIdentifier (h : (char x).isIdentifier = true) : IsLegal x := by
  constructor
  · rintro rfl
    revert h
    decide
  · rintro rfl
    revert h
    decide +kernel

/-- The characters of a name, of which the first is no digit. -/
structure IsName (x : Char) (xs : List Char) : Prop where
  head : (CodePoint.char x).isIdentifierStart = true
  tail : ∀ y ∈ xs, (CodePoint.char y).isIdentifier = true

/-- The token that a name starts with: a capital in front of it, or all of it. -/
def nameToken (x : Char) (xs : List Char) : Lexeme × List Char :=
  if (CodePoint.char x).isUpper then (.upper, [x]) else (.identifier, x :: xs)

theorem IsName.isLegal (h : IsName x xs) : ∀ y ∈ x :: xs, CodePoint.IsLegal y := by
  have hx : (CodePoint.char x).isIdentifier = true := by
    rw [CodePoint.isIdentifier, h.head]
    rfl
  exact List.forall_mem_cons.2
    ⟨CodePoint.isLegal_of_isIdentifier hx, fun y hy => CodePoint.isLegal_of_isIdentifier (h.tail y hy)⟩

theorem IsName.fits (h : IsName x xs) (hu : (CodePoint.char x).isUpper = false)
    (hr : (CodePoint.ofHead rest).isIdentifier = false) : Fits .pattern (.run [] .identifier (x :: xs)) rest :=
  .identifier h.head hu h.tail hr

theorem fits_capital (hu : (CodePoint.char x).isUpper = true) : Fits .pattern (.run [] .upper [x]) rest := by
  have hc : (CodePoint.char x).classify = .upper := CodePoint.classify_of_isUpper hu
  exact hc ▸ .single (hc.symm ▸ by decide)

/-- A name behind a colon is a whole pattern. -/
theorem IsName.scan_colon (h : IsName x xs) (hu : (CodePoint.char x).isUpper = false) :
    ∃ ts, scan (encode (':' :: x :: xs)) = .ok ts ∧
      ts.map Token.content = [(.colon, ":"), (.identifier, String.ofList (x :: xs)), (.endOfInput, "")] := by
  have hlegal : ∀ y ∈ ':' :: x :: xs, CodePoint.IsLegal y := List.forall_mem_cons.2 ⟨by decide, h.isLegal⟩
  let s := SourceText.ofLegal false (':' :: x :: xs) hlegal
  let ks : List Chunk := [.run [] (CodePoint.char ':').classify [':'], .run [] .identifier (x :: xs), .finish []]
  have htext : ks.flatMap Chunk.text = ':' :: x :: xs := by simp [ks, Chunk.run, Chunk.finish, Chunk.text]
  have hname : Sentence .pattern [.run [] .identifier (x :: xs), .finish []] :=
    .cons (h.fits hu rfl) Lexeme.noConfusion (.finish .patternEnd)
  have hs : Sentence .reset ks :=
    .cons (.mark Mode.noConfusion (List.forall_mem_nil _) (by decide)) (by decide) hname
  have hb : s.bytes = encode (':' :: x :: xs) := List.append_nil _
  have hscan := scan_sentence (s := s) hs htext.symm rfl
  rw [hb] at hscan
  exact ⟨_, hscan, s.content_tokens [] ks⟩

theorem name_scanned (h : IsName x xs) :
    (∀ (pattern : List UInt8) (scanner : Scanner) (rest : List Char), Cursor.Worked pattern scanner.cursor →
      scanner.failure = none → scanner.mode = .pattern →
      (∀ y ∈ rest, CodePoint.IsLegal y) → (CodePoint.ofHead rest).isIdentifier = false →
      pattern.drop scanner.cursor.readOffset = encode (x :: xs ++ rest) →
      scanner.ReadsWord (nameToken x xs).1 (nameToken x xs).2) ∧
    ((CodePoint.char x).isUpper = false → ∃ ts, scan (encode (':' :: x :: xs)) = .ok ts ∧
      ts.map Token.content = [(.colon, ":"), (.identifier, String.ofList (x :: xs)), (.endOfInput, "")]) := by
  refine ⟨fun pattern scanner rest hc hf hm hrest hr hu => ?_, h.scan_colon⟩
  have hlegal : ∀ y ∈ x :: xs ++ rest, CodePoint.IsLegal y := List.forall_mem_append.2 ⟨h.isLegal, hrest⟩
  unfold nameToken
  split
  · rename_i hx
    exact Scanner.readsWord_of_unread hc hf hm hlegal hu (fits_capital hx) (List.cons_ne_nil x []) Lexeme.noConfusion
  · rename_i hx
    have hx : (CodePoint.char x).isUpper = false := by simpa using hx
    exact Scanner.readsWord_of_unread hc hf hm hlegal hu (h.fits hx hr) (List.cons_ne_nil x xs) Lexeme.noConfusion

theorem name_scanned_greek :
    (Scanner.start (encode [':', 'λ', '1', '_', '/'])).step.scanner.ReadsWord .identifier ['λ', '1', '_'] ∧
      ∃ ts, scan (encode [':', 'λ', '1', '_']) = .ok ts ∧
        ts.map Token.content = [(.colon, ":"), (.identifier, "λ1_"), (.endOfInput, "")] := by
  have hname : IsName 'λ' ['1', '_'] :=
    ⟨by decide +kernel, List.forall_mem_cons.2 ⟨by decide, List.forall_mem_singleton.2 (by decide)⟩⟩
  have hreached : Scanner.Reached (encode [':', 'λ', '1', '_', '/']) _ := .step .start
  refine ⟨?_, (name_scanned hname).2 (by decide)⟩
  exact (name_scanned hname).1 _ _ ['/'] hreached.worked (by decide +kernel) (by decide +kernel)
    (List.forall_mem_singleton.2 (by decide)) (by decide) (by decide +kernel)

/-- A name that starts with a capital is more than one token. -/
theorem name_split_capital : IsName 'I' ['d'] ∧ ∃ ts, scan (encode [':', 'I', 'd']) = .ok ts ∧
    ts.map Token.content = [(.colon, ":"), (.upper, "I"), (.identifier, "d"), (.endOfInput, "")] := by
  have hname : IsName 'I' ['d'] := ⟨by decide, List.forall_mem_singleton.2 (by decide)⟩
  have hscan : scan (encode [':', 'I', 'd']) = .ok [⟨.colon, ":", ⟨1, 1, 0⟩, ⟨1, 1, 1⟩⟩,
      ⟨.upper, "I", ⟨1, 1, 1⟩, ⟨1, 2, 2⟩⟩, ⟨.identifier, "d", ⟨1, 2, 2⟩, ⟨1, 3, 3⟩⟩, .endOfInput ⟨1, 3, 3⟩] :=
    scan_eq_ok (by decide +kernel)
  exact ⟨hname, _, hscan, rfl⟩

end
end RoutePattern
