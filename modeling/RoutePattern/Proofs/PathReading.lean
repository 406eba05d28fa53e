import RoutePattern.Proofs.Findings

/-!
# Reading a path

Every text fits some chunk of a path, unless it starts with a capital in front of everything else. Then
it is a method, or it is not decided whether a method or a segment is meant.
-/
namespace RoutePattern
open SourceText

namespace Cursor

section
variable {s : SourceText} {before blanks after rest word : List Char} {x : Char} {c : Cursor}

theorem Behind.blankLoop_char (h : Behind s before (blanks ++ x :: after) c)
    (hb : ∀ y ∈ blanks, AsciiTrait.blank y = true) (hx : AsciiTrait.blank x = false) :
    ∃ c', On s (before ++ blanks) x after c' ∧
      c.advance.blankLoop (s.position before) = (s.position (before ++ blanks), c') := by
  induction blanks generalizing before c with
  | nil =>
    have ha : On s before x after c.advance := h.advance
    refine ⟨c.advance, by simpa using ha, ?_⟩
    rw [blankLoop]
    simp [ha.currentChar, CodePoint.isWhitespace_char, hx]
  | cons y ys ih =>
    have ha : On s before y (ys ++ x :: after) c.advance := h.advance
    have hy : AsciiTrait.blank y = true := hb y (by simp)
    obtain ⟨c', hc, he⟩ := ih ha.toBehind fun z hz => hb z (by simp [hz])
    refine ⟨c', by simpa using hc, ?_⟩
    rw [blankLoop]
    simpa [ha.more, ha.currentChar, CodePoint.isWhitespace_char, hy, ha.position] using he

theorem Behind.blankLoop_end (h : Behind s before blanks c)
    (hb : ∀ y ∈ blanks, AsciiTrait.blank y = true) :
    ∃ c', Spent s c' ∧ c.advance.blankLoop (s.position before) = (s.position (before ++ blanks), c') := by
  induction blanks generalizing before c with
  | nil =>
    have ha : Spent s c.advance := h.advance_spent
    refine ⟨c.advance, ha, ?_⟩
    rw [blankLoop]
    simp [ha.more]
  | cons y ys ih =>
    have ha : On s before y ys c.advance := h.advance
    have hy : AsciiTrait.blank y = true := hb y (by simp)
    obtain ⟨c', hc, he⟩ := ih ha.toBehind fun z hz => hb z (by simp [hz])
    refine ⟨c', hc, ?_⟩
    rw [blankLoop]
    simpa [ha.more, ha.currentChar, CodePoint.isWhitespace_char, hy, ha.position] using he

theorem On.found_single {l : Lexeme} (h : On s (before ++ blanks) x rest c)
    (hl : l ∉ [.regexp, .endOfInput]) :
    s.Found before (.run blanks l [x]) rest (c.single l (s.position (before ++ blanks))) := by
  have hs : c.slice c.offset c.readOffset = String.ofList [x] := by
    rw [h.offset]
    exact h.toBehind.slice (by simp)
  have hc : OnLast s (before ++ (Chunk.run blanks l [x]).text) rest c := by
    simpa [Chunk.run, Chunk.text] using h.onLast
  simp only [List.mem_cons, List.not_mem_nil, or_false, not_or] at hl
  rw [Cursor.single, hs]
  exact hc.found hl.2 (Chunk.start_of_ne hl.1 _).symm

theorem Behind.pathToken_mark (h : Behind s before (blanks ++ x :: rest) c)
    (hb : ∀ y ∈ blanks, AsciiTrait.blank y = true) (hx : x ∈ ['/', ':', '\x7b']) :
    s.Found before (.run blanks (CodePoint.char x).classify [x]) rest
      (c.advance.pathToken (s.position before)) := by
  obtain ⟨hl, hn, -⟩ := CodePoint.classify_of_path hx
  obtain ⟨c', hc, he⟩ := h.blankLoop_char hb hn
  have ht : c.advance.pathToken (s.position before) =
      c'.single (CodePoint.char x).classify (s.position (before ++ blanks)) := by
    rw [pathToken, he]
    simp only [hc.currentChar]
    generalize (CodePoint.char x).classify = l at hl
    cases l <;> first | rfl | exact absurd hl (by decide)
  rw [ht]
  apply hc.found_single
  exact (by decide : ∀ l ∈ [.slash, .colon, .leftBrace], l ∉ [Lexeme.regexp, .endOfInput]) _ hl

/-- Only marks are no part of a segment. -/
theorem segment_of_classify {l : Lexeme} (hs : (CodePoint.char x).continuesSegment = true) (hc : x ≠ ':')
    (hl : (CodePoint.char x).classify = l) : l ∉ [.colon, .slash, .leftBrace, .endOfInput] := by
  have h0 : x ≠ '\x00' := by rintro rfl; revert hs; decide
  obtain ⟨-, hslash, hbrace⟩ := (CodePoint.continuesSegment_iff h0).1 hs
  intro hm
  simp only [List.mem_cons, List.not_mem_nil, or_false] at hm
  rcases hm with rfl | rfl | rfl | rfl
  · exact hc (CodePoint.eq_of_mark (CodePoint.mark_of_classify hl (by decide)) rfl)
  · exact hslash (CodePoint.eq_of_mark (CodePoint.mark_of_classify hl (by decide)) rfl)
  · exact hbrace (CodePoint.eq_of_mark (CodePoint.mark_of_classify hl (by decide)) rfl)
  · exact CodePoint.classify_ne_endOfInput x hl

theorem Behind.pathToken_segment {xs : List Char} (h : Behind s before (blanks ++ x :: (xs ++ rest)) c)
    (hb : ∀ y ∈ blanks, AsciiTrait.blank y = true)
    (hs : ∀ y ∈ x :: xs, (CodePoint.char y).continuesSegment = true) (hc : x ≠ ':')
    (hr : (CodePoint.ofHead rest).continuesSegment = false) :
    s.Reads before (.run blanks .segment (x :: xs)) rest (c.advance.pathToken (s.position before)) := by
  have hx : (CodePoint.char x).continuesSegment = true := hs x (by simp)
  have h0 : x ≠ '\x00' := by rintro rfl; revert hx; decide
  obtain ⟨c', hc', he⟩ := h.blankLoop_char hb ((CodePoint.continuesSegment_iff h0).1 hx).1
  obtain ⟨d, hd, hrun⟩ := hc'.run_class (fun y hy => hs y (by simp [hy])) hr
  have ht : c.advance.pathToken (s.position before) =
      ⟨.segment, String.ofList (x :: xs), s.position (before ++ blanks), d.look⟩ := by
    have hl := segment_of_classify hx hc rfl
    rw [pathToken, he]
    simp only [hc'.currentChar]
    split <;> rename_i hl'
    · exact absurd (by simp [hl']) hl
    · exact absurd (by simp [hl']) hl
    · exact absurd (by simp [hl']) hl
    · exact absurd (by simp [hl']) hl
    · rw [hrun]
  have hd : OnLast s (before ++ (Chunk.run blanks .segment (x :: xs)).text) rest d := by
    simpa [Chunk.run, Chunk.text] using hd
  rw [ht]
  exact hd.reads_look Lexeme.noConfusion rfl (Chunk.start_of_ne Lexeme.noConfusion _).symm

theorem Behind.pathToken_finish (h : Behind s before blanks c)
    (hb : ∀ y ∈ blanks, AsciiTrait.blank y = true) :
    s.Reads before (.finish blanks) [] (c.advance.pathToken (s.position before)) := by
  obtain ⟨c', hc, he⟩ := h.blankLoop_end hb
  have ht : c.advance.pathToken (s.position before) = ⟨.endOfInput, "", s.position (before ++ blanks), c'⟩ := by
    rw [pathToken, he]
    simp only [hc.current]
    rfl
  rw [ht]
  exact hc.reads blanks

theorem Behind.methodToken_word (h : Behind s before (word ++ rest) c) (hn : word ≠ [])
    (hw : ∀ y ∈ word, (CodePoint.char y).isUpper = true) (hr : (CodePoint.ofHead rest).isUpper = false) :
    ∃ c', OnLast s (before ++ word) rest c' ∧
      c.advance.run [CodePoint.isUpper] = (String.ofList word, c'.look) := by
  obtain ⟨x, xs, rfl⟩ := List.exists_cons_of_ne_nil hn
  have ha : On s before x (xs ++ rest) c.advance := h.advance
  exact ha.run_class (fun y hy => hw y (by simp [hy])) hr

/-- Behind a run of capitals and a blank the next character decides. -/
theorem methodToken_blank {text : String} {done : List Char} {d : Cursor}
    (he : c.run [CodePoint.isUpper] = (text, d.look)) (hd : OnLast s done (x :: after) d)
    (hx : x = ' ' ∨ x = '\t') (start : Position) : On s done x after d.look.advance ∧ c.methodToken start =
      if (CodePoint.ofHead after).is '/' then ⟨.method, text, start, d.look.advance.look⟩
      else d.look.advance.look.undecided text start := by
  have hl : Behind s done (x :: after) d.look := hd.behind.look (by simp)
  have ha : On s done x after d.look.advance := hl.advance
  have hgap : d.look.ahead.isAny [' ', '\t'] = true := by
    rw [hd.behind.ahead_look]
    rcases hx with rfl | rfl <;> rfl
  refine ⟨ha, ?_⟩
  rw [← ha.ahead_look]
  simp only [Cursor.methodToken, he, look_look, hgap, if_true]

theorem methodToken_other {text : String} {done : List Char} {d : Cursor}
    (he : c.run [CodePoint.isUpper] = (text, d.look)) (hd : OnLast s done rest d)
    (hn : ∀ y ∈ rest.head?, y ≠ ' ' ∧ y ≠ '\t') (start : Position) :
    c.methodToken start = d.look.undecided text start := by
  have hgap : d.look.ahead.isAny [' ', '\t'] = false := by
    rw [hd.behind.ahead_look]
    cases rest with
    | nil => rfl
    | cons y ys => simpa [CodePoint.ofHead, CodePoint.isAny, CodePoint.char?] using hn y rfl
  simp only [Cursor.methodToken, he, look_look, hgap]
  rfl

theorem Behind.methodToken (h : Behind s [] (word ++ x :: '/' :: rest) c) (hn : word ≠ [])
    (hw : ∀ y ∈ word, (CodePoint.char y).isUpper = true) (hx : x = ' ' ∨ x = '\t') :
    s.Reads [] ⟨[], .method, word, word ++ [x]⟩ ('/' :: rest) (c.advance.methodToken (s.position [])) := by
  have hu : (CodePoint.ofHead (x :: '/' :: rest)).isUpper = false := by
    rcases hx with rfl | rfl <;> rfl
  obtain ⟨d, hd, he⟩ := h.methodToken_word hn hw hu
  obtain ⟨hg, ht⟩ := methodToken_blank he hd hx (s.position [])
  have hlast : OnLast s ([] ++ (⟨[], .method, word, word ++ [x]⟩ : Chunk).text) ('/' :: rest)
      d.look.advance.look := by
    simpa [Chunk.text] using (hg.look (by simp)).onLast
  rw [ht]
  refine hlast.reads Lexeme.noConfusion (fun hsees => ?_) (Chunk.start_of_ne Lexeme.noConfusion _).symm
  cases hsees.1

/-- An undecided word fails with what ends the text, if that stands right ahead, and else as ambiguous. -/
theorem On.undecided (h : On s before x after c) (text : String) (start : Position) :
    Halted s (before ++ [x]) ((s.obstacleAhead after).getD
      (.ambiguous (CodePoint.char x).classify (readings text) (s.place before)))
      (c.look.undecided text start).cursor := by
  refine ⟨h.placed.look.fail _, ?_⟩
  have hambiguous (hl : On s before x after c.look) : (c.look.undecided text start).cursor.failure =
      some (.ambiguous (CodePoint.char x).classify (readings text) (s.place before)) := by
    rw [Cursor.undecided, ambiguous, failure_fail_of_none hl.failure, hl.currentChar, hl.offset]
  cases after with
  | nil =>
    rw [obstacleAhead, if_pos rfl]
    cases he : s.obstacle with
    | none => exact hambiguous (h.look fun _ => he)
    | some e => exact failure_fail (h.failure_look he) _
  | cons y ys => exact hambiguous (h.look (by simp))

/-- A run of capitals that no single blank and slash follow is undecided where a blank stands behind it, or
else on its last letter. -/
theorem Behind.methodToken_undecided (h : Behind s [] (word ++ rest) c) (hn : word ≠ [])
    (hw : ∀ y ∈ word, (CodePoint.char y).isUpper = true) (hr : (CodePoint.ofHead rest).isUpper = false)
    (hm : ∀ gap after, gap = ' ' ∨ gap = '\t' → rest ≠ gap :: '/' :: after) (start : Position) :
    ∃ before x after d, On s before x after d ∧
      c.advance.methodToken start = d.look.undecided (String.ofList word) start ∧
      ((x = ' ' ∨ x = '\t') ∧ before = word ∧ rest = x :: after ∨
        x ∈ word ∧ word = before ++ [x] ∧ rest = after ∧ ∀ y ∈ rest.head?, y ≠ ' ' ∧ y ≠ '\t') := by
  obtain ⟨d, hd, he⟩ := h.methodToken_word hn hw hr
  by_cases hgap : ∃ gap after, (gap = ' ' ∨ gap = '\t') ∧ rest = gap :: after
  · obtain ⟨gap, after, hg, rfl⟩ := hgap
    obtain ⟨ha, ht⟩ := methodToken_blank he hd hg start
    have hslash : (CodePoint.ofHead after).is '/' = false := by
      cases after with
      | nil => rfl
      | cons y ys =>
        have hy : y ≠ '/' := fun hy => hm gap ys hg (by rw [hy])
        simpa [CodePoint.ofHead, CodePoint.is] using hy
    rw [hslash] at ht
    exact ⟨word, gap, after, d.look.advance, by simpa using ha, ht, .inl ⟨hg, rfl, rfl⟩⟩
  · have hblank : ∀ y ∈ rest.head?, y ≠ ' ' ∧ y ≠ '\t' := by
      intro y hy
      obtain ⟨ys, rfl⟩ := List.head?_eq_some_iff.1 hy
      exact not_or.1 fun hg => hgap ⟨y, ys, hg, rfl⟩
    obtain ⟨before, x, hlast, hon⟩ := hd
    have hword : word = before ++ [x] := hlast
    exact ⟨before, x, rest, d, hon, methodToken_other he ⟨before, x, hlast, hon⟩ hblank start,
      .inr ⟨by simp [hword], hword, rfl, hblank⟩⟩

end
end Cursor

section
variable {text : List Char}

theorem exists_fits_path {mode : Mode} (hm : mode ≠ .pattern) (hl : ∀ x ∈ text, CodePoint.IsLegal x)
    (hu : mode = .reset → (CodePoint.ofHead text).isUpper = false) :
    ∃ k rest, text = k.text ++ rest ∧ Fits mode k rest := by
  obtain ⟨blanks, behind, rfl, hb, hh⟩ := CodePoint.exists_run CodePoint.isWhitespace rfl text
  simp only [CodePoint.isWhitespace_char] at hb
  cases behind with
  | nil => exact ⟨.finish blanks, [], by simp [Chunk.finish, Chunk.text], .finish hm hb⟩
  | cons x xs =>
    by_cases hx : x ∈ ['/', ':', '\x7b']
    · exact ⟨_, xs, by simp [Chunk.run, Chunk.text], .mark hm hb hx⟩
    · obtain ⟨word, rest, rfl, hw, hr⟩ := CodePoint.exists_run CodePoint.continuesSegment rfl xs
      have hn : AsciiTrait.blank x = false := (CodePoint.isWhitespace_char x).symm.trans hh
      simp only [List.mem_cons, List.not_mem_nil, or_false, not_or] at hx
      have hseg : (CodePoint.char x).continuesSegment = true :=
        (CodePoint.continuesSegment_iff (hl x (by simp)).1).2 ⟨hn, hx.1, hx.2.2⟩
      have hall : ∀ y ∈ x :: word, (CodePoint.char y).continuesSegment = true :=
        List.forall_mem_cons.2 ⟨hseg, hw⟩
      refine ⟨_, rest, by simp [Chunk.run, Chunk.text], .segment hm hb hall hx.2.1 ?_ hr⟩
      rintro hreset rfl
      exact hu hreset

end
end RoutePattern
