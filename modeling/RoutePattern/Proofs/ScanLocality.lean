import Mathlib.Data.List.Forall2
import RoutePattern.Proofs.ReachedScanners

/-!
# A scan depends on what is left to read

From some place on a scan depends on the mode and on the unread bytes alone. Two scanners that agree in these
read the same tokens, all displaced by the same lines, columns and bytes, and they fail alike or not at all.
-/
namespace RoutePattern

namespace Position

/-- By how many lines, columns and bytes two positions differ. -/
def minus (p q : Position) : Int × Int × Int :=
  ((p.line : Int) - q.line, (p.column : Int) - q.column, (p.offset : Int) - q.offset)

theorem minus_advance (p q : Position) (lines columns bytes : Nat) :
    (p.advance lines columns bytes).minus (q.advance lines columns bytes) = p.minus q := by
  simp only [minus, advance, Prod.mk.injEq]
  omega

end Position

/-- Two patterns that go on with the same bytes, each behind a position of its own. -/
structure CommonTail where
  one : List UInt8
  two : List UInt8
  oneStart : Position
  twoStart : Position
  shared : one.drop oneStart.offset = two.drop twoStart.offset
  one_pos : 0 < oneStart.offset
  two_pos : 0 < twoStart.offset
  one_le : oneStart.offset ≤ one.length
  two_le : twoStart.offset ≤ two.length

namespace CommonTail

/-- Places as far behind the start of the common bytes. -/
def Offsets (t : CommonTail) (m n : Nat) : Prop := ∃ i, m = t.oneStart.offset + i ∧ n = t.twoStart.offset + i

/-- Positions that are displaced as the start of the common bytes is. -/
structure Positions (t : CommonTail) (p q : Position) : Prop where
  one : p.isValid = true
  two : q.isValid = true
  minus : p.minus q = t.oneStart.minus t.twoStart
  behind : t.twoStart.offset ≤ q.offset

/-- Failures that differ at most in where they are. -/
structure Failures (t : CommonTail) (e f : Failure) : Prop where
  cause : e.withOffset 0 = f.withOffset 0
  offset : t.Offsets e.offset f.offset

/-- What is decoded alike. -/
inductive Decodings (t : CommonTail) : Decoded → Decoded → Prop
  | stop : Decodings t .stop .stop
  | char {c width} (hw : Char.utf8Size c ≤ width) : Decodings t (.char c width) (.char c width)
  | illegal {e f} (h : t.Failures e f) : Decodings t (.illegal e) (.illegal f)

/-- Cursors that have read equally far. -/
structure Aligned (t : CommonTail) (c d : Cursor) : Prop where
  one : c.pattern = t.one
  two : d.pattern = t.two
  position : t.Positions c.position d.position
  readOffset : t.Offsets c.readOffset d.readOffset

/-- Cursors that have not failed and read on alike. -/
structure Level (t : CommonTail) (c d : Cursor) : Prop extends Aligned t c d where
  reset : c.current = .reset ↔ d.current = .reset
  oneFailure : c.failure = none
  twoFailure : d.failure = none

/-- Cursors that show the same. -/
structure Twins (t : CommonTail) (c d : Cursor) : Prop extends Aligned t c d where
  offset : t.Offsets c.offset d.offset
  current : c.current = d.current
  lookahead : c.lookahead = d.lookahead
  failure : Option.Rel t.Failures c.failure d.failure

section
variable (t : CommonTail) {m n k l : Nat} {p q : Position} {c d : Cursor} {e f : Failure}

theorem drop_eq (h : t.Offsets m n) : t.one.drop m = t.two.drop n := by
  obtain ⟨i, rfl, rfl⟩ := h
  rw [← List.drop_drop, ← List.drop_drop, t.shared]

theorem offsets_length : t.Offsets t.one.length t.two.length := by
  have hl := congrArg List.length t.shared
  have hone := t.one_le
  have htwo := t.two_le
  simp only [List.length_drop] at hl
  exact ⟨t.one.length - t.oneStart.offset, by omega, by omega⟩

theorem Offsets.add (h : t.Offsets m n) (width : Nat) : t.Offsets (m + width) (n + width) := by
  obtain ⟨i, rfl, rfl⟩ := h
  exact ⟨i + width, by omega, by omega⟩

theorem Positions.advance (h : t.Positions p q) (lines columns bytes : Nat) :
    t.Positions (p.advance lines columns bytes) (q.advance lines columns bytes) :=
  ⟨SourceText.isValid_advance h.one _ _ _, SourceText.isValid_advance h.two _ _ _,
    (Position.minus_advance p q lines columns bytes).trans h.minus, Nat.le_add_right_of_le h.behind⟩

theorem decodings_strict (h : t.Offsets m n) : t.Decodings (.strict t.one m) (.strict t.two n) := by
  unfold Decoded.strict
  rw [t.drop_eq h]
  split
  · exact .stop
  · split
    · exact .illegal ⟨rfl, h⟩
    · unfold Decoded.ofChar
      split
      · exact .illegal ⟨rfl, h⟩
      · split
        · exact .illegal ⟨rfl, h⟩
        · exact .char (Nat.le_refl _)

/-- Behind the start no byte order marker is taken in. -/
theorem decodings_ofPattern (h : t.Offsets m n) : t.Decodings (.ofPattern t.one m) (.ofPattern t.two n) := by
  have hm : m ≠ 0 := by obtain ⟨i, rfl, -⟩ := h; have := t.one_pos; omega
  have hn : n ≠ 0 := by obtain ⟨i, -, rfl⟩ := h; have := t.two_pos; omega
  unfold Decoded.ofPattern
  rw [if_neg fun hz => hm hz.1, if_neg fun hz => hn hz.1]
  exact t.decodings_strict h

theorem Level.next (h : t.Level c d) : t.Decodings c.next d.next := by
  unfold Cursor.next
  rw [h.oneFailure, h.twoFailure, h.one, h.two]
  exact t.decodings_ofPattern h.readOffset

theorem Twins.level (h : t.Twins c d) (hc : c.failure = none) (hd : d.failure = none) : t.Level c d :=
  ⟨h.toAligned, by rw [h.current], hc, hd⟩

theorem Twins.failed (h : t.Twins c d) :
    c.failure = none ∧ d.failure = none ∨ ∃ e f, c.failure = some e ∧ d.failure = some f ∧ t.Failures e f := by
  have hf := h.failure
  cases hc : c.failure <;> cases hd : d.failure <;> rw [hc, hd] at hf <;> cases hf
  case none.none => exact .inl ⟨rfl, rfl⟩
  case some.some e f hf => exact .inr ⟨e, f, rfl, rfl, hf⟩

theorem Twins.next (h : t.Twins c d) : t.Decodings c.next d.next := by
  rcases h.failed with ⟨hc, hd⟩ | ⟨e, f, hc, hd, -⟩
  · exact (h.level t hc hd).next
  · rw [Cursor.next_of_failure hc, Cursor.next_of_failure hd]
    exact .stop

theorem Aligned.fail (h : t.Aligned c d) (e f : Failure) : t.Aligned (c.fail e) (d.fail f) := by
  obtain ⟨hp, hpos, -, hr⟩ := c.fail_same e
  obtain ⟨hp', hpos', -, hr'⟩ := d.fail_same f
  exact ⟨hp.trans h.one, hp'.trans h.two, by rw [hpos, hpos']; exact h.position, by rw [hr, hr']; exact h.readOffset⟩

theorem Aligned.finish (h : t.Aligned c d) (hf : Option.Rel t.Failures c.failure d.failure) :
    t.Twins c.finish d.finish where
  one := h.one
  two := h.two
  position := h.position
  readOffset := h.readOffset
  offset := by
    show t.Offsets c.pattern.length d.pattern.length
    rw [h.one, h.two]
    exact t.offsets_length
  current := rfl
  lookahead := rfl
  failure := hf

theorem Level.moveTo (h : t.Level c d) {ch : Char} {width : Nat} (hw : ch.utf8Size ≤ width) :
    t.Twins (c.moveTo ch width) (d.moveTo ch width) where
  one := h.one
  two := h.two
  position := by
    have hr : (if c.current = .reset then 0 else 1) = if d.current = .reset then 0 else 1 := by simp only [h.reset]
    simp only [Cursor.moveTo, hr]
    exact h.position.advance t _ _ _
  readOffset := h.readOffset.add t width
  offset := by
    obtain ⟨i, hc, hd⟩ := h.readOffset
    simp only [Cursor.moveTo, hc, hd]
    exact ⟨i + width - ch.utf8Size, by omega, by omega⟩
  current := rfl
  lookahead := rfl
  failure := by
    simp only [Cursor.moveTo, h.oneFailure, h.twoFailure]
    exact .none

/-- Reading on alike leads to cursors that show the same. -/
theorem Level.advance (h : t.Level c d) : t.Twins c.advance d.advance := by
  have hn := h.next
  unfold Cursor.advance
  cases hc : c.next <;> cases hd : d.next <;> rw [hc, hd] at hn <;> cases hn
  case stop.stop => exact h.finish t (by rw [h.oneFailure, h.twoFailure]; exact .none)
  case char.char hw => exact h.moveTo t hw
  case illegal.illegal he =>
    refine (h.toAligned.fail t _ _).finish t ?_
    rw [Cursor.failure_fail_of_none h.oneFailure, Cursor.failure_fail_of_none h.twoFailure]
    exact .some he

theorem Twins.advance (h : t.Twins c d) : t.Twins c.advance d.advance := by
  rcases h.failed with ⟨hc, hd⟩ | ⟨e, f, hc, hd, -⟩
  · exact (h.level t hc hd).advance
  · rw [Cursor.advance_of_stop (Cursor.next_of_failure hc), Cursor.advance_of_stop (Cursor.next_of_failure hd)]
    exact h.finish t h.failure

theorem Twins.fail (h : t.Twins c d) (he : t.Failures e f) : t.Twins (c.fail e) (d.fail f) := by
  rcases h.failed with ⟨hc, hd⟩ | ⟨e', f', hc, hd, -⟩
  · exact {
      h.toAligned.fail t e f with
      offset := by rw [(c.fail_same e).2.2.1, (d.fail_same f).2.2.1]; exact h.offset
      current := by simp [Cursor.fail, hc, hd]
      lookahead := by simp [Cursor.fail, hc, hd]
      failure := by
        rw [Cursor.failure_fail_of_none hc, Cursor.failure_fail_of_none hd]
        exact .some he }
  · have hone : c.fail e = c := by simp [Cursor.fail, hc]
    have htwo : d.fail f = d := by simp [Cursor.fail, hd]
    rw [hone, htwo]
    exact h

theorem Twins.withLookahead (h : t.Twins c d) (p : CodePoint) :
    t.Twins { c with lookahead := some p } { d with lookahead := some p } :=
  ⟨⟨h.one, h.two, h.position, h.readOffset⟩, h.offset, h.current, rfl, h.failure⟩

theorem Twins.look (h : t.Twins c d) : t.Twins c.look d.look := by
  have hn := h.next
  unfold Cursor.look
  rw [h.lookahead]
  cases d.lookahead with
  | some p => exact h
  | none =>
    cases hc : c.next <;> cases hd : d.next <;> rw [hc, hd] at hn <;> cases hn
    case stop.stop => exact h.withLookahead t _
    case char.char => exact h.withLookahead t _
    case illegal.illegal he => exact (h.fail t he).withLookahead t .eof

theorem slice_eq (hc : c.pattern = t.one) (hd : d.pattern = t.two) (hm : t.Offsets m n) (hl : t.Offsets k l) :
    c.slice m k = d.slice n l := by
  have hdrop := t.drop_eq hm
  obtain ⟨i, hi⟩ := t.offsets_length
  obtain ⟨j, rfl, rfl⟩ := hm
  obtain ⟨o, rfl, rfl⟩ := hl
  have hbound : t.oneStart.offset + o ≤ t.one.length ↔ t.twoStart.offset + o ≤ t.two.length := by omega
  have hcount : t.oneStart.offset + o - (t.oneStart.offset + j) = t.twoStart.offset + o - (t.twoStart.offset + j) := by
    omega
  simp only [Cursor.slice, hc, hd, hbound, hdrop, hcount]

/-- Over patterns with a common tail all readers go alike. -/
def simulation : Simulation where
  cursors := t.Twins
  positions := t.Positions
  offsets := t.Offsets
  current h := h.current
  lookahead h := h.lookahead
  failed h := by
    rcases h.failed with ⟨hc, hd⟩ | ⟨e, f, hc, hd, -⟩
    · rw [hc, hd]
    · rw [hc, hd]
      rfl
  position h := h.position
  offset h := h.offset
  read h hm := t.slice_eq h.one h.two hm h.readOffset
  since h hm := t.slice_eq h.one h.two hm h.offset
  advance h := h.advance t
  look h := h.look t
  fail h e := h.fail t ⟨by simp, by simpa using h.offset⟩

end

open Scanner

/-- Tokens that differ at most in where they stand. -/
structure Tokens (t : CommonTail) (u v : Token) : Prop where
  lexeme : u.lexeme = v.lexeme
  literal : u.literal = v.literal
  start : t.Positions u.start v.start
  stop : t.Positions u.stop v.stop

/-- Steps with such tokens, which leave their scanners alike. -/
structure Steps (t : CommonTail) (one two : Step) : Prop where
  token : t.Tokens one.token two.token
  mode : one.scanner.mode = two.scanner.mode
  cursor : t.Twins one.scanner.cursor two.scanner.cursor

section
variable {t : CommonTail} {a b : Scanner} {f g : Finding}

theorem Tokens.isValid {u v : Token} (h : t.Tokens u v) : u.isValid = v.isValid := by
  simp only [Token.isValid, h.lexeme, h.start.one, h.start.two, h.stop.one, h.stop.two]

theorem steps_accept (h : t.simulation.Alike f g) : t.Steps (accept f) (accept g) := by
  have htoken : t.Tokens (accept f).token (accept g).token :=
    ⟨h.lexeme, h.literal, h.start, h.cursor.position⟩
  have hcursor (found : Finding) : (accept found).scanner.cursor =
      { (if (accept found).token.isValid then found.cursor
          else found.cursor.unexpected found.cursor.current recovery) with reports := [] } := rfl
  have hreport {c d : Cursor} (hc : t.Twins c d) : t.Twins { c with reports := [] } { d with reports := [] } :=
    ⟨⟨hc.one, hc.two, hc.position, hc.readOffset⟩, hc.offset, hc.current, hc.lookahead, hc.failure⟩
  refine ⟨htoken, congrArg Mode.after h.lexeme, ?_⟩
  rw [hcursor, hcursor, htoken.isValid]
  apply hreport
  split
  · exact h.cursor
  · rw [h.cursor.current]
    exact t.simulation.unexpected h.cursor _ _

theorem Level.step (h : t.Level a.cursor b.cursor) (hm : a.mode = b.mode) : t.Steps a.step b.step := by
  rw [step_of_unfailed h.oneFailure, step_of_unfailed h.twoFailure, hm]
  exact steps_accept (t.simulation.token (h.advance t) b.mode h.position fun _ n => h.position.advance t 0 n n)

theorem Twins.drain (h : t.Twins a.cursor b.cursor) (hm : a.mode = b.mode) :
    List.Forall₂ t.Tokens (a.drain.map Step.token) (b.drain.map Step.token) ∧
      Option.Rel t.Failures (a.afterAll a.drain).failure (b.afterAll b.drain).failure := by
  fun_induction Scanner.drain a generalizing b with
  | case1 a ha ih =>
    have hb : b.more = true := (t.simulation.more h).symm.trans ha
    have hl : t.Level a.cursor b.cursor := by
      rcases h.failed with ⟨hc, hd⟩ | ⟨e, f, hc, -⟩
      · exact h.level t hc hd
      · cases (Cursor.more_of_failure hc).symm.trans ha
    have hs : t.Steps a.step b.step := hl.step hm
    obtain ⟨htokens, hfailure⟩ := ih hs.cursor hs.mode
    rw [drain_of_more hb, afterAll_cons, afterAll_cons]
    exact ⟨.cons hs.token htokens, hfailure⟩
  | case2 a ha =>
    have hb : ¬ b.more = true := fun hb => ha ((t.simulation.more h).trans hb)
    rw [drain_of_not_more (Bool.eq_false_iff.2 hb)]
    exact ⟨.nil, h.failure⟩

/-- Scanners that read on alike make the same tokens, and both fail or none. -/
theorem Level.drain (h : t.Level a.cursor b.cursor) (hm : a.mode = b.mode) (ha : a.more = true) (hb : b.more = true) :
    List.Forall₂ t.Tokens (a.drain.map Step.token) (b.drain.map Step.token) ∧
      Option.Rel t.Failures (a.afterAll a.drain).failure (b.afterAll b.drain).failure := by
  -- Here the code points read last may differ; behind the first step they do not, and the run goes on by induction.
  have hs : t.Steps a.step b.step := h.step hm
  obtain ⟨htokens, hfailure⟩ := hs.cursor.drain hs.mode
  rw [drain_of_more ha, drain_of_more hb, afterAll_cons, afterAll_cons]
  exact ⟨.cons hs.token htokens, hfailure⟩

end
end CommonTail

/-- A token that is another one some lines, columns and bytes further on. -/
structure Token.Displaced (gap : Int × Int × Int) (t u : Token) : Prop where
  lexeme : t.lexeme = u.lexeme
  literal : t.literal = u.literal
  start : t.start.minus u.start = gap
  stop : t.stop.minus u.stop = gap

/-- A failure that is another one some bytes further on. -/
structure Failure.Displaced (gap : Int) (e f : Failure) : Prop where
  cause : e.withOffset 0 = f.withOffset 0
  offset : (e.offset : Int) - f.offset = gap

namespace Scanner

/-- A scanner that has read some of its pattern and can read on. -/
structure Midway (pattern : List UInt8) (scanner : Scanner) : Prop where
  source : scanner.cursor.pattern = pattern
  valid : scanner.cursor.position.isValid = true
  offset : scanner.cursor.position.offset = scanner.cursor.readOffset
  inside : scanner.cursor.readOffset ≤ pattern.length
  current : scanner.cursor.current ≠ .reset
  failure : scanner.cursor.failure = none

theorem Ready.midway {s : SourceText} {before after : List Char} {scanner : Scanner}
    (h : Ready s before after scanner) (hb : before ≠ []) : scanner.Midway s.bytes where
  source := h.behind.pattern
  valid := by rw [h.behind.position, s.isValid_position]
  offset := by rw [h.behind.position, h.behind.readOffset]; rfl
  inside := by
    rw [h.behind.readOffset, s.reached_of_ne_nil hb]
    exact s.place_le_length h.behind.text
  current := fun hc => hb (h.behind.isReset.1 hc)
  failure := h.behind.failure

theorem Reached.midway {pattern : List UInt8} {scanner : Scanner} (h : scanner.Reached pattern)
    (hm : scanner.more = true) (hr : 0 < scanner.cursor.readOffset) : scanner.Midway pattern := by
  obtain ⟨s, rfl⟩ := SourceText.exists_bytes pattern
  obtain ⟨before, after, hs⟩ := h.standing.ready_of_more hm
  refine hs.midway fun hb => ?_
  rw [hs.behind.readOffset, hb] at hr
  exact Nat.lt_irrefl 0 hr

end Scanner

namespace CommonTail
open Scanner

section
variable {p q : List UInt8} {a b : Scanner}

/-- Two scanners with the same bytes in front of them. -/
def ofMidway (ha : a.Midway p) (hb : b.Midway q) (hra : 0 < a.cursor.readOffset) (hrb : 0 < b.cursor.readOffset)
    (h : p.drop a.cursor.readOffset = q.drop b.cursor.readOffset) : CommonTail where
  one := p
  two := q
  oneStart := a.cursor.position
  twoStart := b.cursor.position
  shared := by rw [ha.offset, hb.offset, h]
  one_pos := ha.offset ▸ hra
  two_pos := hb.offset ▸ hrb
  one_le := ha.offset ▸ ha.inside
  two_le := hb.offset ▸ hb.inside

theorem level_ofMidway (ha : a.Midway p) (hb : b.Midway q) (hra : 0 < a.cursor.readOffset)
    (hrb : 0 < b.cursor.readOffset) (h : p.drop a.cursor.readOffset = q.drop b.cursor.readOffset) :
    (ofMidway ha hb hra hrb h).Level a.cursor b.cursor where
  one := ha.source
  two := hb.source
  position := ⟨ha.valid, hb.valid, rfl, Nat.le_refl _⟩
  readOffset := ⟨0, ha.offset.symm, hb.offset.symm⟩
  reset := iff_of_false ha.current hb.current
  oneFailure := ha.failure
  twoFailure := hb.failure

theorem Tokens.displaced {t : CommonTail} {u v : Token} (h : t.Tokens u v) :
    Token.Displaced (t.oneStart.minus t.twoStart) u v := ⟨h.lexeme, h.literal, h.start.minus, h.stop.minus⟩

theorem Failures.displaced {t : CommonTail} {e f : Failure} (h : t.Failures e f) :
    Failure.Displaced ((t.oneStart.offset : Int) - t.twoStart.offset) e f := by
  obtain ⟨i, he, hf⟩ := h.offset
  exact ⟨h.cause, by omega⟩

theorem imp_failures {t : CommonTail} {R : Failure → Failure → Prop} (hr : ∀ e f, t.Failures e f → R e f)
    {e f : Option Failure} (h : Option.Rel t.Failures e f) : Option.Rel R e f := by
  cases h with
  | none => exact .none
  | some h => exact .some (hr _ _ h)

end
end CommonTail

theorem drain_displaced {p q : List UInt8} {a b : Scanner} (ha : a.Reached p) (hb : b.Reached q)
    (hma : a.more = true) (hmb : b.more = true) (hra : 0 < a.cursor.readOffset) (hrb : 0 < b.cursor.readOffset)
    (hm : a.mode = b.mode) (h : p.drop a.cursor.readOffset = q.drop b.cursor.readOffset) :
    List.Forall₂ (Token.Displaced (a.cursor.position.minus b.cursor.position))
      (a.drain.map Step.token) (b.drain.map Step.token) ∧
    Option.Rel (Failure.Displaced ((a.cursor.readOffset : Int) - b.cursor.readOffset))
      (a.afterAll a.drain).failure (b.afterAll b.drain).failure := by
  have ha' := ha.midway hma hra
  have hb' := hb.midway hmb hrb
  obtain ⟨htokens, hfailure⟩ := (CommonTail.level_ofMidway ha' hb' hra hrb h).drain hm hma hmb
  refine ⟨htokens.imp fun _ _ ht => ht.displaced, ?_⟩
  rw [← ha'.offset, ← hb'.offset]
  exact CommonTail.imp_failures (fun _ _ he => he.displaced) hfailure

/-- The scanner behind the slash of a pattern that starts with one, and behind a blank line in front of it. -/
def Scanner.behindSlash : Scanner := (start (Utf8.encode "/a\x7bx:(b".toList)).step.scanner

def Scanner.behindLine : Scanner := (start (Utf8.encode "\n /a\x7bx:(b".toList)).step.scanner

theorem drain_displaced_line :
    List.Forall₂ (Token.Displaced (-1, -2, -2)) (Scanner.behindSlash.drain.map Step.token)
      (Scanner.behindLine.drain.map Step.token) ∧
    Option.Rel (Failure.Displaced (-2)) (some (.unbalanced .leftParen .rightParen .endOfInput 1 7))
      (some (.unbalanced .leftParen .rightParen .endOfInput 1 9)) := by
  have ha : Scanner.behindSlash.Reached (Utf8.encode "/a\x7bx:(b".toList) := .step .start
  have hb : Scanner.behindLine.Reached (Utf8.encode "\n /a\x7bx:(b".toList) := .step .start
  have h := drain_displaced ha hb (by decide +kernel) (by decide +kernel) (by decide +kernel) (by decide +kernel)
    (by decide +kernel) (by decide +kernel)
  have hp : Scanner.behindSlash.cursor.position.minus Scanner.behindLine.cursor.position = (-1, -2, -2) := by
    decide +kernel
  have hr : (Scanner.behindSlash.cursor.readOffset : Int) - Scanner.behindLine.cursor.readOffset = -2 := by
    decide +kernel
  have hone : (Scanner.behindSlash.afterAll Scanner.behindSlash.drain).failure =
      some (.unbalanced .leftParen .rightParen .endOfInput 1 7) := by decide +kernel
  have htwo : (Scanner.behindLine.afterAll Scanner.behindLine.drain).failure =
      some (.unbalanced .leftParen .rightParen .endOfInput 1 9) := by decide +kernel
  rwa [hp, hr, hone, htwo] at h

end RoutePattern
