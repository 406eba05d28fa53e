import RoutePattern.Proofs.ScanLocality

/-!
# Patterns that are joined at a slash

A slash ends every run and belongs to no token in front of it, so that a pattern with another one behind it is
read as the first pattern up to its end and then as the second. The second is displaced by the first, and its
start is where the first ends.
-/
namespace RoutePattern
open SourceText

namespace Fits

section
variable {mode : Mode} {blanks : List Char}

/-- Where a pattern may end, a slash is a token. -/
theorem slash_of_finish (h : Fits mode (.finish blanks) []) (rest : List Char) :
    Fits mode (.run blanks .slash ['/']) rest := by
  have hs : Lexeme.slash = (CodePoint.char '/').classify := by decide
  by_cases hm : mode = .pattern
  · obtain rfl : blanks = [] := Decidable.byContradiction fun hn => (h.front hn).1 hm
    exact hs ▸ hm ▸ .single (by decide)
  · exact hs ▸ .mark hm h.blanks (by decide)

end
end Fits

/-- A phrase can stand in front of a slash. -/
theorem Phrase.append_slash {mode last : Mode} {ks : List Chunk} {rest : List Char} (h : Phrase mode ks rest last)
    (more : List Char) : Phrase mode ks (rest ++ '/' :: more) last := by
  cases rest with
  | cons x rest => exact h.congr_head rfl
  | nil =>
    refine h.change_rest (fun _ _ _ hn => absurd hn (by simp)) fun member hm _ => ?_
    exact (by decide : ∀ member ∈ CodePoint.runClasses, member (.char '/') = false) member hm

theorem Cursor.Behind.token_slash {s : SourceText} {before blanks rest : List Char} {c : Cursor} {mode : Mode}
    (h : Behind s before (blanks ++ '/' :: rest) c) (hm : mode = .reset → before = [])
    (hk : Fits mode (.finish blanks) []) :
    s.Found before (.run blanks .slash ['/']) rest (c.advance.token mode (s.position before)) := by
  have hb : ∀ y ∈ blanks, AsciiTrait.blank y = true := hk.blanks
  cases mode with
  | reset =>
    have hu : c.advance.current.isUpper = false := by
      have hn := (hk.slash_of_finish rest).head_not_upper Lexeme.noConfusion
      rw [h.advance_current]
      simpa [Chunk.run, Chunk.text] using hn
    have ht : c.advance.token .reset (s.position before) = c.advance.pathToken (s.position before) := by
      simp [Cursor.token, firstToken, hu]
    rw [ht]
    exact h.pathToken_mark hb (by decide)
  | path => exact h.pathToken_mark hb (by decide)
  | pattern =>
    obtain rfl : blanks = [] := Decidable.byContradiction fun hn => (hk.front hn).1 rfl
    exact On.patternToken_single (by decide) h.advance

namespace Scanner

section
variable {s : SourceText} {before blanks rest : List Char} {scanner : Scanner} {ks : List Chunk} {mode : Mode}

/-- A scanner that comes to a slash where its pattern might end. -/
structure AtSlash (s : SourceText) (before blanks rest : List Char) (scanner : Scanner) : Prop where
  ready : Ready s before (blanks ++ '/' :: rest) scanner
  ends : Fits scanner.mode (.finish blanks) []

/-- The slash is read, whatever stands behind it. -/
theorem AtSlash.step (h : AtSlash s before blanks rest scanner) :
    Passed s before (.run blanks .slash ['/']) rest scanner.step := by
  have ht : s.text = before ++ ((Chunk.run blanks .slash ['/']).text ++ rest) := by
    simpa [Chunk.run, Chunk.text] using h.ready.behind.text
  rw [h.ready.step]
  exact passed_accept (h.ends.slash_of_finish rest) ht (h.ready.behind.token_slash h.ready.reset h.ends)

/-- A run over a sentence with a slash behind it reads the sentence up to its end, and goes on from there. -/
theorem Ready.drain_slash (hs : Sentence mode ks)
    (h : Ready s before (ks.flatMap Chunk.text ++ '/' :: rest) scanner) (hm : scanner.mode = mode) :
    ∃ tokens last front blanks, AtSlash s front blanks rest last ∧
      front ++ blanks = before ++ ks.flatMap Chunk.text ∧
      s.tokens before ks = tokens ++ [.endOfInput (s.position (before ++ ks.flatMap Chunk.text))] ∧
      scanner.drain.map Step.token = tokens ++ last.drain.map Step.token ∧
      scanner.afterAll scanner.drain = last.afterAll last.drain := by
  obtain ⟨front, blanks, mode', rfl, hp, hf⟩ := hs.exists_phrase_finish
  have htext : (front ++ [Chunk.finish blanks]).flatMap Chunk.text = front.flatMap Chunk.text ++ blanks := by
    simp [Chunk.finish, Chunk.text]
  rw [htext] at h ⊢
  rw [List.append_assoc] at h
  obtain ⟨last, hready, hmode, hdrain, hafter⟩ :=
    h.drain_phrase (hp.append_slash rest) hm fun hsees => absurd hsees.rest_nil (by simp)
  refine ⟨s.tokens before front, last, before ++ front.flatMap Chunk.text, blanks, ⟨hready, hmode ▸ hf⟩,
    List.append_assoc .., ?_, hdrain, hafter⟩
  rw [s.tokens_append, tokens, tokens, s.token_finish, List.append_assoc]

end
end Scanner

/-- Where a position of a pattern lies if a pattern that ends at another position stands in front. -/
def Position.joined (stop p : Position) : Position :=
  if p.offset = 0 then stop else ⟨p.line + stop.line - 1, p.column + stop.column, p.offset + stop.offset⟩

def Token.joined (stop : Position) (t : Token) : Token :=
  { t with start := stop.joined t.start, stop := stop.joined t.stop }

def Failure.joined (length : Nat) (e : Failure) : Failure := e.withOffset (e.offset + length)

namespace SourceText

section
variable (s r : SourceText) {more : List Char}

/-- A text with another one behind it. -/
def join (h : r.text = '/' :: more) : SourceText where
  marked := s.marked
  text := s.text ++ r.text
  rest := r.rest
  legal x hx := (List.mem_append.1 hx).elim (s.legal x) (r.legal x)
  barred := r.barred
  unmarked _ hn := by simp [h] at hn

theorem bytes_join (h : r.text = '/' :: more) (hs : s.rest = []) (hr : r.marked = false) :
    (s.join r h).bytes = s.bytes ++ r.bytes := by
  have hl : r.lead = [] := by simp [lead, hr]
  show Utf8.encode (s.lead ++ (s.text ++ r.text)) ++ r.rest = _
  simp [bytes, hs, hl]

theorem reached_slash (before : List Char) : s.reached (before ++ ['/']) = s.place before + 1 := by
  rw [s.reached_concat, s.place_append]
  rfl

theorem position_slash {before : List Char} (hn : before ≠ []) :
    s.position (before ++ ['/']) = (s.position before).advance 0 1 1 := by
  have hlen := List.length_pos_iff.2 hn
  have hline : (before ++ ['/']).count '\n' = before.count '\n' := by simp
  have hcolumn : max 1 (before ++ ['/']).length = max 1 before.length + 1 := by
    rw [List.length_append, List.length_singleton]
    omega
  have hoffset : s.reached (before ++ ['/']) = s.reached before + 1 := by
    rw [s.reached_slash, s.reached_of_ne_nil hn]
  simp only [position, Position.advance, hline, hcolumn, hoffset, Nat.add_zero]

/-- What a text adds to the positions behind a slash that would else stand first. -/
theorem minus_slash {before : List Char} (hn : before ≠ []) (hr : r.marked = false) :
    (s.position (before ++ ['/'])).minus (r.position ['/']) =
      (((s.position before).line : Int) - 1, ((s.position before).column : Int), ((s.position before).offset : Int)) := by
  have hplace : r.place [] = 0 := by simp [place, lead, hr]
  have hfirst : r.position ['/'] = ⟨1, 1, 1⟩ := by
    have hreached : r.reached ['/'] = 1 := by rw [← List.nil_append ['/'], r.reached_slash, hplace]
    exact congrArg (Position.mk 1 1) hreached
  rw [hfirst, s.position_slash hn]
  simp only [Position.minus, Position.advance, Prod.mk.injEq]
  omega

/-- A pattern that starts with a slash has no marker, and its text starts with the slash. -/
theorem exists_text_of_slash (h : r.bytes.head? = some 0x2F) : r.marked = false ∧ ∃ more, r.text = '/' :: more := by
  have hp : String.utf8EncodeChar '/' <+: r.bytes := by
    obtain ⟨bytes, hb⟩ := List.head?_eq_some_iff.1 h
    exact ⟨bytes, hb.symm⟩
  have hm : r.marked = false := by
    refine Bool.eq_false_iff.2 fun hm => ?_
    have hc := (r.first?_bytes_of_marked hm).symm.trans (Utf8.first?_eq_some_iff.2 hp)
    exact absurd hc (by decide)
  refine ⟨hm, ?_⟩
  have hb : r.bytes = Utf8.encode r.text ++ r.rest := by simp [bytes, lead, hm]
  rw [hb] at hp
  cases ht : r.text with
  | nil =>
    rw [ht] at hp
    exact absurd hp (r.barred '/' (by decide))
  | cons x more =>
    rw [ht, Utf8.encode_cons, List.append_assoc] at hp
    exact ⟨more, by rw [Utf8.eq_of_isPrefix hp (List.prefix_append _ _)]⟩

end
end SourceText

theorem Position.joined_of_minus {stop p q : Position} (hl : 0 < stop.line) (hq : q.offset ≠ 0)
    (h : p.minus q = ((stop.line : Int) - 1, (stop.column : Int), (stop.offset : Int))) : p = stop.joined q := by
  obtain ⟨line, column, offset⟩ := p
  simp only [minus, Prod.mk.injEq] at h
  simp only [joined, if_neg hq, mk.injEq]
  omega

theorem Failure.eq_withOffset {e f : Failure} (h : e.withOffset 0 = f.withOffset 0) : e = f.withOffset e.offset := by
  have he := congrArg (Failure.withOffset · e.offset) h
  simpa using he

theorem CommonTail.Tokens.eq_joined {t : CommonTail} {u v : Token} {stop : Position} (h : t.Tokens u v)
    (hp : ∀ p q, t.Positions p q → p = stop.joined q) : u = v.joined stop := by
  obtain ⟨l, literal, first, last⟩ := u
  have hl : l = v.lexeme := h.lexeme
  have hliteral : literal = v.literal := h.literal
  have hfirst : first = stop.joined v.start := hp _ _ h.start
  have hlast : last = stop.joined v.stop := hp _ _ h.stop
  rw [hl, hliteral, hfirst, hlast]
  rfl

theorem CommonTail.failure_eq_map {t : CommonTail} {g : Failure → Failure} (hg : ∀ e f, t.Failures e f → e = g f)
    {e f : Option Failure} (h : Option.Rel t.Failures e f) : e = f.map g := by
  cases h with
  | none => rfl
  | some h => exact congrArg some (hg _ _ h)

namespace Scanner

section
variable {s r : SourceText} {front blanks more : List Char} {one two : Scanner}

/-- Behind a slash two scanners have the same bytes in front of them, displaced by what is in front of the slash. -/
theorem AtSlash.level (h : AtSlash s front blanks more one) (h' : AtSlash r [] [] more two)
    (hn : front ++ blanks ≠ []) (hm : r.marked = false) (hr : s.rest = r.rest) :
    ∃ t : CommonTail, t.Level one.step.scanner.cursor two.step.scanner.cursor ∧
      (∀ p q, t.Positions p q → p = (s.position (front ++ blanks)).joined q) ∧
      ∀ e f, t.Failures e f → e = f.joined (s.place (front ++ blanks)) := by
  have ha : Ready s (front ++ blanks ++ ['/']) more one.step.scanner := by
    simpa [Chunk.run, Chunk.text] using h.step.ready Lexeme.noConfusion
  have hb : Ready r ['/'] more two.step.scanner := by
    simpa [Chunk.run, Chunk.text] using h'.step.ready Lexeme.noConfusion
  have hreada : one.step.scanner.cursor.readOffset = s.place (front ++ blanks) + 1 :=
    ha.behind.readOffset.trans (s.reached_slash _)
  have hreadb : two.step.scanner.cursor.readOffset = 1 := by
    rw [hb.behind.readOffset, ← List.nil_append ['/'], r.reached_slash]
    simp [place, lead, hm]
  have hdrop : s.bytes.drop one.step.scanner.cursor.readOffset = r.bytes.drop two.step.scanner.cursor.readOffset := by
    rw [ha.behind.readOffset, hb.behind.readOffset, s.reached_of_ne_nil (by simp), r.reached_of_ne_nil (by simp),
      s.drop_place ha.behind.text, r.drop_place hb.behind.text, hr]
  have hma := ha.midway (by simp)
  have hmb := hb.midway (by simp)
  let t := CommonTail.ofMidway hma hmb (by omega) (by omega) hdrop
  have hone : t.oneStart.offset = s.place (front ++ blanks) + 1 := hma.offset.trans hreada
  have htwo : t.twoStart.offset = 1 := hmb.offset.trans hreadb
  have hgap : t.oneStart.minus t.twoStart = (((s.position (front ++ blanks)).line : Int) - 1,
      ((s.position (front ++ blanks)).column : Int), ((s.position (front ++ blanks)).offset : Int)) := by
    rw [← s.minus_slash r hn hm, ← ha.behind.position, ← hb.behind.position]
    rfl
  refine ⟨t, CommonTail.level_ofMidway .., fun p q hpq => ?_, fun e f hef => ?_⟩
  · have hq : 1 ≤ q.offset := htwo ▸ hpq.behind
    exact Position.joined_of_minus (Nat.add_pos_left Nat.one_pos _) (by omega) (hpq.minus.trans hgap)
  · obtain ⟨i, he, hf⟩ := hef.offset
    have hoffset : e.offset = f.offset + s.place (front ++ blanks) := by omega
    rw [Failure.joined, ← hoffset]
    exact Failure.eq_withOffset hef.cause

/-- Behind a slash a scanner reads on as one does that has read nothing else. -/
theorem AtSlash.drain (h : AtSlash s front blanks more one) (h' : AtSlash r [] [] more two)
    (hn : front ++ blanks ≠ []) (hm : r.marked = false) (hr : s.rest = r.rest) :
    one.drain.map Step.token =
      (two.drain.map Step.token).map (Token.joined (s.position (front ++ blanks))) ∧
    (one.afterAll one.drain).failure =
      (two.afterAll two.drain).failure.map (Failure.joined (s.place (front ++ blanks))) := by
  obtain ⟨t, hl, hpositions, hfailures⟩ := h.level h' hn hm hr
  have hmode : one.step.scanner.mode = two.step.scanner.mode := h.step.mode.trans h'.step.mode.symm
  have hmore : one.step.scanner.more = true := (h.step.ready Lexeme.noConfusion).more
  have hmore' : two.step.scanner.more = true := (h'.step.ready Lexeme.noConfusion).more
  obtain ⟨htokens, hfailure⟩ := hl.drain hmode hmore hmore'
  have htoken : one.step.token = two.step.token.joined (s.position (front ++ blanks)) := by
    have hstop : one.step.token.stop = (s.position (front ++ blanks)).joined two.step.token.stop := by
      rw [stop_step, stop_step]
      exact hpositions _ _ hl.position
    have hmargin (blanks : List Char) (p : Position) : p.advance 0 (Chunk.run blanks .slash ['/']).margin
        (Chunk.run blanks .slash ['/']).margin = p := Chunk.start_of_ne Lexeme.noConfusion p
    rw [h.step.token, h'.step.token] at hstop ⊢
    simp only [SourceText.token, hmargin] at hstop ⊢
    rw [hstop]
    rfl
  have hrest : one.step.scanner.drain.map Step.token =
      (two.step.scanner.drain.map Step.token).map (Token.joined (s.position (front ++ blanks))) := by
    rw [← List.forall₂_eq_eq_eq, List.forall₂_map_right_iff]
    exact htokens.imp fun u v huv => huv.eq_joined hpositions
  rw [drain_of_more h.ready.more, drain_of_more h'.ready.more, afterAll_cons, afterAll_cons]
  refine ⟨?_, ?_⟩
  · rw [List.map_cons, List.map_cons, List.map_cons, htoken, hrest]
  · exact CommonTail.failure_eq_map hfailures hfailure

end
end Scanner

namespace SourceText.Tokenized

section
variable {s r : SourceText} {ks : List Chunk} {p : List UInt8} {ts : List Token} {stop : Position} {more : List Char}

/-- A pattern that is more than a marker has a text. -/
theorem text_ne_nil (h : s.Tokenized ks p ts) (hp : p ≠ []) (hb : p ≠ Utf8.encode [CodePoint.byteOrderMark]) :
    s.text ≠ [] := by
  intro hn
  have hlead : p = Utf8.encode s.lead := by rw [h.bytes_eq, ← h.text, hn, List.append_nil]
  cases hmark : s.marked with
  | true => exact hb (by rw [hlead, lead, hmark]; rfl)
  | false => exact hp (by rw [hlead, lead, hmark]; rfl)

/-- A run over a pattern and one that starts with a slash gives the tokens of the first, and goes on as over the second. -/
theorem drain_join (h : s.Tokenized ks p (ts ++ [.endOfInput stop])) (hn : s.text ≠ []) (hm : r.marked = false)
    (hr : r.text = '/' :: more) :
    (Scanner.start (p ++ r.bytes)).drain.map Step.token =
      ts ++ ((Scanner.start r.bytes).drain.map Step.token).map (Token.joined stop) ∧
    ((Scanner.start (p ++ r.bytes)).afterAll (Scanner.start (p ++ r.bytes)).drain).failure =
      ((Scanner.start r.bytes).afterAll (Scanner.start r.bytes).drain).failure.map (Failure.joined p.length) := by
  let j := s.join r hr
  have hbytes : j.bytes = p ++ r.bytes := by rw [bytes_join _ _ _ h.rest hm, h.bytes]
  have hj : j.text = ks.flatMap Chunk.text ++ '/' :: more := by
    show s.text ++ r.text = _
    rw [h.text, hr]
  have hstart : Scanner.Ready j [] (ks.flatMap Chunk.text ++ '/' :: more) (.start j.bytes) := hj ▸ Scanner.ready_start j
  have hslash : Scanner.AtSlash r [] [] more (.start r.bytes) :=
    ⟨hr ▸ Scanner.ready_start r, .finish Mode.noConfusion (List.forall_mem_nil _)⟩
  obtain ⟨tokens, last, front, blanks, hlast, hfront, htokens, hdrain, hafter⟩ := hstart.drain_slash h.sentence rfl
  have hfront : front ++ blanks = ks.flatMap Chunk.text := hfront
  have hplace : j.place (front ++ blanks) = p.length := by
    rw [hfront, h.bytes_eq]
    rfl
  have hends : ts ++ [.endOfInput stop] = tokens ++ [.endOfInput (j.position (front ++ blanks))] := by
    rw [h.tokens, s.tokens_congr [] ks (r := j) rfl, htokens, hfront]
    rfl
  obtain ⟨hts, hstop⟩ := List.append_inj' hends rfl
  have hstop : j.position (front ++ blanks) = stop := (congrArg Token.start (List.cons.inj hstop).1).symm
  rw [← hbytes, hdrain, hafter, hts, ← hstop, ← hplace]
  obtain ⟨hrest, hfailure⟩ := hlast.drain hslash (by rwa [hfront, ← h.text]) hm rfl
  exact ⟨congrArg (tokens ++ ·) hrest, hfailure⟩

end
end SourceText.Tokenized

theorem scan_append_slash {p q : List UInt8} {ts : List Token} {stop : Position} (hp : p ≠ [])
    (hb : p ≠ Utf8.encode [CodePoint.byteOrderMark]) (hs : scan p = .ok (ts ++ [.endOfInput stop]))
    (hq : q.head? = some 0x2F) :
    scan (p ++ q) = match scan q with
      | .ok us => .ok (ts ++ us.map (Token.joined stop))
      | .error e => .error (e.withOffset (e.offset + p.length)) := by
  obtain ⟨s, ks, ht⟩ := scan_ok hs
  obtain ⟨r, rfl⟩ := exists_bytes q
  obtain ⟨hm, more, hr⟩ := r.exists_text_of_slash hq
  obtain ⟨htokens, hfailure⟩ := ht.drain_join (ht.text_ne_nil hp hb) hm hr
  exact scan_of_drain htokens hfailure

theorem scan_append_slash_lines : scan (Utf8.encode "GET /a \n".toList ++ Utf8.encode "/b\x7bc".toList) =
    .ok [⟨.method, "GET", ⟨1, 1, 0⟩, ⟨1, 4, 4⟩⟩, ⟨.slash, "/", ⟨1, 4, 4⟩, ⟨1, 5, 5⟩⟩,
      ⟨.segment, "a", ⟨1, 5, 5⟩, ⟨1, 6, 6⟩⟩, ⟨.slash, "/", ⟨2, 8, 8⟩, ⟨2, 9, 9⟩⟩,
      ⟨.segment, "b", ⟨2, 9, 9⟩, ⟨2, 10, 10⟩⟩, ⟨.leftBrace, "\x7b", ⟨2, 10, 10⟩, ⟨2, 11, 11⟩⟩,
      ⟨.identifier, "c", ⟨2, 11, 11⟩, ⟨2, 12, 12⟩⟩, ⟨.endOfInput, "", ⟨2, 12, 12⟩, ⟨2, 12, 12⟩⟩] := by
  have hp : scan (Utf8.encode "GET /a \n".toList) = .ok ([⟨.method, "GET", ⟨1, 1, 0⟩, ⟨1, 4, 4⟩⟩,
      ⟨.slash, "/", ⟨1, 4, 4⟩, ⟨1, 5, 5⟩⟩, ⟨.segment, "a", ⟨1, 5, 5⟩, ⟨1, 6, 6⟩⟩] ++ [.endOfInput ⟨2, 8, 8⟩]) :=
    scan_eq_ok (by decide +kernel)
  have hq : scan (Utf8.encode "/b\x7bc".toList) = .ok [⟨.slash, "/", ⟨1, 1, 0⟩, ⟨1, 1, 1⟩⟩,
      ⟨.segment, "b", ⟨1, 1, 1⟩, ⟨1, 2, 2⟩⟩, ⟨.leftBrace, "\x7b", ⟨1, 2, 2⟩, ⟨1, 3, 3⟩⟩,
      ⟨.identifier, "c", ⟨1, 3, 3⟩, ⟨1, 4, 4⟩⟩, ⟨.endOfInput, "", ⟨1, 4, 4⟩, ⟨1, 4, 4⟩⟩] :=
    scan_eq_ok (by decide +kernel)
  rw [scan_append_slash (by decide) (by decide) hp (by decide), hq]
  rfl

end RoutePattern
