import RoutePattern.ModeTokens

/-!
# Reading two patterns in lockstep

A simulation relates cursors over two patterns so that advancing, looking ahead and failing at the current
code point keep them related, and so that they show the same code points and the same text. Then every
reader gives the same lexeme and literal on both, and leaves the cursors related.
-/
namespace RoutePattern

def Failure.withOffset (e : Failure) (offset : Nat) : Failure :=
  match e with
  | illegalEncoding _ => illegalEncoding offset
  | illegalNul _ => illegalNul offset
  | illegalMarker _ => illegalMarker offset
  | unexpected found expected _ => unexpected found expected offset
  | unterminated opener found _ => unterminated opener found offset
  | unbalanced opener closer found depth _ => unbalanced opener closer found depth offset
  | ambiguous found suggestions _ => ambiguous found suggestions offset

namespace Failure

@[simp] theorem offset_withOffset (e : Failure) (n : Nat) : (e.withOffset n).offset = n := by cases e <;> rfl

@[simp] theorem withOffset_withOffset (e : Failure) (m n : Nat) : (e.withOffset m).withOffset n = e.withOffset n := by
  cases e <;> rfl

@[simp] theorem withOffset_offset (e : Failure) : e.withOffset e.offset = e := by cases e <;> rfl

end Failure

/-- Relations between cursors, positions and the offsets of code points that the basic operations keep. -/
structure Simulation where
  cursors : Cursor → Cursor → Prop
  positions : Position → Position → Prop
  offsets : Nat → Nat → Prop
  current {c d} (h : cursors c d) : c.current = d.current
  lookahead {c d} (h : cursors c d) : c.lookahead = d.lookahead
  failed {c d} (h : cursors c d) : c.failure.isSome = d.failure.isSome
  position {c d} (h : cursors c d) : positions c.position d.position
  offset {c d} (h : cursors c d) : offsets c.offset d.offset
  read {c d m n} (h : cursors c d) (hm : offsets m n) : c.slice m c.readOffset = d.slice n d.readOffset
  since {c d m n} (h : cursors c d) (hm : offsets m n) : c.since m = d.since n
  advance {c d} (h : cursors c d) : cursors c.advance d.advance
  look {c d} (h : cursors c d) : cursors c.look d.look
  fail {c d} (h : cursors c d) (e : Failure) :
    cursors (c.fail (e.withOffset c.offset)) (d.fail (e.withOffset d.offset))

namespace Simulation

/-- Findings that differ at most in where they stand. -/
structure Alike (S : Simulation) (f g : Finding) : Prop where
  lexeme : f.lexeme = g.lexeme
  literal : f.literal = g.literal
  start : S.positions f.start g.start
  cursor : S.cursors f.cursor g.cursor

variable (S : Simulation) {c d : Cursor} {p q : Position}

theorem more (h : S.cursors c d) : c.more = d.more := by
  simp only [Cursor.more, ← Option.not_isSome, S.failed h, S.current h]

theorem ahead (h : S.cursors c d) : c.ahead = d.ahead := by
  simp only [Cursor.ahead, S.lookahead h]

theorem unexpected (h : S.cursors c d) (found : CodePoint) (expected : List Lexeme) :
    S.cursors (c.unexpected found expected) (d.unexpected found expected) :=
  S.fail h (.unexpected found.classify expected 0)

theorem unterminated (h : S.cursors c d) (opener : Char) :
    S.cursors (c.unterminated opener c.current) (d.unterminated opener d.current) := by
  rw [S.current h]
  exact S.fail h (.unterminated (CodePoint.char opener).classify d.current.classify 0)

theorem unbalanced (h : S.cursors c d) (opener closer : Char) (depth : Int) :
    S.cursors (c.unbalanced opener closer c.current depth) (d.unbalanced opener closer d.current depth) := by
  rw [S.current h]
  exact S.fail h (.unbalanced (CodePoint.char opener).classify (CodePoint.char closer).classify
    d.current.classify depth 0)

theorem expect (h : S.cursors c d) (set : List Char) : S.cursors (c.expect set) (d.expect set) := by
  unfold Cursor.expect
  rw [S.current h]
  split
  · exact h
  · exact S.unexpected h _ _

theorem take (h : S.cursors c d) (set : List Char) : S.cursors (c.take set) (d.take set) := by
  unfold Cursor.take
  rw [S.current h]
  split
  · exact S.advance h
  · exact S.unexpected h _ _

theorem skipWhile (member : CodePoint → Bool) (c d : Cursor) (h : S.cursors c d) :
    S.cursors (c.skipWhile member) (d.skipWhile member) := by
  -- Related cursors show the same code points, so that both loops take the branch of the first.
  fun_induction Cursor.skipWhile member c generalizing d with
  | case1 c held hc ih =>
    have hl : S.cursors c.look d.look := S.look h
    rw [S.ahead hl, S.more hl] at hc
    rw [Cursor.skipWhile.eq_def member d, dif_pos hc]
    exact ih _ (S.advance hl)
  | case2 c held hc =>
    have hl : S.cursors c.look d.look := S.look h
    rw [S.ahead hl, S.more hl] at hc
    rw [Cursor.skipWhile.eq_def member d, dif_neg hc]
    exact hl

theorem run (h : S.cursors c d) (classes : List (CodePoint → Bool)) :
    (c.run classes).1 = (d.run classes).1 ∧ S.cursors (c.run classes).2 (d.run classes).2 := by
  have hlast (c' d' : Cursor) (h' : S.cursors c' d') :
      S.cursors (classes.foldl (fun c member => c.skipWhile member) c')
        (classes.foldl (fun c member => c.skipWhile member) d') := by
    induction classes generalizing c' d' with
    | nil => exact h'
    | cons member classes ih => exact ih _ _ (S.skipWhile member c' d' h')
  exact ⟨S.read (hlast c d h) (S.offset h), hlast c d h⟩

theorem rawLoop (closer : Char) (c d : Cursor) (h : S.cursors c d) :
    S.cursors (c.rawLoop closer) (d.rawLoop closer) := by
  fun_induction Cursor.rawLoop closer c generalizing d with
  | case1 c hc ih =>
    rw [S.more h, S.current h] at hc
    rw [Cursor.rawLoop.eq_def closer d, dif_pos hc]
    exact ih _ (S.advance h)
  | case2 c hc =>
    rw [S.more h, S.current h] at hc
    rw [Cursor.rawLoop.eq_def closer d, dif_neg hc]
    exact h

theorem raw (h : S.cursors c d) (opener closer : Char) :
    (c.raw opener closer).1 = (d.raw opener closer).1 ∧
      S.cursors (c.raw opener closer).2 (d.raw opener closer).2 := by
  have hfirst : S.cursors (c.take [opener]) (d.take [opener]) := S.take h _
  have hloop := S.rawLoop closer _ _ hfirst
  have hlast : S.cursors (c.raw opener closer).2 (d.raw opener closer).2 := by
    unfold Cursor.raw
    dsimp only
    rw [S.current hloop]
    split
    · exact hloop
    · have hu := S.unterminated hloop opener
      rwa [S.current hloop] at hu
  exact ⟨S.since hlast (S.offset hfirst), hlast⟩

theorem quotedLoop {m n : Nat} (hm : S.offsets m n) (closer : Char) (escapes : List Char) (copy : Option String)
    (c d : Cursor) (h : S.cursors c d) :
    (c.quotedLoop closer escapes m copy).1 = (d.quotedLoop closer escapes n copy).1 ∧
      S.cursors (c.quotedLoop closer escapes m copy).2 (d.quotedLoop closer escapes n copy).2 := by
  fun_induction Cursor.quotedLoop closer escapes m copy c generalizing d with
  | case1 copy c hc here held he escaped ih =>
    have hl : S.cursors c.look d.look := S.look h
    have ht : S.cursors (c.look.take ['\x5c']) (d.look.take ['\x5c']) := S.take hl _
    simp only [here, held, S.current h, S.ahead hl] at he
    rw [Cursor.quotedLoop.eq_def closer escapes n copy d, dif_pos (S.more h ▸ hc)]
    dsimp only
    rw [if_pos he, ← S.since hl hm, ← S.current ht]
    exact ih _ (S.advance ht)
  | case2 copy c hc here held he hq =>
    have hl : S.cursors c.look d.look := S.look h
    simp only [here, held, S.current h, S.ahead hl] at he hq
    rw [Cursor.quotedLoop.eq_def closer escapes n copy d, dif_pos (S.more h ▸ hc)]
    dsimp only
    rw [if_neg he, if_pos hq, ← S.since hl hm]
    exact ⟨rfl, hl⟩
  | case3 copy c hc here held he hq ih =>
    have hl : S.cursors c.look d.look := S.look h
    simp only [here, held, S.current h, S.ahead hl] at he hq
    rw [Cursor.quotedLoop.eq_def closer escapes n copy d, dif_pos (S.more h ▸ hc)]
    dsimp only
    rw [if_neg he, if_neg hq, ← S.current h]
    exact ih _ (S.advance hl)
  | case4 copy c hc last =>
    have hu : S.cursors last (d.unterminated closer d.current) := S.unterminated h closer
    rw [Cursor.quotedLoop.eq_def closer escapes n copy d, dif_neg (S.more h ▸ hc)]
    dsimp only
    rw [← S.since hu hm]
    exact ⟨rfl, hu⟩

theorem quoted (h : S.cursors c d) (opener closer : Char) (escapes : List Char) :
    (c.quoted opener closer escapes).1 = (d.quoted opener closer escapes).1 ∧
      S.cursors (c.quoted opener closer escapes).2 (d.quoted opener closer escapes).2 := by
  have hfirst : S.cursors (c.take [opener]) (d.take [opener]) := S.take h _
  exact S.quotedLoop (S.offset hfirst) closer escapes none _ _ hfirst

theorem balancedLoop {m n : Nat} (hm : S.offsets m n) (opener closer : Char) (depth : Int) (c d : Cursor)
    (h : S.cursors c d) :
    (c.balancedLoop opener closer m depth).1 = (d.balancedLoop opener closer n depth).1 ∧
      S.cursors (c.balancedLoop opener closer m depth).2 (d.balancedLoop opener closer n depth).2 := by
  fun_induction Cursor.balancedLoop opener closer m depth c generalizing d with
  | case1 depth c hc hr hd =>
    rw [S.current h] at hr
    rw [Cursor.balancedLoop.eq_def opener closer n depth d, dif_pos (S.more h ▸ hc), if_pos hr, if_pos hd]
    exact ⟨S.since h hm, h⟩
  | case2 depth c hc hr hd ih =>
    rw [S.current h] at hr
    rw [Cursor.balancedLoop.eq_def opener closer n depth d, dif_pos (S.more h ▸ hc), if_pos hr, if_neg hd]
    exact ih _ (S.advance h)
  | case3 depth c hc hr hl ih =>
    rw [S.current h] at hr hl
    rw [Cursor.balancedLoop.eq_def opener closer n depth d, dif_pos (S.more h ▸ hc), if_neg hr, if_pos hl]
    exact ih _ (S.advance h)
  | case4 depth c hc hr hl ih =>
    rw [S.current h] at hr hl
    rw [Cursor.balancedLoop.eq_def opener closer n depth d, dif_pos (S.more h ▸ hc), if_neg hr, if_neg hl]
    exact ih _ (S.advance h)
  | case5 depth c hc last =>
    have hu : S.cursors last (d.unbalanced opener closer d.current depth) := S.unbalanced h opener closer depth
    rw [Cursor.balancedLoop.eq_def opener closer n depth d, dif_neg (S.more h ▸ hc)]
    exact ⟨S.since hu hm, hu⟩

theorem balanced (h : S.cursors c d) (opener closer : Char) :
    (c.balanced opener closer).1 = (d.balanced opener closer).1 ∧
      S.cursors (c.balanced opener closer).2 (d.balanced opener closer).2 := by
  have hfirst : S.cursors (c.take [opener]) (d.take [opener]) := S.take h _
  exact S.balancedLoop (S.offset hfirst) opener closer 1 _ _ hfirst

theorem blankLoop (c d : Cursor) (h : S.cursors c d) (p q : Position) (hp : S.positions p q) :
    S.positions (c.blankLoop p).1 (d.blankLoop q).1 ∧ S.cursors (c.blankLoop p).2 (d.blankLoop q).2 := by
  fun_induction Cursor.blankLoop p c generalizing d q with
  | case1 p c hc ih =>
    rw [S.more h, S.current h] at hc
    rw [Cursor.blankLoop.eq_def q d, dif_pos hc]
    exact ih _ (S.advance h) _ (S.position h)
  | case2 p c hc =>
    rw [S.more h, S.current h] at hc
    rw [Cursor.blankLoop.eq_def q d, dif_neg hc]
    exact ⟨hp, h⟩

/-- A reader of literals makes alike findings. -/
theorem alike {f g : String × Cursor} (h : f.1 = g.1 ∧ S.cursors f.2 g.2) (l : Lexeme) (hp : S.positions p q) :
    S.Alike ⟨l, f.1, p, f.2⟩ ⟨l, g.1, q, g.2⟩ := ⟨rfl, h.1, hp, h.2⟩

theorem single (h : S.cursors c d) (l : Lexeme) (hp : S.positions p q) :
    S.Alike (c.single l p) (d.single l q) := ⟨rfl, S.read h (S.offset h), hp, h⟩

theorem pathToken (h : S.cursors c d) (hp : S.positions p q) : S.Alike (c.pathToken p) (d.pathToken q) := by
  obtain ⟨hstart, hc⟩ := S.blankLoop c d h p q hp
  unfold Cursor.pathToken
  dsimp only
  rw [S.current hc]
  cases (d.blankLoop q).2.current.classify
  case colon | slash | leftBrace => exact S.single hc _ hstart
  case endOfInput => exact ⟨rfl, rfl, hstart, hc⟩
  all_goals exact S.alike (S.run hc _) _ hstart

theorem undecided (h : S.cursors c d) (word : String) (hp : S.positions p q) :
    S.Alike (c.undecided word p) (d.undecided word q) := by
  refine ⟨rfl, rfl, hp, ?_⟩
  unfold Cursor.undecided Cursor.ambiguous
  rw [S.current h]
  exact S.fail h (.ambiguous d.current.classify _ 0)

theorem methodToken (h : S.cursors c d) (hp : S.positions p q) : S.Alike (c.methodToken p) (d.methodToken q) := by
  obtain ⟨hword, hrun⟩ := S.run h [CodePoint.isUpper]
  have hgap := S.look hrun
  have hslash := S.look (S.advance hgap)
  unfold Cursor.methodToken
  dsimp only
  rw [hword, S.ahead hgap, S.ahead hslash]
  split
  · split
    · exact ⟨rfl, rfl, hp, hslash⟩
    · exact S.undecided hslash _ hp
  · exact S.undecided hgap _ hp

theorem firstToken (h : S.cursors c d) (hp : S.positions p q) : S.Alike (c.firstToken p) (d.firstToken q) := by
  unfold Cursor.firstToken
  rw [S.current h]
  split
  · exact S.methodToken h hp
  · exact S.pathToken h hp

/-- An expression may start later than its parenthesis. -/
theorem expressionToken (h : S.cursors c d) (hp : ∀ n, S.positions (p.advance 0 n n) (q.advance 0 n n)) :
    S.Alike (c.expressionToken p) (d.expressionToken q) := by
  have hl := S.look h
  have ht := S.take hl ['(']
  unfold Cursor.expressionToken
  dsimp only
  rw [S.ahead hl]
  split
  · obtain ⟨he, hr⟩ := S.raw ht '\x60' '\x60'
    exact ⟨rfl, he, hp 0, S.expect (S.take hr _) _⟩
  · obtain ⟨he, hr⟩ := S.quoted ht '\x27' '\x27' []
    exact ⟨rfl, he, hp 0, S.expect (S.take hr _) _⟩
  · obtain ⟨he, hr⟩ := S.quoted ht '\x22' '\x22' []
    exact ⟨rfl, he, hp 0, S.expect (S.take hr _) _⟩
  · obtain ⟨he, hr⟩ := S.balanced hl '(' ')'
    rw [he]
    exact ⟨rfl, rfl, hp _, hr⟩
  · exact S.alike (S.balanced hl '(' ')') _ (hp 0)

theorem patternToken (h : S.cursors c d) (hp : ∀ n, S.positions (p.advance 0 n n) (q.advance 0 n n)) :
    S.Alike (c.patternToken p) (d.patternToken q) := by
  unfold Cursor.patternToken
  rw [S.current h]
  cases d.current.classify
  case invalid | endOfInput => exact ⟨rfl, rfl, hp 0, h⟩
  case leftParen => exact S.expressionToken h hp
  case backquote => exact S.alike (S.raw h _ _) _ (hp 0)
  case singleQuote | doubleQuote => exact S.alike (S.quoted h _ _ _) _ (hp 0)
  case identifier | literal | digit => exact S.alike (S.run h _) _ (hp 0)
  all_goals exact S.single h _ (hp 0)

theorem token (h : S.cursors c d) (mode : Mode) (hp : S.positions p q)
    (hn : mode = .pattern → ∀ n, S.positions (p.advance 0 n n) (q.advance 0 n n)) :
    S.Alike (c.token mode p) (d.token mode q) := by
  cases mode with
  | reset => exact S.firstToken h hp
  | path => exact S.pathToken h hp
  | pattern => exact S.patternToken h (hn rfl)

end Simulation

/-- A property that every basic operation keeps. -/
structure Kept (P : Cursor → Prop) : Prop where
  advance {c} (h : P c) : P c.advance
  look {c} (h : P c) : P c.look
  fail {c} (h : P c) (e : Failure) : P (c.fail e)

namespace Kept

variable {P : Cursor → Prop} {c : Cursor}

/-- A cursor with the property goes in lockstep with itself. -/
def simulation (h : Kept P) : Simulation where
  cursors c d := c = d ∧ P c
  positions := Eq
  offsets := Eq
  current hc := hc.1 ▸ rfl
  lookahead hc := hc.1 ▸ rfl
  failed hc := hc.1 ▸ rfl
  position hc := hc.1 ▸ rfl
  offset hc := hc.1 ▸ rfl
  read hc hm := hc.1 ▸ hm ▸ rfl
  since hc hm := hc.1 ▸ hm ▸ rfl
  advance hc := ⟨hc.1 ▸ rfl, h.advance hc.2⟩
  look hc := ⟨hc.1 ▸ rfl, h.look hc.2⟩
  fail hc _ := ⟨hc.1 ▸ rfl, h.fail hc.2 _⟩

theorem expect (h : Kept P) (hc : P c) (set : List Char) : P (c.expect set) := (h.simulation.expect ⟨rfl, hc⟩ set).2

theorem take (h : Kept P) (hc : P c) (set : List Char) : P (c.take set) := (h.simulation.take ⟨rfl, hc⟩ set).2

theorem run (h : Kept P) (hc : P c) (classes : List (CodePoint → Bool)) : P (c.run classes).2 :=
  (h.simulation.run ⟨rfl, hc⟩ classes).2.2

theorem raw (h : Kept P) (hc : P c) (opener closer : Char) : P (c.raw opener closer).2 :=
  (h.simulation.raw ⟨rfl, hc⟩ opener closer).2.2

theorem quoted (h : Kept P) (hc : P c) (opener closer : Char) (escapes : List Char) :
    P (c.quoted opener closer escapes).2 :=
  (h.simulation.quoted ⟨rfl, hc⟩ opener closer escapes).2.2

theorem balanced (h : Kept P) (hc : P c) (opener closer : Char) : P (c.balanced opener closer).2 :=
  (h.simulation.balanced ⟨rfl, hc⟩ opener closer).2.2

theorem token (h : Kept P) (hc : P c) (mode : Mode) (start : Position) : P (c.token mode start).cursor :=
  (h.simulation.token ⟨rfl, hc⟩ mode rfl fun _ _ => rfl).cursor.2

end Kept
end RoutePattern
