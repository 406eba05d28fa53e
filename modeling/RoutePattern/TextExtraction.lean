import RoutePattern.CursorProgress

/-!
# Taking text from a cursor

Runs of code points, quoted text with and without escapes, and text between balanced delimiters. Each
extraction starts on the first code point of its construct and gives the text that it covers. What
goes wrong is a failure of the cursor, and the text then ends where the cursor does.
-/
namespace RoutePattern.Cursor

/-- Advances while the lookahead is in a class. -/
def skipWhile (member : CodePoint → Bool) (c : Cursor) : Cursor :=
  let held := c.look
  if _h : member held.ahead && held.more then skipWhile member held.advance else held
termination_by c.remaining
decreasing_by
  simp only [Bool.and_eq_true] at _h
  have : c.look.advance.remaining < c.look.remaining := remaining_advance_lt _h.2
  have := c.remaining_look_le
  omega

theorem remaining_skipWhile_le (member : CodePoint → Bool) (c : Cursor) :
    (c.skipWhile member).remaining ≤ c.remaining := by
  fun_induction skipWhile member c with
  | case1 c held _ ih =>
    have := held.remaining_advance_le
    have : held.remaining ≤ c.remaining := c.remaining_look_le
    omega
  | case2 c held _ => exact c.remaining_look_le

/-- The current code point and then, for one class after the other, all that follow in it. -/
def run (c : Cursor) (classes : List (CodePoint → Bool)) : String × Cursor :=
  let last := classes.foldl (fun c member => c.skipWhile member) c
  (last.slice c.offset last.readOffset, last)

theorem remaining_run_le (c : Cursor) (classes : List (CodePoint → Bool)) :
    (c.run classes).2.remaining ≤ c.remaining := by
  show (classes.foldl (fun c member => c.skipWhile member) c).remaining ≤ c.remaining
  induction classes generalizing c with
  | nil => exact Nat.le_refl _
  | cons member classes ih => exact Nat.le_trans (ih _) (c.remaining_skipWhile_le member)

/-- The text from an offset to the current code point. -/
def since (c : Cursor) (first : Nat) : String := c.slice first c.offset

def rawLoop (closer : Char) (c : Cursor) : Cursor :=
  if _h : c.more && !c.current.is closer then rawLoop closer c.advance else c
termination_by c.remaining
decreasing_by
  simp only [Bool.and_eq_true] at _h
  exact remaining_advance_lt _h.1

theorem remaining_rawLoop_le (closer : Char) (c : Cursor) : (c.rawLoop closer).remaining ≤ c.remaining := by
  fun_induction rawLoop closer c with
  | case1 c _ ih => have := c.remaining_advance_le; omega
  | case2 c _ => exact Nat.le_refl _

/-- Quoted text without escapes, up to the next closing delimiter. -/
def raw (c : Cursor) (opener closer : Char) : String × Cursor :=
  let first := c.take [opener]
  let last := first.rawLoop closer
  let last := if last.current.is closer then last else last.unterminated opener last.current
  (last.since first.offset, last)

theorem remaining_raw_le (c : Cursor) (opener closer : Char) :
    (c.raw opener closer).2.remaining ≤ c.remaining := by
  have := c.remaining_take_le [opener]
  have := (c.take [opener]).remaining_rawLoop_le closer
  unfold raw
  dsimp only
  split
  · omega
  · unfold unterminated
    rw [remaining_fail]; exact Nat.zero_le _

/-- An unescaped copy of the text is kept from the first escape on. -/
def quotedLoop (closer : Char) (escapes : List Char) (first : Nat) (copy : Option String) (c : Cursor) :
    String × Cursor :=
  if _h : c.more then
    let here := c.current
    let held := c.look
    if here.isEscaped held.ahead [closer] || here.isEscaped held.ahead escapes then
      let escaped := held.take ['\x5c']
      quotedLoop closer escapes first (some (copy.getD (held.since first) ++ escaped.current.text)) escaped.advance
    else if here.is closer then (copy.getD (held.since first), held)
    else quotedLoop closer escapes first (copy.map (· ++ here.text)) held.advance
  else
    let last := c.unterminated closer c.current
    (copy.getD (last.since first), last)
termination_by c.remaining
decreasing_by
  · have := remaining_look_take_lt _h ['\x5c']
    have := (c.look.take ['\x5c']).remaining_advance_le
    omega
  · exact remaining_look_advance_lt _h

theorem remaining_quotedLoop_le (closer : Char) (escapes : List Char) (first : Nat) (copy : Option String)
    (c : Cursor) : (c.quotedLoop closer escapes first copy).2.remaining ≤ c.remaining := by
  fun_induction quotedLoop closer escapes first copy c with
  | case1 copy c h here held _ escaped ih =>
    have : escaped.remaining < c.remaining := remaining_look_take_lt h _
    have := escaped.remaining_advance_le
    omega
  | case2 copy c _ here held _ _ => exact c.remaining_look_le
  | case3 copy c h here held _ _ ih =>
    have : held.advance.remaining < c.remaining := remaining_look_advance_lt h
    omega
  | case4 copy c _ last =>
    have : last.remaining = 0 := c.remaining_fail _
    show last.remaining ≤ _
    omega

/-- Quoted text in which a backslash escapes the closing delimiter and the given characters. -/
def quoted (c : Cursor) (opener closer : Char) (escapes : List Char) : String × Cursor :=
  let first := c.take [opener]
  first.quotedLoop closer escapes first.offset none

theorem remaining_quoted_le (c : Cursor) (opener closer : Char) (escapes : List Char) :
    (c.quoted opener closer escapes).2.remaining ≤ c.remaining :=
  Nat.le_trans (remaining_quotedLoop_le closer escapes _ none _) (c.remaining_take_le [opener])

def balancedLoop (opener closer : Char) (first : Nat) (depth : Int) (c : Cursor) : String × Cursor :=
  if _h : c.more then
    if c.current.is closer then
      if depth - 1 = 0 then (c.since first, c)
      else balancedLoop opener closer first (depth - 1) c.advance
    else if c.current.is opener then balancedLoop opener closer first (depth + 1) c.advance
    else balancedLoop opener closer first depth c.advance
  else
    let last := c.unbalanced opener closer c.current depth
    (last.since first, last)
termination_by c.remaining
decreasing_by all_goals exact remaining_advance_lt _h

theorem remaining_balancedLoop_le (opener closer : Char) (first : Nat) (depth : Int) (c : Cursor) :
    (c.balancedLoop opener closer first depth).2.remaining ≤ c.remaining := by
  fun_induction balancedLoop opener closer first depth c with
  | case1 => exact Nat.le_refl _
  | case2 _ c _ _ _ ih => have := c.remaining_advance_le; omega
  | case3 _ c _ _ _ ih => have := c.remaining_advance_le; omega
  | case4 _ c _ _ _ ih => have := c.remaining_advance_le; omega
  | case5 _ c _ last =>
    have : last.remaining = 0 := c.remaining_fail _
    show last.remaining ≤ _
    omega

/-- Text up to the closing delimiter that balances the opening one. -/
def balanced (c : Cursor) (opener closer : Char) : String × Cursor :=
  let first := c.take [opener]
  first.balancedLoop opener closer first.offset 1

theorem remaining_balanced_le (c : Cursor) (opener closer : Char) :
    (c.balanced opener closer).2.remaining ≤ c.remaining :=
  Nat.le_trans (remaining_balancedLoop_le opener closer _ 1 _) (c.remaining_take_le [opener])

end RoutePattern.Cursor
