import RoutePattern.Proofs.ReachedScanners

/-!
# Loops end

Every loop over a cursor is a test and a turn, and the turns that it takes are bounded by what remains in
front of it. A run goes on by the lookahead alone. It ends because no class of code points holds the end,
and because what is seen ahead of a cursor can be read.
-/
namespace RoutePattern

/-- A loop takes turns as long as its test holds, and then leaves a result. -/
structure TurnLoop (σ ρ : Type) where
  goesOn : σ → Bool
  turn : σ → σ
  result : σ → ρ

namespace TurnLoop

variable {σ ρ : Type}

/-- The loop leaves a result after exactly so many turns. -/
inductive Gives (l : TurnLoop σ ρ) : Nat → σ → ρ → Prop where
  | stop {x} (h : l.goesOn x = false) : Gives l 0 x (l.result x)
  | turn {n x r} (h : l.goesOn x = true) (hr : Gives l n (l.turn x) r) : Gives l (n + 1) x r

/-- So many turns lead from one state to another. -/
inductive Leads (l : TurnLoop σ ρ) : Nat → σ → σ → Prop where
  | here (x) : Leads l 0 x x
  | turn {n x y} (h : l.goesOn x = true) (hr : Leads l n (l.turn x) y) : Leads l (n + 1) x y

/-- The loop leaves a result after at most so many turns. -/
def EndsWithin (l : TurnLoop σ ρ) (bound : Nat) (x : σ) (r : ρ) : Prop := ∃ n ≤ bound, l.Gives n x r

section
variable {l : TurnLoop σ ρ} {m n : Nat} {x y z : σ} {r r' : ρ}

theorem Leads.one (h : l.goesOn x = true) : l.Leads 1 x (l.turn x) := .turn h (.here _)

theorem Leads.trans (h : l.Leads m x y) (h' : l.Leads n y z) : l.Leads (m + n) x z := by
  induction h with
  | here x =>
    rw [Nat.zero_add]
    exact h'
  | turn hg _ ih =>
    rw [Nat.add_right_comm]
    exact .turn hg (ih h')

/-- Where turns lead to a state that stops, they are all the turns of the loop. -/
theorem Leads.gives (h : l.Leads n x y) (hs : l.goesOn y = false) : l.Gives n x (l.result y) := by
  induction h with
  | here => exact .stop hs
  | turn hg _ ih => exact .turn hg (ih hs)

/-- Turns go on past every state that is led to, unless they stop there. -/
theorem Leads.le_of_gives (h : l.Leads m x y) (hr : l.Gives n x r) : m ≤ n := by
  induction h generalizing n with
  | here => exact Nat.zero_le n
  | turn hg _ ih =>
    cases hr with
    | stop hs => cases hg.symm.trans hs
    | turn _ hr => exact Nat.succ_le_succ (ih hr)

/-- The number of turns and the result are those of the loop. -/
theorem Gives.unique (h : l.Gives m x r) (h' : l.Gives n x r') : m = n ∧ r = r' := by
  induction h generalizing n with
  | stop hs =>
    cases h' with
    | stop => exact ⟨rfl, rfl⟩
    | turn hg => cases hg.symm.trans hs
  | turn hg _ ih =>
    cases h' with
    | stop hs => cases hg.symm.trans hs
    | turn _ h' =>
      obtain ⟨rfl, rfl⟩ := ih h'
      exact ⟨rfl, rfl⟩

/-- A loop that comes to a state which its turns do not change has no result. -/
theorem not_gives_of_fixed (hl : l.Leads m x y) (hg : l.goesOn y = true) (ht : l.turn y = y) : ¬ l.Gives n x r := by
  intro h
  -- As many turns as are taken lead to the state, and one more is left to take there.
  have hstay (k : Nat) : l.Leads k y y := by
    induction k with
    | zero => exact .here y
    | succ k ih => exact .turn hg (ht.symm ▸ ih)
  have hle : m + (n + 1) ≤ n := (hl.trans (hstay (n + 1))).le_of_gives h
  omega

end

/-- A function that unfolds as the loop does is its result, where every turn leaves less to do. -/
theorem endsWithin_of_falls (l : TurnLoop σ ρ) (f : σ → ρ) (P : σ → Prop) (m : σ → Nat)
    (hf : ∀ x, P x → f x = if l.goesOn x then f (l.turn x) else l.result x)
    (ht : ∀ x, P x → l.goesOn x = true → P (l.turn x) ∧ m (l.turn x) < m x) (x : σ) (hx : P x) :
    l.EndsWithin (m x) x (f x) := by
  -- The measure bounds the turns to come: one is taken, and it leaves at least one less to do.
  induction hn : m x using Nat.strongRecOn generalizing x with
  | ind n ih =>
    rw [hf x hx]
    cases hg : l.goesOn x with
    | false => exact ⟨0, Nat.zero_le _, .stop hg⟩
    | true =>
      obtain ⟨hp, hlt⟩ := ht x hx hg
      obtain ⟨k, hk, hr⟩ := ih _ (hn ▸ hlt) _ hp rfl
      exact ⟨k + 1, by omega, .turn hg hr⟩

end TurnLoop

namespace Cursor

/-- Reads whitespace and moves the start of the token over it. -/
def blankTurns : TurnLoop (Position × Cursor) (Position × Cursor) where
  goesOn x := x.2.more && x.2.current.isWhitespace
  turn x := (x.2.position, x.2.advance)
  result x := x

/-- Advances while the lookahead is in the first class, and then leaves that class. -/
def runTurns : TurnLoop (List (CodePoint → Bool) × Cursor) Cursor where
  goesOn x := !x.1.isEmpty
  turn x := match x.1 with
    | [] => x
    | member :: classes =>
      if member x.2.look.ahead then (member :: classes, x.2.look.advance) else (classes, x.2.look)
  result x := x.2

def rawTurns (closer : Char) : TurnLoop Cursor Cursor where
  goesOn c := c.more && !c.current.is closer
  turn c := c.advance
  result c := c

/-- The code point and the one behind it are an escape. -/
def escapes (closer : Char) (set : List Char) (c : Cursor) : Bool :=
  c.current.isEscaped c.look.ahead [closer] || c.current.isEscaped c.look.ahead set

/-- Carries the unescaped copy along. -/
def quotedTurns (closer : Char) (set : List Char) (first : Nat) :
    TurnLoop (Option String × Cursor) (String × Cursor) where
  goesOn x := x.2.more && (x.2.escapes closer set || !x.2.current.is closer)
  turn x :=
    if x.2.escapes closer set then
      let escaped := x.2.look.take ['\x5c']
      (some (x.1.getD (x.2.look.since first) ++ escaped.current.text), escaped.advance)
    else (x.1.map (· ++ x.2.current.text), x.2.look.advance)
  result x :=
    let last := if x.2.more then x.2.look else x.2.unterminated closer x.2.current
    (x.1.getD (last.since first), last)

/-- Carries the depth along. -/
def balancedTurns (opener closer : Char) (first : Nat) : TurnLoop (Int × Cursor) (String × Cursor) where
  goesOn x := x.2.more && !(x.2.current.is closer && x.1 - 1 = 0)
  turn x :=
    (if x.2.current.is closer then x.1 - 1 else if x.2.current.is opener then x.1 + 1 else x.1, x.2.advance)
  result x :=
    let last := if x.2.more then x.2 else x.2.unbalanced opener closer x.2.current x.1
    (last.since first, last)

/-- The cursors over a pattern, moved by basic operations. -/
inductive Worked (pattern : List UInt8) : Cursor → Prop where
  | start : Worked pattern (.start pattern)
  | advance {c} (h : Worked pattern c) : Worked pattern c.advance
  | look {c} (h : Worked pattern c) : Worked pattern c.look
  | fail {c} (h : Worked pattern c) (e : Failure) : Worked pattern (c.fail e)
  | report {c} (h : Worked pattern c) (reports : List Failure) : Worked pattern { c with reports := reports }

/-- The cursor stops at the end, and what it has seen ahead can be read. -/
structure Sound (c : Cursor) : Prop where
  next : c.current = .eof → c.next = .stop
  more : ∀ p, c.lookahead = some p → p ≠ .eof → c.more = true

section
variable {pattern : List UInt8} {c : Cursor}

theorem sound_advance (c : Cursor) : Sound c.advance := by
  unfold Cursor.advance
  split
  · exact ⟨fun hc => CodePoint.noConfusion hc, fun p hp => by cases hp⟩
  · rename_i hn
    exact ⟨fun _ => hn, fun p hp => by cases hp⟩
  · rename_i e _
    exact ⟨fun _ => c.next_fail e, fun p hp => by cases hp⟩

theorem Sound.fail (h : Sound c) (e : Failure) : Sound (c.fail e) := by
  refine ⟨fun _ => c.next_fail e, fun p hp => ?_⟩
  unfold Cursor.fail at hp ⊢
  split at hp
  · rename_i hf
    rw [if_pos hf]
    exact h.more p hp
  · cases hp

theorem Sound.look (h : Sound c) : Sound c.look := by
  unfold Cursor.look
  split
  · exact h
  · split
    · rename_i e _
      exact ⟨fun _ => c.next_fail e, fun p hp hn => absurd (Option.some.inj hp).symm hn⟩
    · rename_i hd
      refine ⟨h.next, fun p hp hn => ?_⟩
      obtain rfl : c.next.codePoint = p := Option.some.inj hp
      -- Only a character is remembered as something else than the end, and it is never found there.
      cases hc : c.next with
      | stop => exact absurd (by rw [hc]; rfl) hn
      | illegal e => exact absurd hc (hd e)
      | char x width =>
        have hcurrent : c.current ≠ .eof := fun he => by cases hc.symm.trans (h.next he)
        have hfailure : c.failure.isSome ≠ true := fun hf => by simp [Cursor.next, hf] at hc
        simp only [Option.isSome_iff_ne_none, ne_eq, Decidable.not_not] at hfailure
        simp [Cursor.more, hfailure, hcurrent]

theorem Worked.sound (h : Worked pattern c) : Sound c := by
  induction h with
  | start => exact ⟨fun hc => CodePoint.noConfusion hc, fun p hp => by cases hp⟩
  | @advance c _ _ => exact sound_advance c
  | look _ ih => exact ih.look
  | fail _ e ih => exact ih.fail e
  | report _ _ ih => exact ⟨ih.next, ih.more⟩

/-- What a class without the end holds ahead of a cursor can be read. -/
theorem Sound.look_more (h : Sound c) {member : CodePoint → Bool} (he : member .eof = false)
    (hm : member c.look.ahead = true) : c.look.more = true := by
  have hn : c.look.ahead ≠ .eof := fun ha => by
    rw [ha, he] at hm
    cases hm
  cases hl : c.look.lookahead with
  | none => exact absurd (by rw [ahead, hl]; rfl) hn
  | some p =>
    rw [ahead, hl] at hn
    exact h.look.more p hl hn

theorem blankLoop_ends (start : Position) (c : Cursor) :
    blankTurns.EndsWithin c.remaining (start, c) (c.blankLoop start) := by
  refine blankTurns.endsWithin_of_falls (fun x => x.2.blankLoop x.1) (fun _ => True)
    (fun x => x.2.remaining) (fun x _ => ?_) (fun x _ hg => ⟨trivial, ?_⟩) (start, c) trivial
  · rw [blankLoop]
    rfl
  · exact remaining_advance_lt (Bool.and_eq_true_iff.1 hg).1

theorem rawLoop_ends (closer : Char) (c : Cursor) :
    (rawTurns closer).EndsWithin c.remaining c (c.rawLoop closer) := by
  refine (rawTurns closer).endsWithin_of_falls (rawLoop closer) (fun _ => True) remaining (fun c _ => ?_)
    (fun c _ hg => ⟨trivial, ?_⟩) c trivial
  · rw [rawLoop]
    rfl
  · exact remaining_advance_lt (Bool.and_eq_true_iff.1 hg).1

theorem quotedLoop_ends (closer : Char) (set : List Char) (first : Nat) (copy : Option String) (c : Cursor) :
    (quotedTurns closer set first).EndsWithin c.remaining (copy, c) (c.quotedLoop closer set first copy) := by
  refine (quotedTurns closer set first).endsWithin_of_falls (fun x => x.2.quotedLoop closer set first x.1)
    (fun _ => True) (fun x => x.2.remaining) (fun x _ => ?_) (fun x _ hg => ⟨trivial, ?_⟩) (copy, c) trivial
  · obtain ⟨copy, c⟩ := x
    dsimp only
    rw [quotedLoop]
    cases hm : c.more with
    | false => simp [quotedTurns, hm]
    | true =>
      cases he : c.escapes closer set with
      | true =>
        have he' := he
        unfold escapes at he'
        simp [quotedTurns, hm, he, he']
      | false =>
        have he' := he
        unfold escapes at he'
        cases hq : c.current.is closer <;> simp [quotedTurns, hm, he, he', hq]
  · have hm : x.2.more = true := (Bool.and_eq_true_iff.1 hg).1
    simp only [quotedTurns]
    split
    · have := remaining_look_take_lt hm ['\x5c']
      have := (x.2.look.take ['\x5c']).remaining_advance_le
      dsimp only
      omega
    · exact remaining_look_advance_lt hm

theorem balancedLoop_ends (opener closer : Char) (first : Nat) (depth : Int) (c : Cursor) :
    (balancedTurns opener closer first).EndsWithin c.remaining (depth, c)
      (c.balancedLoop opener closer first depth) := by
  refine (balancedTurns opener closer first).endsWithin_of_falls
    (fun x => x.2.balancedLoop opener closer first x.1) (fun _ => True) (fun x => x.2.remaining) (fun x _ => ?_)
    (fun x _ hg => ⟨trivial, ?_⟩) (depth, c) trivial
  · obtain ⟨depth, c⟩ := x
    dsimp only
    rw [balancedLoop]
    cases hm : c.more with
    | false => simp [balancedTurns, hm]
    | true =>
      cases hr : c.current.is closer with
      | true => by_cases hd : depth - 1 = 0 <;> simp [balancedTurns, hm, hr, hd]
      | false => cases hl : c.current.is opener <;> simp [balancedTurns, hm, hr, hl]
  · exact remaining_advance_lt (Bool.and_eq_true_iff.1 hg).1

theorem skipWhile_of_sound (h : Sound c) {member : CodePoint → Bool} (he : member .eof = false) :
    c.skipWhile member = if member c.look.ahead then c.look.advance.skipWhile member else c.look := by
  rw [skipWhile]
  by_cases hm : member c.look.ahead = true
  · simp [hm, h.look_more he hm]
  · simp [hm]

theorem skipAll_ends (h : Sound c) {classes : List (CodePoint → Bool)}
    (hc : ∀ member ∈ classes, member .eof = false) : runTurns.EndsWithin (classes.length + c.remaining) (classes, c)
      (classes.foldl (fun c member => c.skipWhile member) c) := by
  refine runTurns.endsWithin_of_falls (fun x => x.1.foldl (fun c member => c.skipWhile member) x.2)
    (fun x => Sound x.2 ∧ ∀ member ∈ x.1, member .eof = false) (fun x => x.1.length + x.2.remaining)
    (fun x hx => ?_) (fun x hx hg => ?_) (classes, c) ⟨h, hc⟩
  · obtain ⟨classes, c⟩ := x
    cases classes with
    | nil => rfl
    | cons member classes =>
      have he : member .eof = false := hx.2 member (by simp)
      simp only [runTurns, List.isEmpty_cons, Bool.not_false, if_true, List.foldl_cons]
      rw [skipWhile_of_sound hx.1 he]
      split <;> rfl
  · obtain ⟨classes, c⟩ := x
    cases classes with
    | nil => cases hg
    | cons member classes =>
      obtain ⟨he, hc⟩ := List.forall_mem_cons.1 hx.2
      have hle := c.remaining_look_le
      simp only [runTurns]
      split
      · rename_i hm
        have hlt : c.look.advance.remaining < c.look.remaining := remaining_advance_lt (hx.1.look_more he hm)
        exact ⟨⟨sound_advance _, hx.2⟩, by dsimp only; omega⟩
      · exact ⟨⟨hx.1.look, hc⟩, by simp only [List.length_cons]; omega⟩

end

/-- The classes that a scanner reads runs of. -/
def runClasses : List (CodePoint → Bool) :=
  [CodePoint.isUpper, CodePoint.continuesSegment, CodePoint.isIdentifierStart, CodePoint.isIdentifier,
   CodePoint.continuesLiteral, CodePoint.isDigit]

theorem runClasses_eof : ∀ member ∈ runClasses, member .eof = false := by
  simp only [runClasses, List.forall_mem_cons]
  exact ⟨rfl, rfl, rfl, rfl, rfl, rfl, by simp⟩

/-- Every loop that starts on a cursor ends. -/
structure LoopsEnd (c : Cursor) : Prop where
  blank : ∀ start, blankTurns.EndsWithin c.remaining (start, c) (c.blankLoop start)
  run : ∀ classes ⊆ runClasses, runTurns.EndsWithin (classes.length + c.remaining) (classes, c)
    (classes.foldl (fun c member => c.skipWhile member) c)
  raw : ∀ closer, (rawTurns closer).EndsWithin c.remaining c (c.rawLoop closer)
  quoted : ∀ closer set first copy,
    (quotedTurns closer set first).EndsWithin c.remaining (copy, c) (c.quotedLoop closer set first copy)
  balanced : ∀ opener closer first depth,
    (balancedTurns opener closer first).EndsWithin c.remaining (depth, c) (c.balancedLoop opener closer first depth)

theorem Worked.loopsEnd {pattern : List UInt8} {c : Cursor} (h : Worked pattern c) : c.LoopsEnd where
  blank start := blankLoop_ends start c
  run _ hc := skipAll_ends h.sound fun member hm => runClasses_eof member (hc hm)
  raw closer := rawLoop_ends closer c
  quoted closer set first copy := quotedLoop_ends closer set first copy c
  balanced opener closer first depth := balancedLoop_ends opener closer first depth c

theorem kept_worked (pattern : List UInt8) : Kept (Worked pattern) := ⟨.advance, .look, .fail⟩

end Cursor

namespace Scanner

/-- A call moves the cursor by basic operations alone. -/
theorem worked_step {pattern : List UInt8} {scanner : Scanner} (h : Cursor.Worked pattern scanner.cursor) :
    Cursor.Worked pattern scanner.step.scanner.cursor := by
  have haccept {found : Finding} (hf : Cursor.Worked pattern found.cursor) :
      Cursor.Worked pattern (accept found).scanner.cursor := by
    unfold accept
    dsimp only
    split
    · exact hf.report []
    · exact (hf.fail _).report []
  unfold Scanner.step
  split
  · exact h
  · exact haccept ((Cursor.kept_worked pattern).token h.advance _ _)

theorem Reached.worked {pattern : List UInt8} {scanner : Scanner} (h : Reached pattern scanner) :
    Cursor.Worked pattern scanner.cursor := by
  induction h with
  | start => exact .start
  | step _ ih => exact worked_step ih
  | next _ ih => exact worked_step ih

end Scanner
end RoutePattern
