import Mathlib.Data.List.Chain
import RoutePattern.Proofs.UnreadText

/-!
# Runs of one class after the other

A scan of runs reads, for one class after the other, the longest run of what the runs before leave. Every turn of its
loop reads a character or leaves a class, so that it takes as many turns as there are of both. No class may hold the
end, since the loop stays at the end with such a class.
-/
namespace RoutePattern
open Utf8 (encode size)

namespace CodePoint

/-- All characters of the first class are in the second one. -/
def Within (narrow member : CodePoint → Bool) : Prop := ∀ x, narrow (.char x) = true → member (.char x) = true

instance : Trans Within Within Within := ⟨fun h h' x hx => h' x (h x hx)⟩

/-- The longest part in front of a text that has all its characters in a class. -/
structure LongestRun (member : CodePoint → Bool) (text run : List Char) : Prop where
  front : run <+: text
  inside : ∀ x ∈ run, member (.char x) = true
  longest : ∀ other, other <+: text → (∀ x ∈ other, member (.char x) = true) → other <+: run

/-- A run for each class, the longest one of what the runs before it leave of the text, and what all of them leave. -/
inductive LongestRuns : List (CodePoint → Bool) → List Char → List (List Char) → List Char → Prop where
  | nil (text) : LongestRuns [] text [] text
  | cons {member classes run text runs rest} (h : LongestRun member (run ++ text) run)
      (hr : LongestRuns classes text runs rest) : LongestRuns (member :: classes) (run ++ text) (run :: runs) rest

section
variable {member : CodePoint → Bool} {classes : List (CodePoint → Bool)} {text run rest : List Char}
  {runs : List (List Char)} {x : Char}

/-- A run is the longest one if the text goes on with something that is not in the class. -/
theorem longestRun_append_iff (he : member .eof = false) :
    LongestRun member (run ++ rest) run ↔ (∀ x ∈ run, member (.char x) = true) ∧ member (.ofHead rest) = false := by
  constructor
  · intro h
    refine ⟨h.inside, ?_⟩
    cases rest with
    | nil => exact he
    | cons y rest =>
      refine Bool.eq_false_iff.2 fun hy => ?_
      have hlonger : run ++ [y] <+: run :=
        h.longest _ ((List.prefix_append_right_inj run).2 ⟨rest, rfl⟩)
          (List.forall_mem_append.2 ⟨h.inside, List.forall_mem_singleton.2 hy⟩)
      have hle := hlonger.length_le
      rw [List.length_append, List.length_singleton] at hle
      exact absurd hle (Nat.not_succ_le_self _)
  · rintro ⟨hi, hr⟩
    refine ⟨List.prefix_append run rest, hi, fun other hf ho => ?_⟩
    -- What is longer than the run holds the character behind it, which is not in the class.
    rcases List.prefix_or_prefix_of_prefix hf (List.prefix_append run rest) with hp | ⟨more, rfl⟩
    · exact hp
    · cases more with
      | nil => exact (List.append_nil run).symm ▸ List.prefix_rfl
      | cons y more =>
        obtain ⟨back, rfl⟩ := (List.prefix_append_right_inj run).1 hf
        have hy : member (.char y) = true := ho y (by simp)
        cases hr.symm.trans hy

/-- A member in front of a text prolongs its longest run. -/
theorem LongestRun.cons (h : LongestRun member text run) (hx : member (.char x) = true) :
    LongestRun member (x :: text) (x :: run) where
  front := List.cons_prefix_cons.2 ⟨rfl, h.front⟩
  inside := List.forall_mem_cons.2 ⟨hx, h.inside⟩
  longest other hf ho := by
    cases other with
    | nil => exact List.nil_prefix
    | cons y other =>
      obtain ⟨rfl, hother⟩ := List.cons_prefix_cons.1 hf
      exact List.cons_prefix_cons.2 ⟨rfl, h.longest other hother (List.forall_mem_cons.1 ho).2⟩

theorem LongestRuns.cons_of_outside (he : member .eof = false) (run : List Char)
    (hi : ∀ x ∈ run, member (.char x) = true) (hn : member (.ofHead text) = false)
    (hr : LongestRuns classes text runs rest) : LongestRuns (member :: classes) (run ++ text) (run :: runs) rest :=
  .cons ((longestRun_append_iff he).2 ⟨hi, hn⟩) hr

theorem exists_longestRuns (hc : ∀ member ∈ classes, member .eof = false) (text : List Char) :
    ∃ runs rest, LongestRuns classes text runs rest := by
  induction classes generalizing text with
  | nil => exact ⟨[], text, .nil text⟩
  | cons member classes ih =>
    obtain ⟨he, hc⟩ := List.forall_mem_cons.1 hc
    obtain ⟨run, text, rfl, hi, hn⟩ := exists_run member he text
    obtain ⟨runs, rest, hr⟩ := ih hc text
    exact ⟨run :: runs, rest, .cons_of_outside he run hi hn hr⟩

theorem LongestRuns.text_eq (h : LongestRuns classes text runs rest) : text = runs.flatten ++ rest := by
  induction h with
  | nil => rfl
  | cons _ _ ih => rw [List.flatten_cons, List.append_assoc, ← ih]

/-- All runs are in a class that holds each of their classes. -/
theorem LongestRuns.inside (h : LongestRuns classes text runs rest) (hw : ∀ narrow ∈ classes, Within narrow member) :
    ∀ x ∈ runs.flatten, member (.char x) = true := by
  induction h with
  | nil => exact List.forall_mem_nil _
  | cons h _ ih =>
    obtain ⟨hn, hw⟩ := List.forall_mem_cons.1 hw
    rw [List.flatten_cons, List.forall_mem_append]
    exact ⟨fun x hx => hn x (h.inside x hx), ih hw⟩

/-- What is left is outside of the last class. -/
theorem LongestRuns.outside (h : LongestRuns (classes ++ [member]) text runs rest) (he : member .eof = false) :
    member (.ofHead rest) = false := by
  induction classes generalizing text runs with
  | nil =>
    cases h with
    | cons h hr =>
      cases hr with
      | nil => exact ((longestRun_append_iff he).1 h).2
  | cons narrow classes ih =>
    cases h with
    | cons _ hr => exact ih hr

/-- Where every class is within the next one, the runs together are the longest run of the last class. -/
theorem LongestRuns.flatten (h : LongestRuns classes text runs rest) (hw : classes.IsChain Within)
    (hm : classes.getLast? = some member) (he : member .eof = false) : LongestRun member text runs.flatten := by
  obtain ⟨front, rfl⟩ := List.getLast?_eq_some_iff.1 hm
  obtain ⟨-, -, hlast⟩ := List.pairwise_append.1 hw.pairwise
  have hall : ∀ narrow ∈ front ++ [member], Within narrow member :=
    List.forall_mem_append.2 ⟨fun narrow hn => hlast narrow hn member (List.mem_singleton_self member),
      List.forall_mem_singleton.2 fun _ hx => hx⟩
  rw [h.text_eq]
  exact (longestRun_append_iff he).2 ⟨h.inside hall, h.outside he⟩

end
end CodePoint

namespace Cursor
open CodePoint (LongestRun LongestRuns Within)

section
variable {s : SourceText} {done run after rest text : List Char} {runs : List (List Char)} {x : Char} {c : Cursor}
  {member : CodePoint → Bool} {classes : List (CodePoint → Bool)} {pattern : List UInt8}

/-- A turn reads a character of the class. -/
theorem OnLast.turn_read (h : OnLast s done (x :: after) c) (hx : member (.char x) = true)
    (classes : List (CodePoint → Bool)) : ∃ d, OnLast s (done ++ [x]) after d ∧
      runTurns.turn (member :: classes, c) = (member :: classes, d) := by
  have ha : c.look.ahead = .char x := h.behind.ahead_look
  have hl : Behind s done (x :: after) c.look := h.behind.look (by simp)
  exact ⟨c.look.advance, hl.advance.onLast, by simp [runTurns, ha, hx]⟩

/-- A turn leaves the class where the text does not go on with it. -/
theorem OnLast.turn_leave (h : OnLast s done after c) (ho : s.obstacle = none) (ha : member (.ofHead after) = false)
    (classes : List (CodePoint → Bool)) : ∃ d, OnLast s done after d ∧
      runTurns.turn (member :: classes, c) = (classes, d) := by
  have hl : c.look.ahead = .ofHead after := h.behind.ahead_look
  obtain ⟨before, x, rfl, hon⟩ := h
  exact ⟨c.look, (hon.look fun _ => ho).onLast, by simp [runTurns, hl, ha]⟩

/-- One turn for each character reads a run. -/
theorem OnLast.leads_read (h : OnLast s done (run ++ rest) c) (hi : ∀ x ∈ run, member (.char x) = true)
    (classes : List (CodePoint → Bool)) : ∃ d, OnLast s (done ++ run) rest d ∧
      runTurns.Leads run.length (member :: classes, c) (member :: classes, d) := by
  induction run generalizing done c with
  | nil => exact ⟨c, by simpa using h, .here _⟩
  | cons x run ih =>
    obtain ⟨hx, hi⟩ := List.forall_mem_cons.1 hi
    obtain ⟨e, he, ht⟩ := h.turn_read hx classes
    obtain ⟨d, hd, hl⟩ := ih he hi
    exact ⟨d, by simpa using hd, .turn rfl (ht ▸ hl)⟩

/-- One turn more leaves its class. -/
theorem OnLast.leads_run (h : OnLast s done (run ++ rest) c) (ho : s.obstacle = none)
    (hi : ∀ x ∈ run, member (.char x) = true) (hr : member (.ofHead rest) = false)
    (classes : List (CodePoint → Bool)) : ∃ d, OnLast s (done ++ run) rest d ∧
      runTurns.Leads (run.length + 1) (member :: classes, c) (classes, d) := by
  obtain ⟨e, he, hread⟩ := h.leads_read hi classes
  obtain ⟨d, hd, ht⟩ := he.turn_leave ho hr classes
  have hleave : runTurns.Leads 1 (member :: classes, e) (classes, d) := ht ▸ .one rfl
  exact ⟨d, hd, hread.trans hleave⟩

/-- The turns of a loop are one for each character of the runs and one for each class. -/
theorem OnLast.leads_runs (h : OnLast s done text c) (ho : s.obstacle = none)
    (hc : ∀ member ∈ classes, member .eof = false) (hr : LongestRuns classes text runs rest) :
    ∃ d, OnLast s (done ++ runs.flatten) rest d ∧
      runTurns.Leads (runs.flatten.length + classes.length) (classes, c) ([], d) := by
  -- The turns for the first class are followed by those of the loop over the other classes.
  induction hr generalizing done c with
  | nil => exact ⟨c, by simpa using h, .here _⟩
  | @cons member classes run text runs rest hrun _ ih =>
    obtain ⟨he, hc⟩ := List.forall_mem_cons.1 hc
    obtain ⟨hi, hn⟩ := (CodePoint.longestRun_append_iff he).1 hrun
    obtain ⟨e, he, hone⟩ := h.leads_run ho hi hn classes
    obtain ⟨d, hd, hmore⟩ := ih he hc
    have hturns : (run :: runs).flatten.length + (member :: classes).length =
        run.length + 1 + (runs.flatten.length + classes.length) := by
      simp only [List.flatten_cons, List.length_append, List.length_cons]
      omega
    exact ⟨d, by simpa using hd, hturns ▸ hone.trans hmore⟩

/-- At the end, a turn for a class that holds the end changes nothing. -/
theorem Ended.turn_eq (h : Ended s c) (he : member .eof = true) (classes : List (CodePoint → Bool)) :
    runTurns.turn (member :: classes, c) = (member :: classes, c) := by
  have hl : c.look = { c with lookahead := some .eof } := by simp [Cursor.look, h.lookahead, h.next, Decoded.codePoint]
  have hahead : c.look.ahead = .eof := by
    rw [hl]
    rfl
  have hadvance : c.look.advance = c := by
    rw [advance_of_stop (next_look_of_stop h.next), hl]
    exact (advance_of_stop h.next).symm.trans h.advance_eq
  simp [runTurns, hahead, hadvance, he]

/-- A class that holds the end, and before it all that is left of the text, is never left. -/
theorem Worked.run_endless {n : Nat} {d : Cursor} (h : Worked pattern c) (hx : c.current = .char x)
    (hl : ∀ y ∈ text, CodePoint.IsLegal y) (hu : pattern.drop c.readOffset = encode text) (he : member .eof = true)
    (hm : ∀ y ∈ text, member (.char y) = true) : ¬ runTurns.Gives n (member :: classes, c) d := by
  obtain ⟨s, before, unread, rfl, hon⟩ := h.exists_on hx
  obtain ⟨rfl, hr, -⟩ := hon.of_unread hl hu
  have hwhole : OnLast s (before ++ [x]) (unread ++ []) c := (List.append_nil unread).symm ▸ hon.onLast
  obtain ⟨e, hlast, hread⟩ := hwhole.leads_read hm classes
  -- One turn more finds the end and advances over it, and from then on turns change nothing.
  have hended : Ended s e.look.advance := hlast.behind.advance_look_spent.ended (s.obstacle_eq_none.2 hr)
  have hahead : e.look.ahead = .eof := hlast.behind.ahead_look
  have hturn : runTurns.turn (member :: classes, e) = (member :: classes, e.look.advance) := by
    simp [runTurns, hahead, he]
  have hover : runTurns.Leads 1 (member :: classes, e) (member :: classes, e.look.advance) := hturn ▸ .one rfl
  exact TurnLoop.not_gives_of_fixed (hread.trans hover) rfl (hended.turn_eq he classes)

/-- What scanning the runs of some classes gives, from a character on. -/
structure ReadsRuns (pattern : List UInt8) (classes : List (CodePoint → Bool)) (c : Cursor) (x : Char)
    (text : List Char) (runs : List (List Char)) (rest : List Char) : Prop where
  ends : runTurns.Gives (runs.flatten.length + classes.length) (classes, c) (c.run classes).2
  failure : (c.run classes).2.failure = none
  consumed : (c.run classes).2.readOffset = c.readOffset + size runs.flatten
  unread : pattern.drop (c.run classes).2.readOffset = encode rest
  stands : ∃ front y, x :: runs.flatten = front ++ [y] ∧ StandsOn (c.run classes).2 y (c.offset + size front)
  literal : (c.run classes).1 = String.ofList (x :: runs.flatten)
  nested : classes.IsChain Within → ∀ member, classes.getLast? = some member → LongestRun member text runs.flatten

theorem OnLast.on (h : OnLast s (done ++ [x]) after c) : On s done x after c := by
  obtain ⟨before, y, heq, hon⟩ := h
  obtain ⟨rfl, hxy⟩ := List.append_inj' heq rfl
  cases hxy
  exact hon

/-- What the loop over some classes leaves is the cursor behind the run. -/
theorem Sound.run_of_gives {n : Nat} {d : Cursor} (h : Sound c) (hc : ∀ member ∈ classes, member .eof = false)
    (hg : runTurns.Gives n (classes, c) d) : (c.run classes).2 = d := by
  obtain ⟨m, -, hm⟩ := skipAll_ends h hc
  exact (hm.unique hg).2

theorem On.reads_runs (h : On s done x text c) (hs : Sound c) (he : s.rest = [])
    (hc : ∀ member ∈ classes, member .eof = false) (hr : LongestRuns classes text runs rest) :
    ReadsRuns s.bytes classes c x text runs rest := by
  obtain ⟨d, hd, hl⟩ := h.onLast.leads_runs (s.obstacle_eq_none.2 he) hc hr
  have hgives : runTurns.Gives (runs.flatten.length + classes.length) (classes, c) d := hl.gives rfl
  have hrun : (c.run classes).2 = d := hs.run_of_gives hc hgives
  have hliteral : (c.run classes).1 = d.slice c.offset d.readOffset := by
    rw [← hrun]
    rfl
  rw [← List.append_cons] at hd
  have hplace : d.readOffset = s.place (done ++ x :: runs.flatten) := by
    rw [hd.behind.readOffset, s.reached_of_ne_nil (by simp)]
  obtain ⟨front, y, hlast⟩ : ∃ front y, x :: runs.flatten = front ++ [y] :=
    ⟨_, _, (List.dropLast_concat_getLast (List.cons_ne_nil x _)).symm⟩
  constructor
  case ends => exact hrun ▸ hgives
  case failure => exact hrun ▸ hd.behind.failure
  case consumed => rw [hrun, hplace, h.place_behind]
  case unread => rw [hrun, hplace, s.drop_place hd.behind.text, he, List.append_nil]
  case stands =>
    rw [hlast, ← List.append_assoc] at hd
    refine ⟨front, y, hlast, ?_⟩
    rw [hrun, h.offset, ← SourceText.place_append]
    exact hd.on.standsOn
  case literal =>
    rw [hliteral, h.offset]
    exact hd.behind.slice (List.cons_ne_nil x _)
  case nested => exact fun hw member hm => hr.flatten hw hm (hc member (List.mem_of_getLast? hm))

/-- A run reads the longest part of the text for each of its classes, and names are longest runs. -/
theorem Worked.run_reads_longest (h : Worked pattern c) (hx : c.current = .char x)
    (hl : ∀ y ∈ text, CodePoint.IsLegal y) (hu : pattern.drop c.readOffset = encode text) :
    (∀ classes : List (CodePoint → Bool), (∀ member ∈ classes, member .eof = false) →
      (∃ runs rest, LongestRuns classes text runs rest) ∧
        ∀ runs rest, LongestRuns classes text runs rest → ReadsRuns pattern classes c x text runs rest) ∧
    ((CodePoint.char x).isIdentifier = true → LongestRun CodePoint.isIdentifier (x :: text)
      (c.run [CodePoint.isIdentifierStart, CodePoint.isIdentifier]).1.toList) := by
  obtain ⟨s, before, unread, rfl, hon⟩ := h.exists_on hx
  obtain ⟨rfl, hend, -⟩ := hon.of_unread hl hu
  have hreads {classes : List (CodePoint → Bool)} (hc : ∀ member ∈ classes, member .eof = false)
      {runs : List (List Char)} {rest : List Char} (hr : LongestRuns classes unread runs rest) :
      ReadsRuns s.bytes classes c x unread runs rest := hon.reads_runs h.sound hend hc hr
  refine ⟨fun classes hc => ⟨CodePoint.exists_longestRuns hc unread, fun _ _ hr => hreads hc hr⟩, fun hi => ?_⟩
  have hc : ∀ member ∈ [CodePoint.isIdentifierStart, CodePoint.isIdentifier], member .eof = false := by decide
  have hw : [CodePoint.isIdentifierStart, CodePoint.isIdentifier].IsChain Within :=
    .cons_cons (fun y hy => isIdentifier_of_start (.char y) hy) (.singleton CodePoint.isIdentifier)
  obtain ⟨runs, rest, hr⟩ := CodePoint.exists_longestRuns hc unread
  have hname : LongestRun CodePoint.isIdentifier unread runs.flatten := (hreads hc hr).nested hw _ rfl
  rw [(hreads hc hr).literal, String.toList_ofList]
  exact hname.cons hi

/-- Behind a marker, classes that exclude each other and a name that holds all their runs. -/
theorem run_reads_longest_marked :
    let pattern := encode [CodePoint.byteOrderMark, 'λ', '1', 'Z', '9', '-', 'é']
    let classes := [CodePoint.isUpper, CodePoint.isDigit, CodePoint.isUpper, CodePoint.isDigit]
    let c := (start pattern).advance
    runTurns.Gives 7 (classes, c) (c.run classes).2 ∧ (c.run classes).1 = "λ1Z9" ∧
      pattern.drop (c.run classes).2.readOffset = encode ['-', 'é'] ∧
      LongestRun CodePoint.isIdentifier ['λ', '1', 'Z', '9', '-', 'é']
        (c.run [CodePoint.isIdentifierStart, CodePoint.isIdentifier]).1.toList := by
  intro pattern classes c
  have h : Worked pattern c := .advance .start
  have hr : LongestRuns classes ['1', 'Z', '9', '-', 'é'] [[], ['1'], ['Z'], ['9']] ['-', 'é'] :=
    .cons_of_outside rfl [] (List.forall_mem_nil _) (by decide) <|
      .cons_of_outside rfl ['1'] (List.forall_mem_singleton.2 (by decide)) (by decide) <|
      .cons_of_outside rfl ['Z'] (List.forall_mem_singleton.2 (by decide)) (by decide) <|
      .cons_of_outside rfl ['9'] (List.forall_mem_singleton.2 (by decide)) (by decide) <| .nil _
  have hx : c.current = .char 'λ' := by decide +kernel
  have hu : pattern.drop c.readOffset = encode ['1', 'Z', '9', '-', 'é'] := by decide +kernel
  obtain ⟨hruns, hname⟩ := h.run_reads_longest hx (CodePoint.isLegal_of_all (by decide)) hu
  have hreads := (hruns classes (by decide)).2 _ _ hr
  exact ⟨hreads.ends, hreads.literal, hreads.unread, hname (by decide +kernel)⟩

end
end Cursor
end RoutePattern
