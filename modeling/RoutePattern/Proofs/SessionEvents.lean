import RoutePattern.Proofs.SettledSessions

/-!
# What a session tells its observer

A call on a scanner that has not failed ends with an event for its token. The call that latches a failure
tells of it right in front, and no later call does again. A peek tells what the next scan is going to tell.
-/
namespace RoutePattern

def Event.isScanned : Event → Bool
  | scanned .. => true
  | _ => false

/-- What scans that start on a new scanner tell, up to a failure or without one. -/
inductive Recounts : Option Failure → List Event → Prop where
  | unfailed {events} (h : ∀ event ∈ events, event.isScanned = true) : Recounts none events
  | failed {front e l offset readOffset} (h : ∀ event ∈ front, event.isScanned = true) :
      Recounts (some e) (front ++ [.failed e, .scanned l offset readOffset])

theorem Recounts.cons {failure : Option Failure} {events : List Event} {event : Event}
    (h : Recounts failure events) (he : event.isScanned = true) : Recounts failure (event :: events) := by
  cases h with
  | unfailed h => exact .unfailed (List.forall_mem_cons.2 ⟨he, h⟩)
  | failed h => exact @Recounts.failed (event :: _) _ _ _ _ (List.forall_mem_cons.2 ⟨he, h⟩)

namespace Cursor

/-- The reports since the last step hold the failure and nothing else. -/
def Reporting (c : Cursor) : Prop := c.reports = c.failure.toList

section
variable {c : Cursor}

theorem Reporting.fail (h : Reporting c) (e : Failure) : Reporting (c.fail e) := by
  unfold Reporting at h ⊢
  unfold Cursor.fail
  split
  · exact h
  · rename_i hf
    have hn : c.failure = none := by simpa using hf
    simp [h, hn]

theorem Reporting.advance (h : Reporting c) : Reporting c.advance := by
  unfold Cursor.advance
  split
  · exact h
  · exact h
  · exact h.fail _

theorem Reporting.look (h : Reporting c) : Reporting c.look := by
  unfold Cursor.look
  split
  · exact h
  · split
    · exact h.fail _
    · exact h

theorem kept_reporting : Kept Reporting := ⟨.advance, .look, .fail⟩

end
end Cursor

/-- What a call tells that has left the scanner behind a token. -/
def Scanner.tells (scanner : Scanner) (t : Token) : List Event :=
  scanner.failure.toList.map .failed ++ [.scanned t.lexeme scanner.cursor.offset scanner.cursor.readOffset]

namespace Scanner

section
variable {pattern : List UInt8} {scanner : Scanner}

theorem events_accept {found : Finding} (h : found.cursor.Reporting) :
    (accept found).events = (accept found).scanner.tells (accept found).token := by
  let token : Token := ⟨found.lexeme, found.literal, found.start, found.cursor.position⟩
  let cursor := if token.isValid then found.cursor else found.cursor.unexpected found.cursor.current recovery
  have hc : cursor.Reporting := by
    unfold cursor
    split
    · exact h
    · exact h.fail _
  show cursor.reports.map Event.failed ++ _ = _
  rw [hc]
  rfl

/-- A step from a scanner without a failure tells of the one that it latches, and then of its token. -/
theorem Reached.events_step (h : Reached pattern scanner) (hf : scanner.failure = none) :
    scanner.step.events = scanner.step.scanner.tells scanner.step.token := by
  have hc : scanner.cursor.Reporting := by
    rw [Cursor.Reporting, h.reports, show scanner.cursor.failure = none from hf]
    rfl
  rw [step_of_unfailed hf]
  exact events_accept (Cursor.kept_reporting.token hc.advance scanner.mode scanner.cursor.position)

end
end Scanner

namespace Session

/-- The commands for one scanner that is not kept for later: calls, and resets between them. -/
def Drives (c : Command) : Prop := c ∈ calls ∨ ∃ pattern, c = .reset pattern

/-- What a command tells. -/
def emits (s : Session) (c : Command) : List Event := (s.run c).2.events.drop s.events.length

/-- What some commands tell, one after the other. -/
def transcript (s : Session) : List Command → List (List Event)
  | [] => []
  | c :: cs => s.emits c :: (s.run c).2.transcript cs

/-- What some commands tell, all but the peeks. -/
def scanEvents (s : Session) : List Command → List Event
  | [] => []
  | c :: cs => (if c = .peek then [] else s.emits c) ++ (s.run c).2.scanEvents cs

/-- What a session tells from here on. -/
structure Narrates (s : Session) : Prop where
  reset : ∀ pattern, s.emits (.reset pattern) = [.reset pattern.length]
  scan : s.scanner.failure = none →
    ∃ t, (s.run .scan).1 = .token t ∧ s.emits .scan = (s.run .scan).2.scanner.tells t
  failed : s.scanner.failure ≠ none → s.emits .scan = []
  next : (s.run .next).2 = (s.run .scan).2 ∧ s.emits .next = s.emits .scan
  peek : s.emits .peek = s.emits .scan ∧ (s.run .peek).2.scanner = s.scanner ∧
    ∀ later, (s.run .peek).2.transcript later = s.transcript later
  renewed : ∀ pattern, Fresh pattern s → ∀ later, (∀ c ∈ later, c ∈ calls) →
    Recounts (s.afterAll later).scanner.failure (s.scanEvents later)

section
variable {pattern : List UInt8} {s t : Session} {c : Command} {cs : List Command}

/-- Commands only add to what has been told, and go by the scanners alone. -/
theorem run_events (s : Session) (c : Command) : ∃ events, ∀ earlier,
    (({ s with events := earlier } : Session).run c).2 = { (s.run c).2 with events := earlier ++ events } := by
  cases c with
  | scan | peek | next => exact ⟨s.scanner.step.events, fun _ => rfl⟩
  | drain => exact ⟨s.scanner.drain.flatMap Step.events, fun _ => rfl⟩
  | save => exact ⟨[], fun earlier => by simp [run]⟩
  | restore =>
    refine ⟨[], fun earlier => ?_⟩
    unfold run
    dsimp only
    split <;> simp
  | reset pattern => exact ⟨[.reset pattern.length], fun _ => rfl⟩

theorem events_run (s : Session) (c : Command) : (s.run c).2.events = s.events ++ s.emits c := by
  obtain ⟨events, he⟩ := s.run_events c
  have hr : (s.run c).2.events = s.events ++ events := congrArg Session.events (he s.events)
  rw [emits, hr, List.drop_left]

theorem run_congr (h : s.scanner = t.scanner) (hs : s.saved = t.saved) (c : Command) :
    s.emits c = t.emits c ∧ (s.run c).2.scanner = (t.run c).2.scanner ∧ (s.run c).2.saved = (t.run c).2.saved := by
  obtain ⟨events, he⟩ := s.run_events c
  have hr : t = { s with events := t.events } := by rw [h, hs]
  have ht : (t.run c).2 = { (s.run c).2 with events := t.events ++ events } := by
    rw [hr]
    exact he t.events
  have hse : (s.run c).2.events = s.events ++ events := congrArg Session.events (he s.events)
  have hte : (t.run c).2.events = t.events ++ events := by rw [ht]
  refine ⟨?_, by rw [ht], by rw [ht]⟩
  rw [emits, emits, hse, hte, List.drop_left, List.drop_left]

/-- What is told later does not depend on what has been told. -/
theorem transcript_congr (h : s.scanner = t.scanner) (hs : s.saved = t.saved) (cs : List Command) :
    s.transcript cs = t.transcript cs := by
  induction cs generalizing s t with
  | nil => rfl
  | cons c cs ih =>
    obtain ⟨he, hr, hv⟩ := run_congr h hs c
    rw [transcript, transcript, he, ih hr hv]

theorem events_afterAll (s : Session) (cs : List Command) :
    (s.afterAll cs).events = s.events ++ (s.transcript cs).flatten := by
  induction cs generalizing s with
  | nil => simp [afterAll, transcript]
  | cons c cs ih =>
    have hr : ((s.run c).2.afterAll cs).events =
        (s.run c).2.events ++ ((s.run c).2.transcript cs).flatten := ih (s.run c).2
    rw [events_run, List.append_assoc] at hr
    exact hr

theorem emits_step (hc : c ∈ calls) : s.emits c = s.scanner.step.events := by
  simp only [calls, List.mem_cons, List.not_mem_nil, or_false] at hc
  rcases hc with rfl | rfl | rfl <;> exact List.drop_left

/-- The calls that are no peeks take a step. -/
theorem run_of_ne_peek (hc : c ∈ calls) (hp : c ≠ .peek) : (s.run c).2.scanner = s.scanner.step.scanner := by
  simp only [calls, List.mem_cons, List.not_mem_nil, or_false] at hc
  rcases hc with rfl | rfl | rfl
  · rfl
  · rfl
  · exact absurd rfl hp

/-- A failed scanner tells nothing more. -/
theorem scanEvents_of_failure {e : Failure} (hc : ∀ c ∈ cs, c ∈ calls) (h : s.scanner.failure = some e) :
    s.scanEvents cs = [] := by
  induction cs generalizing s with
  | nil => rfl
  | cons c cs ih =>
    obtain ⟨hc, hcs⟩ := List.forall_mem_cons.1 hc
    rw [scanEvents, ih hcs (failure_run hc h), emits_step hc, Scanner.step_of_failure h]
    simp

/-- Scans tell of their tokens up to the failure, which is told in front of the last one. -/
theorem recounts_scanEvents (hc : ∀ c ∈ cs, c ∈ calls) (h : s.scanner.Reached pattern)
    (hf : s.scanner.failure = none) : Recounts (s.afterAll cs).scanner.failure (s.scanEvents cs) := by
  induction cs generalizing s with
  | nil => exact hf ▸ .unfailed (by simp [scanEvents])
  | cons c cs ih =>
    obtain ⟨hc, hcs⟩ := List.forall_mem_cons.1 hc
    by_cases hp : c = .peek
    · subst hp
      exact ih (s := (s.run .peek).2) hcs h hf
    · have hs : (s.run c).2.scanner = s.scanner.step.scanner := run_of_ne_peek hc hp
      have he : s.emits c = s.scanner.step.scanner.tells s.scanner.step.token := by
        rw [emits_step hc, h.events_step hf]
      rw [scanEvents, if_neg hp, he, Scanner.tells]
      cases hn : s.scanner.step.scanner.failure with
      | none => exact (ih hcs (hs ▸ .step h) (hs ▸ hn)).cons rfl
      | some e =>
        have hl : (s.run c).2.scanner.failure = some e := hs ▸ hn
        have ha : (s.afterAll (c :: cs)).scanner.failure = some e := failure_afterAll (s := (s.run c).2) hcs hl
        rw [scanEvents_of_failure hcs hl, ha]
        exact @Recounts.failed [] e _ _ _ (by simp)

/-- A session told of by its observer from any point on. -/
theorem narrates (h : s.scanner.Reached pattern) : s.Narrates where
  reset pattern := List.drop_left
  scan hf := ⟨s.scanner.step.token, rfl, by rw [emits_step (by simp [calls]), h.events_step hf]; rfl⟩
  failed hf := by
    obtain ⟨e, he⟩ := Option.ne_none_iff_exists'.1 hf
    rw [emits_step (by simp [calls]), Scanner.step_of_failure he]
  next := ⟨rfl, rfl⟩
  peek := ⟨rfl, rfl, transcript_congr rfl rfl⟩
  renewed pattern hn later hc := by
    refine recounts_scanEvents hc hn.reached ?_
    rcases hn with rfl | ⟨earlier, rfl⟩ <;> rfl

theorem reached_drives (hc : ∀ c ∈ cs, Drives c) (h : s.scanner.Reached pattern) :
    ∃ pattern, (s.afterAll cs).scanner.Reached pattern := by
  induction cs generalizing s pattern with
  | nil => exact ⟨pattern, h⟩
  | cons c cs ih =>
    obtain ⟨hc, hcs⟩ := List.forall_mem_cons.1 hc
    rcases hc with hc | ⟨pattern, rfl⟩
    · exact ih (s := (s.run c).2) hcs (reached_run hc h)
    · exact ih (s := (s.run (.reset pattern)).2) hcs .start

end

end Session

/-- What a session tells of scans, peeks and resets. -/
theorem session_events (pattern : List UInt8) {cs : List Command} (hc : ∀ c ∈ cs, Session.Drives c) :
    (Session.start pattern).events = [.reset pattern.length] ∧
    ((Session.start pattern).afterAll cs).events =
      (Session.start pattern).events ++ ((Session.start pattern).transcript cs).flatten ∧
    ((Session.start pattern).afterAll cs).Narrates := by
  obtain ⟨_, h⟩ := Session.reached_drives (s := .start pattern) hc .start
  exact ⟨rfl, Session.events_afterAll _ cs, Session.narrates h⟩

/-- A peek tells of a failure that the scanner itself does not have yet. -/
theorem session_events_peek : ((Session.start [0x2f, 0]).afterAll [.scan, .peek]).events =
      [.reset 2, .scanned .slash 0 1, .failed (.illegalNul 1), .scanned .endOfInput 2 1] ∧
    ((Session.start [0x2f, 0]).afterAll [.scan, .peek]).Narrates := by
  have hc : ∀ c ∈ [Command.scan, .peek], Session.Drives c := fun c hm =>
    .inl ((by decide : ∀ c ∈ [Command.scan, .peek], c ∈ Session.calls) c hm)
  obtain ⟨-, he, hn⟩ := session_events [0x2f, 0] hc
  exact ⟨he.trans (by decide +kernel), hn⟩

end RoutePattern
