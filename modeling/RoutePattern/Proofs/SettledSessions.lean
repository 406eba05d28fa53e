import RoutePattern.ScannerSessions
import RoutePattern.Proofs.ReachedScanners

/-!
# Sessions that have come to rest

Calls keep the first failure until a scanner is made anew, and where nothing more can be read they answer
alike and leave the scanner as it is. A scan that ends without a failure rests on the end of input that its
last call gave.
-/
namespace RoutePattern
open SourceText

namespace Session

/-- The commands that read on or look ahead. -/
def calls : List Command := [.scan, .next, .peek]

/-- The session after a list of commands. -/
def afterAll (s : Session) (cs : List Command) : Session := cs.foldl (fun s c => (s.run c).2) s

/-- A session with a scanner that has just been made. -/
def Fresh (pattern : List UInt8) (s : Session) : Prop :=
  s = .start pattern ∨ ∃ earlier : Session, s = (earlier.run (.reset pattern)).2

/-- The answer of a scanner that reads no further. -/
def restingReply (scanner : Scanner) : Command → Reply
  | .next => .ofResult (scanner.failure.elim (.ok (.endOfInput scanner.cursor.position)) .error)
  | _ => .token (.endOfInput scanner.cursor.position)

/-- What calls leave as it is. -/
structure Rests (s : Session) (later : List Command) : Prop where
  failure : ∀ e, s.scanner.failure = some e → (s.afterAll later).scanner.failure = some e
  renewed : ∀ pattern, ((s.afterAll later).run (.reset pattern)).2.scanner.failure = none
  settled : s.scanner.more = false → (s.runAll later).map (fun a => (a.1, a.2.scanner)) =
    later.map fun c => (restingReply s.scanner c, s.scanner)
  ending : ∀ c ∈ [.scan, .next], s.scanner.more = true → (s.run c).2.scanner.more = false →
    (s.run c).2.scanner.failure = none →
    (s.run c).1 = .token (.endOfInput (s.run c).2.scanner.cursor.position)

section
variable {pattern : List UInt8} {s : Session} {c : Command} {cs : List Command}

theorem Fresh.reached (h : Fresh pattern s) : Scanner.Reached pattern s.scanner := by
  rcases h with rfl | ⟨earlier, rfl⟩
  · exact .start
  · exact .start

/-- A call takes a step or leaves the scanner alone. -/
theorem scanner_run (hc : c ∈ calls) :
    (s.run c).2.scanner = s.scanner.step.scanner ∨ (s.run c).2.scanner = s.scanner := by
  simp only [calls, List.mem_cons, List.not_mem_nil, or_false] at hc
  rcases hc with rfl | rfl | rfl
  · exact .inl rfl
  · exact .inl rfl
  · exact .inr rfl

theorem reached_run (hc : c ∈ calls) (h : Scanner.Reached pattern s.scanner) :
    Scanner.Reached pattern (s.run c).2.scanner := by
  rcases scanner_run hc with he | he
  · exact he ▸ .step h
  · exact he ▸ h

theorem reached_afterAll (hc : ∀ c ∈ cs, c ∈ calls) (h : Scanner.Reached pattern s.scanner) :
    Scanner.Reached pattern (s.afterAll cs).scanner := by
  induction cs generalizing s with
  | nil => exact h
  | cons c cs ih =>
    obtain ⟨hc, hcs⟩ := List.forall_mem_cons.1 hc
    exact ih hcs (reached_run hc h)

theorem failure_run {e : Failure} (hc : c ∈ calls) (h : s.scanner.failure = some e) :
    (s.run c).2.scanner.failure = some e := by
  rcases scanner_run hc with he | he
  · rw [he, Scanner.step_of_failure h]
    exact h
  · rw [he]
    exact h

theorem failure_afterAll {e : Failure} (hc : ∀ c ∈ cs, c ∈ calls) (h : s.scanner.failure = some e) :
    (s.afterAll cs).scanner.failure = some e := by
  induction cs generalizing s with
  | nil => exact h
  | cons c cs ih =>
    obtain ⟨hc, hcs⟩ := List.forall_mem_cons.1 hc
    exact ih hcs (failure_run hc h)

/-- A scanner that a step leaves as it is rests in every call. -/
theorem run_resting (hc : c ∈ calls) (ht : s.scanner.step.token = .endOfInput s.scanner.cursor.position)
    (hs : s.scanner.step.scanner = s.scanner) :
    (s.run c).1 = restingReply s.scanner c ∧ (s.run c).2.scanner = s.scanner := by
  simp only [calls, List.mem_cons, List.not_mem_nil, or_false] at hc
  rcases hc with rfl | rfl | rfl
  · exact ⟨congrArg Reply.token ht, hs⟩
  · refine ⟨?_, hs⟩
    show Reply.ofResult s.scanner.step.result = _
    rw [Step.result, ht, hs]
    rfl
  · exact ⟨congrArg Reply.token ht, rfl⟩

theorem runAll_resting (hc : ∀ c ∈ cs, c ∈ calls)
    (ht : s.scanner.step.token = .endOfInput s.scanner.cursor.position)
    (hs : s.scanner.step.scanner = s.scanner) :
    (s.runAll cs).map (fun a => (a.1, a.2.scanner)) = cs.map fun c => (restingReply s.scanner c, s.scanner) := by
  induction cs generalizing s with
  | nil => rfl
  | cons c cs ih =>
    obtain ⟨hc, hcs⟩ := List.forall_mem_cons.1 hc
    obtain ⟨hreply, hscanner⟩ := run_resting hc ht hs
    have hrest := @ih (s.run c).2 hcs (by rw [hscanner, ht]) (by rw [hscanner, hs])
    rw [hscanner] at hrest
    simp only [runAll, List.map_cons, hreply, hscanner, hrest]

end
end Session

theorem Session.run_ending {s : SourceText} {session : Session} {c : Command} (hc : c ∈ [.scan, .next])
    (h : Scanner.Standing s session.scanner) (hm : session.scanner.more = true)
    (hn : (session.run c).2.scanner.more = false) (hf : (session.run c).2.scanner.failure = none) :
    (session.run c).1 = .token (.endOfInput (session.run c).2.scanner.cursor.position) := by
  have hs : (session.run c).2.scanner = session.scanner.step.scanner := by
    simp only [List.mem_cons, List.not_mem_nil, or_false] at hc
    rcases hc with rfl | rfl <;> rfl
  rw [hs] at hn hf ⊢
  obtain ⟨before, after, hr⟩ := h.ready_of_more hm
  have ht := hr.step_ending hn hf
  simp only [List.mem_cons, List.not_mem_nil, or_false] at hc
  rcases hc with rfl | rfl
  · exact congrArg Reply.token ht
  · have hr : session.scanner.step.result = .ok session.scanner.step.token := by rw [Step.result, hf]; rfl
    show Reply.ofResult session.scanner.step.result = _
    rw [hr, ht]
    rfl

theorem session_rests {pattern : List UInt8} {first : Session} {earlier later : List Command}
    (hf : first.Fresh pattern) (he : ∀ c ∈ earlier, c ∈ Session.calls) (hl : ∀ c ∈ later, c ∈ Session.calls) :
    (first.afterAll earlier).Rests later := by
  obtain ⟨s, rfl⟩ := SourceText.exists_bytes pattern
  have hr := Session.reached_afterAll he hf.reached
  refine ⟨fun e hfail => Session.failure_afterAll hl hfail, fun _ => rfl, fun hm => ?_, fun c hc => ?_⟩
  · obtain ⟨ht, hs⟩ := hr.standing.step_settled hr.reports hm
    exact Session.runAll_resting hl ht hs
  · exact Session.run_ending hc hr.standing

/-- The session behind a segment and a blank, with calls of every kind on the way. -/
def Session.behindBlank : Session := (start (Utf8.encode "/a ".toList)).afterAll [.scan, .peek, .next, .scan]

theorem session_rests_blank : (Session.behindBlank.runAll [.scan, .next, .peek]).map (fun a => (a.1, a.2.scanner)) =
    [.scan, .next, .peek].map fun _ : Command => (.token (.endOfInput ⟨1, 3, 3⟩), Session.behindBlank.scanner) := by
  have hcalls (cs : List Command) (h : cs.all (fun c => decide (c ∈ Session.calls)) = true) :
      ∀ c ∈ cs, c ∈ Session.calls := fun c hc => of_decide_eq_true (List.all_eq_true.1 h c hc)
  have hr : Session.behindBlank.Rests [.scan, .next, .peek] :=
    session_rests (.inl rfl) (hcalls _ (by decide)) (hcalls _ (by decide))
  rw [hr.settled (by decide +kernel)]
  decide +kernel

end RoutePattern
