import RoutePattern.Proofs.DrainedScanners
import RoutePattern.Proofs.WrittenTables

/-!
# The drivers agree

A scan, calls one by one and a trace go through the same steps. They differ in what becomes of the token
of a step that fails: a scan and a call give the failure in its place, a trace keeps both.
-/
namespace RoutePattern

namespace Scanner

/-- What so many calls answer, one after the other. -/
def answers (s : Scanner) : Nat → List (Except Failure Token)
  | 0 => []
  | n + 1 => s.next.1 :: s.next.2.answers n

section
variable {pattern : List UInt8} {s : Scanner} {step : Step} {e : Failure}

theorem result_of_unfailed (h : step.scanner.failure = none) : step.result = .ok step.token := by
  rw [Step.result, h]
  rfl

theorem result_of_failure (h : step.scanner.failure = some e) : step.result = .error e := by
  rw [Step.result, h]
  rfl

/-- Calls go through the steps of a drain, and then on from its end. -/
theorem answers_drain (s : Scanner) (n : Nat) : s.answers (s.drain.length + n) =
    s.drain.map Step.result ++ (s.afterAll s.drain).answers n := by
  fun_induction drain s with
  | case1 s _ ih =>
    rw [List.length_cons, Nat.add_right_comm, afterAll_cons, answers, List.map_cons, List.cons_append]
    exact congrArg _ ih
  | case2 s _ => simp [afterAll]

/-- A drain ends where there is nothing more to read. -/
theorem Reached.drained (h : Reached pattern s) :
    Reached pattern (s.afterAll s.drain) ∧ (s.afterAll s.drain).more = false := by
  fun_induction drain s with
  | case1 s _ ih =>
    rw [afterAll_cons]
    exact ih h.step
  | case2 s hm => exact ⟨h, eq_false_of_ne_true hm⟩

/-- Where there is nothing more to read, all calls answer alike. -/
theorem Reached.answers_settled (h : Reached pattern s) (hm : s.more = false) (n : Nat) :
    s.answers n = List.replicate n (s.failure.elim (.ok (.endOfInput s.cursor.position)) .error) := by
  obtain ⟨text, rfl⟩ := SourceText.exists_bytes pattern
  obtain ⟨ht, hs⟩ := h.standing.step_settled h.reports hm
  induction n with
  | zero => rfl
  | succ n ih =>
    have hresult : s.next.1 = s.failure.elim (.ok (.endOfInput s.cursor.position)) .error := by
      show s.step.result = _
      rw [Step.result, ht, hs]
    have hscanner : s.next.2 = s := hs
    rw [answers, hscanner, hresult, ih, List.replicate_succ]

/-- What the calls of a drain answer: tokens, up to a failure of the last one. -/
theorem results_drain (h : s.more = true) :
    ((s.afterAll s.drain).failure = none → s.drain.map Step.result = (s.drain.map Step.token).map .ok) ∧
      ∀ e, (s.afterAll s.drain).failure = some e →
        s.drain.map Step.result = (s.drain.map Step.token).dropLast.map .ok ++ [.error e] := by
  obtain ⟨front, last, hd, hfront, -⟩ := drain_split h
  have hresults : front.map Step.result = (front.map Step.token).map .ok := by
    rw [List.map_map]
    exact List.map_congr_left fun step hm => result_of_unfailed (failure_of_more (hfront step hm))
  rw [hd, afterAll_concat]
  simp only [List.map_append, List.map_singleton, List.dropLast_concat, hresults]
  exact ⟨fun hf => by rw [result_of_unfailed hf], fun e hf => by rw [result_of_failure hf]⟩

end
end Scanner

open Scanner (answers)
open TraceTable (Paddable attempt trace_unlimited attempt_of_paddable attempt_unlimited_of_wide)

/-- Every driver accepts the pattern with these tokens. -/
structure Accepted (pattern : String) (tokens : List Token) : Prop where
  scan : scan pattern.toByteArray.toList = .ok tokens
  next : ∃ p, ∀ n, (Scanner.start pattern.toByteArray.toList).answers (tokens.length + n) =
    tokens.map .ok ++ List.replicate n (.ok (.endOfInput p))
  trace : ∀ w taken, Paddable w pattern → ∃ out, attempt w pattern ⟨none, taken⟩ = some out ∧ out.tokens = tokens ∧
    out.fault = none

/-- Every driver refuses the pattern with this failure. The last token is that of the step that fails. -/
structure Refused (pattern : String) (tokens : List Token) (e : Failure) : Prop where
  scan : scan pattern.toByteArray.toList = .error e
  next : ∀ n, (Scanner.start pattern.toByteArray.toList).answers (tokens.length + n) =
    tokens.dropLast.map .ok ++ List.replicate (n + 1) (.error e)
  trace : ∀ w taken, Paddable w pattern → ∃ out, attempt w pattern ⟨none, taken⟩ = some out ∧ out.tokens = tokens ∧
    out.fault = some (.scan e)

/-- The drivers do what a drain with these tokens and this end says. A trace with a column that is too wide does
neither. -/
structure DriversAgree (pattern : String) (tokens : List Token) (failure : Option Failure) : Prop where
  accepted : failure = none → Accepted pattern tokens
  refused : ∀ e, failure = some e → Refused pattern tokens e
  wide : ∀ w taken, ¬ Paddable w pattern → attempt w pattern ⟨none, taken⟩ = none

theorem drivers_agree (pattern : String) :
    let start := Scanner.start pattern.toByteArray.toList
    DriversAgree pattern (start.drain.map Step.token) (start.afterAll start.drain).failure := by
  intro start
  have hreached : Scanner.Reached pattern.toByteArray.toList start := .start
  obtain ⟨hlast, hm⟩ := hreached.drained
  obtain ⟨hok, herror⟩ := @Scanner.results_drain start rfl
  have hscan := scan_eq pattern.toByteArray.toList
  have hnext (n : Nat) := Scanner.answers_drain start n
  simp only [hlast.answers_settled hm] at hnext
  have htrace (w) (taken) (hw : Paddable w pattern) : ∃ out, attempt w pattern ⟨none, taken⟩ = some out ∧
      out.tokens = start.drain.map Step.token ∧ out.fault = (start.afterAll start.drain).failure.map .scan :=
    ⟨_, attempt_of_paddable hw _, by rw [trace_unlimited], by rw [trace_unlimited]⟩
  refine ⟨fun hf => ⟨?_, ⟨(start.afterAll start.drain).cursor.position, fun n => ?_⟩, ?_⟩,
    fun e hf => ⟨?_, fun n => ?_, ?_⟩, fun w taken hw => attempt_unlimited_of_wide hw taken⟩
  · rw [hscan, hf]
    rfl
  · rw [List.length_map, hnext, hok hf, hf]
    rfl
  · rw [hf] at htrace
    exact htrace
  · rw [hscan, hf]
    rfl
  · rw [List.length_map, hnext, herror e hf, hf, List.append_assoc]
    rfl
  · rw [hf] at htrace
    exact htrace

/-- The empty pattern is accepted, and not traced if the column of tokens is one too wide. -/
theorem untraced_wide_tokens : scan "".toByteArray.toList = .ok [.endOfInput .start] ∧
    attempt ⟨12, 65536⟩ "" (.empty none) = none := by
  have hw : ¬ Paddable ⟨12, 65536⟩ "" := by decide
  exact ⟨by decide +kernel, attempt_unlimited_of_wide hw []⟩

end RoutePattern
