import Mathlib.Data.List.TakeWhile
import RoutePattern.Proofs.LoopTurns

/-!
# Draining a scanner

Every step of a drain reads on in the pattern, up to the one that ends it. So there are at most as many
steps as characters that can be read, and one more. The last step gives the end of input or fails, and no
step before it does.
-/
namespace RoutePattern
open SourceText
open Utf8 (encode size)

/-- The characters of the longest legal text in front of a pattern, without the marker. -/
def legalText (pattern : List UInt8) : List Char :=
  (Utf8.wellFormedPart (withoutMarker pattern)).takeWhile fun c => decide (CodePoint.IsLegal c)

namespace SourceText

variable (s : SourceText)

theorem legalText_bytes : legalText s.bytes = s.text := by
  rw [legalText, withoutMarker_bytes, Utf8.wellFormedPart_encode_append, s.takeWhile_unread fun x => of_decide_eq_true]
  exact List.takeWhile_eq_self_iff.2 fun x hx => decide_eq_true (s.legal x hx)

end SourceText

namespace Scanner

section
variable {s : SourceText} {before after : List Char} {pattern : List UInt8} {scanner : Scanner} {step : Step}

/-- A drain goes on as long as its steps leave more to read. -/
theorem drain_split (h : scanner.more = true) : ∃ front last, scanner.drain = front ++ [last] ∧
    (∀ step ∈ front, step.scanner.more = true) ∧ last.scanner.more = false := by
  fun_induction drain scanner with
  | case1 scanner _ ih =>
    cases hm : scanner.step.scanner.more with
    | true =>
      obtain ⟨front, last, hd, hf, hl⟩ := ih hm
      exact ⟨scanner.step :: front, last, by rw [hd, List.cons_append], List.forall_mem_cons.2 ⟨hm, hf⟩, hl⟩
    | false => exact ⟨[], scanner.step, by rw [drain_of_not_more hm]; rfl, by simp, hm⟩
  | case2 scanner hn => exact absurd h hn

/-- Exactly the last step of a drain leaves nothing more to read. -/
theorem more_drain (h : scanner.more = true) {i : Nat} (hi : scanner.drain[i]? = some step) :
    step.scanner.more = true ↔ i + 1 < scanner.drain.length := by
  obtain ⟨front, last, hd, hf, hl⟩ := drain_split h
  rw [hd] at hi ⊢
  rw [List.length_append, List.length_singleton]
  by_cases hlt : i < front.length
  · rw [List.getElem?_append_left hlt] at hi
    exact iff_of_true (hf step (List.mem_of_getElem? hi)) (Nat.succ_lt_succ hlt)
  · have hlt' : i < (front ++ [last]).length := (List.getElem?_eq_some_iff.1 hi).1
    rw [List.length_append, List.length_singleton] at hlt'
    obtain rfl : i = front.length := by omega
    rw [List.getElem?_concat_length] at hi
    obtain rfl := Option.some.inj hi
    exact iff_of_false (by rw [hl]; decide) (by omega)

theorem afterAll_concat (scanner : Scanner) (front : List Step) (last : Step) :
    scanner.afterAll (front ++ [last]) = last.scanner := by
  simp [afterAll]

theorem failure_of_more (h : scanner.more = true) : scanner.failure = none := by
  simp only [Scanner.more, Cursor.more, Bool.and_eq_true, Option.isNone_iff_eq_none] at h
  exact h.1

/-- Every step of a drain starts where there is more to read. -/
theorem Standing.of_mem_drain (h : Standing s scanner) (hm : step ∈ scanner.drain) :
    ∃ before after t, Ready s before after t ∧ t.step = step := by
  fun_induction drain scanner with
  | case1 scanner hmore ih =>
    rcases List.mem_cons.1 hm with rfl | hm
    · obtain ⟨before, after, hr⟩ := h.ready_of_more hmore
      exact ⟨before, after, scanner, hr, rfl⟩
    · exact ih h.step hm
  | case2 => cases hm

theorem Ready.step_valid (h : Ready s before after scanner) (hf : scanner.step.scanner.failure = none) :
    scanner.step.token.isValid = true := by
  rcases h.step_cases with ⟨k, rest, -, hk, hp⟩ | ⟨e, he, -⟩
  · rw [hp.token, s.isValid_token, hk.isValid]
  · cases hf.symm.trans he

/-- A step that leaves more to read has not read the end of input. -/
theorem Ready.step_inner (h : Ready s before after scanner) (hm : scanner.step.scanner.more = true) :
    scanner.step.token.lexeme ∉ [.invalid, .endOfInput] := by
  rcases h.step_cases with ⟨k, rest, -, hk, hp⟩ | ⟨e, he, -⟩
  · have hinvalid : k.lexeme ≠ .invalid := fun hl => by
      have := hk.isValid
      rw [hl] at this
      cases this
    have hend : k.lexeme ≠ .endOfInput := fun hl => by cases (hp.ended hl).more.symm.trans hm
    have ht : scanner.step.token.lexeme = k.lexeme := by rw [hp.token]; rfl
    simp [ht, hinvalid, hend]
  · cases (Cursor.more_of_failure he).symm.trans hm

theorem Ready.length_drain_le (h : Ready s before after scanner) : scanner.drain.length ≤ after.length + 1 := by
  fun_induction drain scanner generalizing before after with
  | case1 scanner _ ih =>
    rw [List.length_cons]
    rcases h.step_cases with ⟨k, rest, rfl, hk, hp⟩ | ⟨e, he, -⟩
    -- Only the end of input takes no character, and nothing comes behind it.
    · by_cases hl : k.lexeme = .endOfInput
      · rw [drain_of_not_more (hp.ended hl).more, List.length_nil]
        omega
      · have := ih (hp.ready hl)
        have := List.length_pos_iff.2 (hk.text_ne_nil hl)
        rw [List.length_append]
        omega
    · rw [drain_of_not_more (Cursor.more_of_failure he), List.length_nil]
      omega
  | case2 => exact Nat.zero_le _

theorem remaining_of_more (h : scanner.more = true) :
    scanner.cursor.remaining = 2 * (scanner.cursor.pattern.length - scanner.cursor.readOffset) + 1 := by
  have hf : scanner.cursor.failure = none := failure_of_more h
  simp only [Scanner.more, Cursor.more, Bool.and_eq_true, decide_eq_true_eq] at h
  simp [Cursor.remaining, hf, h.2]

/-- A step reads on, or there is nothing more to read. -/
theorem Standing.step_progress (h : Standing s scanner) (hm : scanner.more = true) :
    scanner.cursor.readOffset < scanner.step.scanner.cursor.readOffset ∨ scanner.step.scanner.more = false := by
  cases hn : scanner.step.scanner.more with
  | false => exact .inr rfl
  | true =>
    -- Both scanners have more to read of one pattern, so that what remains tells how far each has read.
    obtain ⟨_, hp⟩ := h.placed
    obtain ⟨_, hq⟩ := h.step.placed
    have hlt := remaining_step_lt hm
    rw [remaining_of_more hm, remaining_of_more hn, hp.pattern, hq.pattern] at hlt
    exact .inl (by omega)

/-- How the drain of a pattern goes and ends. -/
structure Drained (pattern : List UInt8) (steps : List Step) (failure : Option Failure) : Prop where
  progress : ∀ scanner, Reached pattern scanner → scanner.more = true →
    scanner.cursor.readOffset < scanner.step.scanner.cursor.readOffset ∨ scanner.step.scanner.more = false
  worked : ∀ scanner, Reached pattern scanner → Cursor.Worked pattern scanner.cursor
  loops : ∀ c, Cursor.Worked pattern c → c.LoopsEnd
  calls : steps.length ≤ (legalText pattern).length + 1
  complete : failure = none → ∃ front p, steps.map Step.token = front ++ [.endOfInput p] ∧
    (∀ t ∈ front, t.lexeme ∉ [.invalid, .endOfInput]) ∧ ∀ t ∈ steps.map Step.token, t.isValid = true
  failed : ∀ e, failure = some e → ∃ front last, steps = front ++ [last] ∧ last.scanner.failure = some e ∧
    ∀ step ∈ front, step.scanner.failure = none ∧ step.token.isValid = true ∧
      step.token.lexeme ∉ [.invalid, .endOfInput]

theorem drain_ends (pattern : List UInt8) :
    Drained pattern (start pattern).drain ((start pattern).afterAll (start pattern).drain).failure := by
  obtain ⟨s, rfl⟩ := SourceText.exists_bytes pattern
  have hready : Ready s [] s.text (start s.bytes) := ready_start s
  have hstanding : Standing s (start s.bytes) := .ready hready fun _ => rfl
  obtain ⟨front, last, hd, hfront, hlast⟩ := drain_split hready.more
  have hinner : ∀ step ∈ front, step.scanner.failure = none ∧ step.token.isValid = true ∧
      step.token.lexeme ∉ [.invalid, .endOfInput] := by
    intro step hm
    obtain ⟨before, after, t, ht, rfl⟩ := hstanding.of_mem_drain (hd ▸ List.mem_append_left _ hm)
    have hmore := hfront _ hm
    have hf := failure_of_more hmore
    exact ⟨hf, ht.step_valid hf, ht.step_inner hmore⟩
  obtain ⟨before, after, t, ht, rfl⟩ : ∃ before after t, Ready s before after t ∧ t.step = last :=
    hstanding.of_mem_drain (hd ▸ List.mem_append_right _ (List.mem_singleton_self _))
  refine ⟨fun scanner hr hm => hr.standing.step_progress hm, fun scanner hr => hr.worked, fun c hc => hc.loopsEnd,
    ?_, fun hf => ?_, fun e hf => ?_⟩
  · rw [s.legalText_bytes]
    exact hready.length_drain_le
  · rw [hd, afterAll_concat] at hf
    refine ⟨front.map Step.token, t.step.scanner.cursor.position, ?_, fun u hu => ?_, fun u hu => ?_⟩
    · rw [hd, List.map_append, List.map_singleton, ht.step_ending hlast hf]
    · obtain ⟨step, hm, rfl⟩ := List.mem_map.1 hu
      exact (hinner step hm).2.2
    · rw [hd] at hu
      obtain ⟨step, hm, rfl⟩ := List.mem_map.1 hu
      rcases List.mem_append.1 hm with hm | hm
      · exact (hinner step hm).2.1
      · rw [List.mem_singleton.1 hm]
        exact ht.step_valid hf
  · rw [hd, afterAll_concat] at hf
    exact ⟨front, t.step, hd, hf, hinner⟩

end
end Scanner
end RoutePattern
