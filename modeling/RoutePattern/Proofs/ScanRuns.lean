import RoutePattern.Proofs.SingleSteps

/-!
# Runs of a scanner

A run reads the chunks of a sentence one by one, up to the end of a text that is legal throughout.
-/
namespace RoutePattern
open SourceText

namespace Scanner

section
variable {s : SourceText} {before after rest : List Char} {k : Chunk} {scanner : Scanner} {e : Failure}

theorem afterAll_cons (step : Step) (steps : List Step) :
    scanner.afterAll (step :: steps) = step.scanner.afterAll steps := by
  simp only [afterAll, List.getLast?_cons, Option.map_some, Option.getD_some]
  cases steps.getLast? <;> rfl

theorem drain_of_more (h : scanner.more = true) : scanner.drain = scanner.step :: scanner.step.scanner.drain := by
  rw [drain]
  simp [h]

theorem drain_of_not_more (h : scanner.more = false) : scanner.drain = [] := by
  rw [drain]
  simp [h]

theorem Ready.more (h : Ready s before after scanner) : scanner.more = true := h.behind.more

/-- A run has read a phrase, and its last step is taken from the scanner behind it. -/
structure LastStep (s : SourceText) (before after : List Char) (scanner : Scanner) (ks : List Chunk) (rest : List Char)
    (behind : Scanner) : Prop where
  phrase : Phrase scanner.mode ks rest behind.mode
  text : after = ks.flatMap Chunk.text ++ rest
  seen : Chunk.LastSeesEnd ks rest → s.obstacle = none
  ready : Ready s (before ++ ks.flatMap Chunk.text) rest behind
  tokens : scanner.drain.map Step.token = s.tokens before ks ++ [behind.step.token]
  ends : scanner.afterAll scanner.drain = behind.step.scanner
  settled : behind.step.scanner.more = false

/-- Every run reads a phrase and comes to its last step. -/
theorem Ready.exists_lastStep (h : Ready s before after scanner) :
    ∃ ks rest behind, LastStep s before after scanner ks rest behind := by
  fun_induction drain scanner generalizing before after with
  | case1 scanner hm ih =>
    cases hn : scanner.step.scanner.more with
    | false =>
      have hd : scanner.drain = [scanner.step] := by rw [drain_of_more hm, drain_of_not_more hn]
      exact ⟨[], after, scanner, .nil, rfl, fun hs => absurd hs (Chunk.not_lastSeesEnd_nil after), by simpa using h,
        by rw [hd]; rfl, by rw [hd]; rfl, hn⟩
    | true =>
      rcases h.step_cases with ⟨k, text, rfl, hk, -⟩ | ⟨e, hf, -⟩
      · rcases h.step_reads hk with ⟨hp, hend⟩ | hb
        · have hl : k.lexeme ≠ .endOfInput := fun hl => by cases (hp.ended hl).more.symm.trans hn
          obtain ⟨ks, rest, behind, hlast⟩ := ih (hp.ready hl)
          obtain rfl := hlast.text
          refine ⟨k :: ks, rest, behind, .cons hk hl (hp.mode ▸ hlast.phrase), by simp, fun hs => ?_,
            by simpa using hlast.ready, ?_, ?_, hlast.settled⟩
          · rcases Chunk.lastSeesEnd_cons.1 hs with ⟨rfl, hmeets⟩ | hs
            · exact hend hmeets
            · exact hlast.seen hs
          · rw [drain_of_more hm, List.map_cons, hp.token, hlast.tokens]
            rfl
          · rw [drain_of_more hm, afterAll_cons, hlast.ends]
        · obtain ⟨e, -, hc⟩ := hb.halted
          cases (Cursor.more_of_failure hc.failure).symm.trans hn
      · cases (Cursor.more_of_failure hf).symm.trans hn
  | case2 scanner hm => exact absurd h.more hm

/-- A run reads the chunks of a sentence, or fails. -/
theorem Ready.drain_cases (h : Ready s before after scanner) :
    (∃ ks, Sentence scanner.mode ks ∧ after = ks.flatMap Chunk.text ∧ s.obstacle = none ∧
      scanner.drain.map Step.token = s.tokens before ks ∧ (scanner.afterAll scanner.drain).failure = none) ∨
      s.Fails (scanner.afterAll scanner.drain).cursor := by
  obtain ⟨ks, rest, behind, hlast⟩ := h.exists_lastStep
  rw [hlast.ends]
  rcases hlast.ready.step_cases with ⟨k, text, rfl, hk, hp⟩ | hf
  · have hl : k.lexeme = .endOfInput := Decidable.byContradiction fun hl => by
      cases (hp.ready hl).more.symm.trans hlast.settled
    obtain ⟨blanks, rfl, rfl⟩ := hk.finish_of_endOfInput hl
    have hphrase : Phrase scanner.mode ks blanks behind.mode := by
      simpa [Chunk.finish, Chunk.text] using hlast.phrase
    refine .inl ⟨ks ++ [.finish blanks], hphrase.sentence hk, by simp [hlast.text], (hp.ended hl).obstacle, ?_,
      (hp.ended hl).failure⟩
    rw [hlast.tokens, hp.token, s.tokens_append]
    rfl
  · exact .inr hf

/-- A run over a phrase reads its chunks, and goes on behind them. -/
theorem Ready.drain_phrase {ks : List Chunk} {mode last : Mode} (hp : Phrase mode ks rest last)
    (h : Ready s before (ks.flatMap Chunk.text ++ rest) scanner) (hm : scanner.mode = mode)
    (hr : Chunk.LastSeesEnd ks rest → s.obstacle = none) :
    ∃ behind : Scanner, Ready s (before ++ ks.flatMap Chunk.text) rest behind ∧ behind.mode = last ∧
      scanner.drain.map Step.token = s.tokens before ks ++ behind.drain.map Step.token ∧
      scanner.afterAll scanner.drain = behind.afterAll behind.drain := by
  induction hp generalizing before scanner with
  | nil => exact ⟨scanner, by simpa using h, hm, rfl, rfl⟩
  | @cons mode k ks rest last hk hl hs ih =>
    have h : Ready s before (k.text ++ (ks.flatMap Chunk.text ++ rest)) scanner := by simpa using h
    rcases h.step_reads (hm ▸ hk) with ⟨hp, -⟩ | hb
    · have hseen : Chunk.LastSeesEnd ks rest → s.obstacle = none := fun hlast =>
        hr (Chunk.lastSeesEnd_cons.2 (.inr hlast))
      obtain ⟨behind, hb, hmode, hdrain, hafter⟩ := ih (hp.ready hl) hp.mode hseen
      refine ⟨behind, by simpa using hb, hmode, ?_, ?_⟩
      · rw [drain_of_more h.more, List.map_cons, hp.token, hdrain]
        rfl
      · rw [drain_of_more h.more, afterAll_cons, hafter]
    · obtain ⟨e, he, -⟩ := hb.halted
      cases (hr (hs.lastSeesEnd hb.seesEnd)).symm.trans he

/-- A run over a sentence reads its chunks. -/
theorem Ready.drain_sentence {ks : List Chunk} {mode : Mode} (hs : Sentence mode ks)
    (h : Ready s before (ks.flatMap Chunk.text) scanner) (hm : scanner.mode = mode) (ho : s.obstacle = none) :
    scanner.drain.map Step.token = s.tokens before ks ∧ (scanner.afterAll scanner.drain).failure = none := by
  obtain ⟨front, blanks, last, rfl, hp, hf⟩ := hs.exists_phrase_finish
  have h : Ready s before (front.flatMap Chunk.text ++ blanks) scanner := by
    simpa [Chunk.finish, Chunk.text] using h
  obtain ⟨behind, hb, hmode, hdrain, hafter⟩ := h.drain_phrase hp hm fun _ => ho
  have hb : Ready s (before ++ front.flatMap Chunk.text) ((Chunk.finish blanks).text ++ []) behind := by
    simpa [Chunk.finish, Chunk.text] using hb
  rcases hb.step_reads (hmode ▸ hf) with ⟨hlast, -⟩ | hbarred
  · have hend : Cursor.Ended s behind.step.scanner.cursor := hlast.ended rfl
    rw [hdrain, hafter, drain_of_more hb.more, drain_of_not_more hend.more, afterAll_cons, List.map_cons, hlast.token,
      s.tokens_append]
    exact ⟨rfl, hend.failure⟩
  · obtain ⟨e, he, -⟩ := hbarred.halted
    cases ho.symm.trans he

end
end Scanner

section
variable {s : SourceText} {ks : List Chunk}

theorem scan_eq (pattern : List UInt8) : scan pattern =
    ((Scanner.start pattern).afterAll (Scanner.start pattern).drain).failure.elim
      (.ok ((Scanner.start pattern).drain.map Step.token)) .error := rfl

/-- A scan follows another one if its tokens and its failure come from those of the other one. -/
theorem scan_of_drain {p q : List UInt8} {f : List Token → List Token} {g : Failure → Failure}
    (ht : (Scanner.start p).drain.map Step.token = f ((Scanner.start q).drain.map Step.token))
    (hf : ((Scanner.start p).afterAll (Scanner.start p).drain).failure =
      ((Scanner.start q).afterAll (Scanner.start q).drain).failure.map g) :
    scan p = match scan q with
      | .ok ts => .ok (f ts)
      | .error e => .error (g e) := by
  rw [scan_eq, scan_eq, ht, hf]
  cases ((Scanner.start q).afterAll (Scanner.start q).drain).failure <;> rfl

theorem scan_cases (s : SourceText) :
    (∃ ks, Sentence .reset ks ∧ s.text = ks.flatMap Chunk.text ∧ s.obstacle = none ∧
      scan s.bytes = .ok (s.tokens [] ks)) ∨ ∃ e, scan s.bytes = .error e ∧ s.Flaw e := by
  rw [scan_eq]
  rcases (Scanner.ready_start s).drain_cases with ⟨ks, hs, ht, ho, he, hf⟩ | ⟨e, hf, hflaw⟩
  · refine .inl ⟨ks, hs, ht, ho, ?_⟩
    rw [hf, he]
    rfl
  · refine .inr ⟨e, ?_, hflaw⟩
    rw [Scanner.failure, hf]
    rfl

/-- A text whose bytes are read as tokens, chunk by chunk. -/
structure SourceText.Tokenized (s : SourceText) (ks : List Chunk) (pattern : List UInt8) (ts : List Token) :
    Prop where
  bytes : s.bytes = pattern
  rest : s.rest = []
  text : s.text = ks.flatMap Chunk.text
  sentence : Sentence .reset ks
  tokens : ts = s.tokens [] ks

theorem scan_ok {pattern : List UInt8} {ts : List Token} (h : scan pattern = .ok ts) :
    ∃ (s : SourceText) (ks : List Chunk), s.Tokenized ks pattern ts := by
  obtain ⟨s, rfl⟩ := SourceText.exists_bytes pattern
  rcases scan_cases s with ⟨ks, hs, ht, ho, he⟩ | ⟨e, he, -⟩
  · exact ⟨s, ks, rfl, s.obstacle_eq_none.1 ho, ht, hs, Except.ok.inj (h.symm.trans he)⟩
  · cases h.symm.trans he

namespace SourceText.Tokenized

section
variable {pattern : List UInt8} {ts : List Token} {i : Nat} {t : Token} {k : Chunk}

/-- The chunk of a token fits its place. -/
theorem exists_chunk (h : s.Tokenized ks pattern ts) (hi : ts[i]? = some t) :
    ∃ k, ks[i]? = some k ∧ t = s.token (Chunk.textUpTo ks i) k ∧
      Fits (Mode.reset.before (ts.map Token.lexeme) i) k ((ks.drop (i + 1)).flatMap Chunk.text) := by
  rw [h.tokens, tokens_at, Option.map_eq_some_iff] at hi
  obtain ⟨k, hk, rfl⟩ := hi
  refine ⟨k, hk, rfl, ?_⟩
  rw [h.tokens, lexeme_tokens]
  exact h.sentence.fits_at hk

theorem text_at (h : s.Tokenized ks pattern ts) (hk : ks[i]? = some k) :
    s.text = Chunk.textUpTo ks (i + 1) ++ (ks.drop (i + 1)).flatMap Chunk.text := by
  rw [h.text, flatMap_at hk, textUpTo_succ hk, List.append_assoc]

theorem stop_offset (h : s.Tokenized ks pattern ts) (hi : ts[i]? = some t) :
    t.stop.offset = s.reached (Chunk.textUpTo ks (i + 1)) := by
  obtain ⟨k, hk, rfl, -⟩ := h.exists_chunk hi
  rw [textUpTo_succ hk]
  rfl

theorem bytes_eq (h : s.Tokenized ks pattern ts) : pattern = Utf8.encode (s.lead ++ ks.flatMap Chunk.text) := by
  rw [← h.bytes, SourceText.bytes, h.rest, h.text, List.append_nil]

end
end SourceText.Tokenized

/-- Results with failures are not compared, so a concrete scan is decided by its tokens. -/
theorem scan_eq_ok {pattern : List UInt8} {ts : List Token} (h : (scan pattern).toOption = some ts) :
    scan pattern = .ok ts := by
  cases hs : scan pattern with
  | error e => rw [hs] at h; cases h
  | ok us => rw [hs] at h; cases h; rfl

theorem scan_eq_error {pattern : List UInt8} {e : Failure}
    (h : ((Scanner.start pattern).afterAll (Scanner.start pattern).drain).failure = some e) :
    scan pattern = .error e := by
  rw [scan_eq, h]
  rfl

theorem failure_of_scan {pattern : List UInt8} {e : Failure} (h : scan pattern = .error e) :
    ((Scanner.start pattern).afterAll (Scanner.start pattern).drain).failure = some e := by
  rw [scan_eq] at h
  cases hf : ((Scanner.start pattern).afterAll (Scanner.start pattern).drain).failure with
  | none => rw [hf] at h; cases h
  | some f => rw [hf] at h; cases h; rfl

/-- A scan comes to the end of each phrase that its text starts with, and fails if the step from there does. -/
theorem scan_phrase {rest : List Char} {last : Mode} (hp : Phrase .reset ks rest last)
    (ht : s.text = ks.flatMap Chunk.text ++ rest) (hr : Chunk.LastSeesEnd ks rest → s.obstacle = none) :
    ∃ behind : Scanner, Scanner.Ready s (ks.flatMap Chunk.text) rest behind ∧ behind.mode = last ∧
      ∀ e, behind.step.scanner.failure = some e → scan s.bytes = .error e ∧
        ((Scanner.start s.bytes).drain.map Step.token).dropLast = s.tokens [] ks := by
  obtain ⟨behind, hb, hmode, hdrain, hafter⟩ := (ht ▸ Scanner.ready_start s).drain_phrase hp rfl hr
  refine ⟨behind, hb, hmode, fun e he => ?_⟩
  have hlast : behind.drain = [behind.step] := by
    rw [Scanner.drain_of_more hb.more, Scanner.drain_of_not_more (Cursor.more_of_failure he)]
  rw [hlast] at hafter hdrain
  refine ⟨scan_eq_error (hafter ▸ he), ?_⟩
  rw [hdrain]
  exact List.dropLast_concat

theorem scan_sentence (hs : Sentence .reset ks) (ht : s.text = ks.flatMap Chunk.text)
    (ho : s.obstacle = none) : scan s.bytes = .ok (s.tokens [] ks) := by
  obtain ⟨he, hf⟩ := Scanner.Ready.drain_sentence hs (ht ▸ Scanner.ready_start s) rfl ho
  rw [scan_eq, hf, he]
  rfl

end
end RoutePattern
