import RoutePattern.Proofs.IllegalInput

/-!
# Failures that nothing behind them changes

A scan that fails inside its pattern has read no further than one character behind the place of the failure. What
comes later may be anything, legal or not: each pattern that starts with the same bytes fails in the same way, after
the same tokens.
-/
namespace RoutePattern
open SourceText
open Utf8 (encode size first?)

namespace SourceText

section
variable (s : SourceText) {bytes : List UInt8} {done after : List Char}

/-- A text with other bytes behind it, which start like those that end it. -/
def endedBy (bytes : List UInt8) (h : bytes.take 4 = s.rest.take 4) : SourceText where
  marked := s.marked
  text := s.text
  rest := bytes
  legal := s.legal
  barred c hc hp := by
    have hf : first? s.rest = first? bytes := by rw [first?, ← h, ← first?]
    exact s.barred c hc (Utf8.first?_eq_some_iff.1 (hf.trans (Utf8.first?_eq_some_iff.2 hp)))
  unmarked hm ht hp := by
    have hf : first? s.rest = first? bytes := by rw [first?, ← h, ← first?]
    exact s.unmarked hm ht (Utf8.first?_eq_some_iff.1 (hf.trans (Utf8.first?_eq_some_iff.2 hp)))

/-- What ends a text is known from its first bytes. -/
theorem obstacle_endedBy (h : bytes.take 4 = s.rest.take 4) : (s.endedBy bytes h).obstacle = s.obstacle := by
  have hn : bytes = [] ↔ s.rest = [] := by
    have ht : bytes.take 4 = [] ↔ s.rest.take 4 = [] := by rw [h]
    simpa using ht
  have hf : first? bytes = first? s.rest := by rw [first?, h, ← first?]
  simp only [obstacle, endedBy, hn, hf]
  rfl

/-- Bytes that agree up to some place agree in front of it. -/
theorem take_eq_of_le {p q : List UInt8} {m n : Nat} (h : q.take n = p.take n) (hm : m ≤ n) : q.take m = p.take m := by
  rw [← Nat.min_eq_left hm, ← List.take_take, h, List.take_take]

theorem bytes_endedBy {q : List UInt8} (h : (q.drop (s.place s.text)).take 4 = s.rest.take 4)
    (hq : q.take (s.place s.text) = s.bytes.take (s.place s.text)) : (s.endedBy _ h).bytes = q := by
  have ht : s.bytes.take (s.place s.text) = encode (s.lead ++ s.text) := List.take_left' rfl
  show encode (s.lead ++ s.text) ++ q.drop (s.place s.text) = q
  rw [← ht, ← hq, List.take_append_drop]

/-- Bytes that start with a part of a text go on with some other text. -/
theorem exists_extension (h : s.text = done ++ after) (hd : done ≠ []) (hb : encode (s.lead ++ done) <+: bytes) :
    ∃ (t : SourceText) (more : List Char), t.bytes = bytes ∧ t.marked = s.marked ∧ t.text = done ++ more := by
  obtain ⟨behind, rfl⟩ := hb
  obtain ⟨more, rest, rfl, hl, hr⟩ := exists_legal_text behind
  have hlegal : ∀ x ∈ done ++ more, CodePoint.IsLegal x := by
    intro x hx
    rcases List.mem_append.1 hx with hx | hx
    · exact s.legal x (h ▸ List.mem_append_left after hx)
    · exact hl x hx
  refine ⟨⟨s.marked, done ++ more, rest, hlegal, hr, fun _ hn => absurd (List.append_eq_nil_iff.1 hn).1 hd⟩, more,
    ?_, rfl, rfl⟩
  simp [SourceText.bytes, lead]

end
end SourceText

theorem Dead.isLexical {mode : Mode} {front ahead : List Char} {x : Char} {f : Nat → Failure}
    (h : Dead mode front x ahead f) (n : Nat) : (f n).isLexical = true := by cases h <;> rfl

section
variable {s : SourceText} {ks : List Chunk} {front ahead rest : List Char} {x : Char} {last : Mode} {f : Nat → Failure}
  {e : Failure}

/-- A scan that comes to a dead text fails there. -/
theorem scan_dead (hp : Phrase .reset ks (front ++ x :: (ahead ++ rest)) last) (hd : Dead last front x ahead f)
    (ht : s.text = ks.flatMap Chunk.text ++ (front ++ x :: (ahead ++ rest))) :
    scan s.bytes = .error (f (s.place (ks.flatMap Chunk.text ++ front))) ∧
      ((Scanner.start s.bytes).drain.map Step.token).dropLast = s.tokens [] ks := by
  obtain ⟨behind, hb, rfl, hscan⟩ := scan_phrase hp ht fun hsees => absurd hsees.rest_nil (by simp)
  exact hscan _ (hb.step_dead hd).2.failure

/-- A scan that comes to the end of a text fails with what stands there. -/
theorem scan_meetsEnd (hp : Phrase .reset ks rest last) (hm : MeetsEnd last rest)
    (ht : s.text = ks.flatMap Chunk.text ++ rest) (hr : Chunk.LastSeesEnd ks rest → s.obstacle = none)
    (he : s.obstacle = some e) :
    scan s.bytes = .error e ∧ ((Scanner.start s.bytes).drain.map Step.token).dropLast = s.tokens [] ks := by
  obtain ⟨behind, hb, rfl, hscan⟩ := scan_phrase hp ht hr
  exact hscan e (hb.step_meetsEnd hm he)

/-- Bytes that agree with a pattern up to some bytes behind the place of a failure start with the dead text. -/
theorem Dead.encode_prefix {mode : Mode} {before : List Char} {q : List UInt8} (hd : Dead mode front x ahead f)
    (ht : s.text = before ++ (front ++ x :: (ahead ++ rest)))
    (hq : q.take (s.place (before ++ front) + 5) = s.bytes.take (s.place (before ++ front) + 5)) :
    encode (s.lead ++ (before ++ (front ++ x :: ahead))) <+: q := by
  have hp : encode (s.lead ++ (before ++ (front ++ x :: ahead))) <+: s.bytes :=
    ⟨encode rest ++ s.rest, by simp [SourceText.bytes, ht]⟩
  have hsize : (encode (s.lead ++ (before ++ (front ++ x :: ahead)))).length ≤ s.place (before ++ front) + 5 := by
    have := hd.size_le
    simp only [Utf8.length_encode, place, Utf8.size_append]
    omega
  exact (List.prefix_take_iff.1 (hq ▸ List.prefix_take_iff.2 ⟨hp, hsize⟩)).1

end

/-- A scan that fails some bytes in front of the end fails in the same way whatever these bytes are. -/
theorem scan_error_of_take {p q : List UInt8} {e : Failure} (h : scan p = .error e) (hl : e.offset + 5 ≤ p.length)
    (hq : q.take (e.offset + 5) = p.take (e.offset + 5)) :
    scan q = .error e ∧ ((Scanner.start q).drain.map Step.token).dropLast =
      ((Scanner.start p).drain.map Step.token).dropLast ∧ (e.isIllegal = true ∨ e.isLexical = true) := by
  obtain ⟨s, rfl⟩ := SourceText.exists_bytes p
  obtain ⟨ks, rest, behind, hp, ht, hsees, hready, -, hends, -⟩ := (Scanner.ready_start s).exists_lastStep
  have hf : behind.step.scanner.failure = some e := hends ▸ failure_of_scan h
  rw [List.nil_append] at hready
  rcases hready.step_failed hf with ⟨front, x, ahead, f, more, rfl, hd, rfl⟩ | ⟨hm, ho | ⟨-, hend⟩⟩
  · rw [hd.offset] at hq
    have htext : s.text = ks.flatMap Chunk.text ++ (front ++ x :: ahead) ++ more := by simpa using ht
    obtain ⟨t, more', rfl, hmarked, htext'⟩ := s.exists_extension htext (by simp) (hd.encode_prefix ht hq)
    have ht' : t.text = ks.flatMap Chunk.text ++ (front ++ x :: (ahead ++ more')) := by simpa using htext'
    obtain ⟨hscan, htokens⟩ := scan_dead (hp.congr_head (by cases front <;> rfl)) hd ht'
    rw [hscan, htokens, (scan_dead hp hd ht).2, t.tokens_congr _ _ hmarked, t.place_congr _ hmarked]
    exact ⟨rfl, rfl, .inr (hd.isLexical _)⟩
  · rw [s.offset_obstacle ho] at hq
    have hahead : (q.drop (s.place s.text)).take 4 = s.rest.take 4 := by
      have hdrop : s.bytes.drop (s.place s.text) = s.rest := s.drop_place (List.append_nil s.text).symm
      rw [← hdrop, List.take_drop, List.take_drop, take_eq_of_le hq (by omega)]
    obtain ⟨hscan, htokens⟩ := scan_meetsEnd (s := s.endedBy _ hahead) hp hm ht
      (fun hlast => (s.obstacle_endedBy hahead).trans (hsees hlast)) ((s.obstacle_endedBy hahead).trans ho)
    have hbytes : (s.endedBy _ hahead).bytes = q := s.bytes_endedBy hahead (take_eq_of_le hq (by omega))
    rw [hbytes] at hscan htokens
    rw [hscan, htokens, (scan_meetsEnd hp hm ht hsees ho).2]
    exact ⟨rfl, tokens_congr _ _ _ rfl, .inl (isIllegal_obstacle ho)⟩
  · omega

/-- Behind a NUL the pattern may go on with anything. -/
theorem scan_error_of_take_nul :
    scan (encode "/\x7b\x00 tail".toList) = .error (.illegalNul 2) ∧
      scan (encode "/\x7b\x00 tail".toList ++ [0xff]) = .error (.illegalNul 2) := by
  have h : scan (encode "/\x7b\x00 tail".toList) = .error (.illegalNul 2) := scan_eq_error (by decide +kernel)
  exact ⟨h, (scan_error_of_take h (by decide) (by decide)).1⟩

end RoutePattern
