import RoutePattern.TraceTables
import RoutePattern.Proofs.ScanRuns

/-!
# Tables as they are written

A sink with a limit holds the front of all that it was offered. So the table in it breaks off at the limit,
and the trace ends with the token of the block in which that happens. There is a table if its columns can be padded.
-/
namespace RoutePattern

namespace Sink

/-- The bytes of texts, one text behind the other. -/
def bytes (texts : List String) : List UInt8 := texts.flatMap fun text => text.toByteArray.toList

/-- A sink with a limit, after it has been offered some bytes. -/
def offered (limit : Nat) (all : List UInt8) : Sink := ⟨some limit, all.take limit⟩

section
variable {limit : Nat} {all taken : List UInt8}

theorem writeAll_unlimited (taken : List UInt8) (texts : List String) :
    writeAll ⟨none, taken⟩ texts = (true, ⟨none, taken ++ bytes texts⟩) := by
  induction texts generalizing taken with
  | nil => simp [writeAll, bytes]
  | cons text texts ih => simp [writeAll, write, ih, bytes]

theorem empty_eq_offered (limit : Nat) : empty (some limit) = offered limit [] := by
  rw [empty, offered, List.take_nil]

/-- What comes behind the limit makes no difference. -/
theorem offered_append_of_lt (h : limit < all.length) (more : List UInt8) :
    offered limit (all ++ more) = offered limit all := by
  rw [offered, List.take_append_of_le_length (Nat.le_of_lt h), offered]

theorem length_loop (text : ByteArray) (i : Nat) (r : List UInt8) :
    (ByteArray.toList.loop text i r).length = text.size - i + r.length := by
  fun_induction ByteArray.toList.loop text i r with
  | case1 i r h ih =>
    rw [ih, List.length_cons]
    omega
  | case2 i r h =>
    rw [List.length_reverse]
    omega

theorem length_toList (text : String) : text.toByteArray.toList.length = text.utf8ByteSize := by
  rw [ByteArray.toList, length_loop, String.size_toByteArray]
  rfl

theorem write_offered (h : all.length ≤ limit) (text : String) : (offered limit all).write text =
    (decide ((all ++ text.toByteArray.toList).length ≤ limit), offered limit (all ++ text.toByteArray.toList)) := by
  have hroom : text.toByteArray.toList.length ≤ limit - all.length ↔
      (all ++ text.toByteArray.toList).length ≤ limit := by
    rw [List.length_append]
    omega
  simp only [offered, write, List.take_of_length_le h, List.take_append, hroom]

theorem writeAll_offered (h : all.length ≤ limit) (texts : List String) : (offered limit all).writeAll texts =
    (decide ((all ++ bytes texts).length ≤ limit), offered limit (all ++ bytes texts)) := by
  induction texts generalizing all with
  | nil => simp [writeAll, bytes, h]
  | cons text texts ih =>
    have hb : all ++ bytes (text :: texts) = all ++ text.toByteArray.toList ++ bytes texts := by simp [bytes]
    rw [writeAll, write_offered h, hb]
    by_cases hfits : (all ++ text.toByteArray.toList).length ≤ limit
    · simpa only [hfits, decide_true, if_true] using ih hfits
    · have hlt : limit < (all ++ text.toByteArray.toList).length := Nat.lt_of_not_le hfits
      have hall : ¬ (all ++ text.toByteArray.toList ++ bytes texts).length ≤ limit := by
        rw [List.length_append]
        omega
      simp only [hfits, hall, offered_append_of_lt hlt, decide_false, Bool.false_eq_true, if_false]

end
end Sink

namespace TraceTable
open Sink (bytes offered)

section
variable {w : Widths} {pattern : String} {s : Scanner} {limit : Nat} {front : List UInt8}

/-- The blocks of some steps. -/
def blocks (w : Widths) (pattern : String) (steps : List Step) : List UInt8 :=
  steps.flatMap fun step => bytes (block w pattern step)

/-- The header and the blocks of some steps. -/
def table (w : Widths) (pattern : String) (steps : List Step) : List UInt8 :=
  bytes (header w pattern) ++ blocks w pattern steps

theorem writeBlocks_of_more (h : s.more = true) (sink : Sink) : writeBlocks w pattern s sink =
    let (fits, sink) := sink.writeAll (block w pattern s.step)
    if fits then
      let rest := writeBlocks w pattern s.step.scanner sink
      { rest with tokens := s.step.token :: rest.tokens }
    else ⟨[s.step.token], some .full, sink⟩ := by
  rw [writeBlocks, dif_pos h]

theorem writeBlocks_of_not_more (h : s.more = false) (sink : Sink) :
    writeBlocks w pattern s sink = ⟨[], s.failure.map .scan, sink⟩ := by
  rw [writeBlocks, dif_neg (by simp [h])]

theorem writeBlocks_unlimited (w : Widths) (pattern : String) (s : Scanner) (taken : List UInt8) :
    writeBlocks w pattern s ⟨none, taken⟩ = ⟨s.drain.map Step.token, (s.afterAll s.drain).failure.map .scan,
      ⟨none, taken ++ blocks w pattern s.drain⟩⟩ := by
  fun_induction Scanner.drain s generalizing taken with
  | case1 s h ih =>
    rw [writeBlocks_of_more h, Sink.writeAll_unlimited, Scanner.afterAll_cons]
    simp [ih, blocks]
  | case2 s h =>
    rw [writeBlocks_of_not_more (by simpa using h)]
    simp [blocks, Scanner.afterAll]

/-- The first of some growing texts that is longer than the limit. -/
def BreaksAt (limit : Nat) (texts : Nat → List UInt8) (j : Nat) : Prop :=
  limit < (texts j).length ∧ ∀ i < j, (texts i).length ≤ limit

/-- What comes of writing the blocks of a run, when some bytes have been offered before them. -/
structure Fills (w : Widths) (pattern : String) (s : Scanner) (limit : Nat) (front : List UInt8) (out : Outcome) :
    Prop where
  sink : out.sink = offered limit (front ++ blocks w pattern s.drain)
  fits : (front ++ blocks w pattern s.drain).length ≤ limit →
    out.tokens = s.drain.map Step.token ∧ out.fault = (s.afterAll s.drain).failure.map .scan
  full : limit < (front ++ blocks w pattern s.drain).length → out.fault = some .full ∧
    ∃ j, BreaksAt limit (fun i => front ++ blocks w pattern (s.drain.take i)) j ∧
      out.tokens = (s.drain.map Step.token).take j

theorem fills_of_not_more (h : s.more = false) (hf : front.length ≤ limit) :
    Fills w pattern s limit front ⟨[], s.failure.map .scan, offered limit front⟩ := by
  have hd : s.drain = [] := Scanner.drain_of_not_more h
  refine ⟨by simp [hd, blocks], fun _ => by simp [hd, Scanner.afterAll], fun hlt => ?_⟩
  rw [hd] at hlt
  simp only [blocks, List.flatMap_nil, List.append_nil] at hlt
  omega

/-- The block of the first step does not fit. -/
theorem fills_of_full (h : s.more = true) (hf : front.length ≤ limit)
    (hb : limit < (front ++ bytes (block w pattern s.step)).length) : Fills w pattern s limit front
      ⟨[s.step.token], some .full, offered limit (front ++ bytes (block w pattern s.step))⟩ := by
  have hd : s.drain = s.step :: s.step.scanner.drain := Scanner.drain_of_more h
  have hall : front ++ blocks w pattern s.drain =
      front ++ bytes (block w pattern s.step) ++ blocks w pattern s.step.scanner.drain := by simp [hd, blocks]
  refine ⟨?_, fun hle => ?_, fun _ => ⟨rfl, 1, ⟨?_, fun i hi => ?_⟩, by simp [hd]⟩⟩
  · rw [hall, Sink.offered_append_of_lt hb]
  · rw [hall, List.length_append] at hle
    omega
  · simpa [hd, blocks] using hb
  · obtain rfl : i = 0 := by omega
    simpa [blocks] using hf

/-- The block of the first step fits, and the others follow. -/
theorem Fills.cons {rest : Outcome} (h : s.more = true) (hf : front.length ≤ limit)
    (hr : Fills w pattern s.step.scanner limit (front ++ bytes (block w pattern s.step)) rest) :
    Fills w pattern s limit front { rest with tokens := s.step.token :: rest.tokens } := by
  have hd : s.drain = s.step :: s.step.scanner.drain := Scanner.drain_of_more h
  have hall (steps : List Step) : front ++ bytes (block w pattern s.step) ++ blocks w pattern steps =
      front ++ blocks w pattern (s.step :: steps) := by simp [blocks]
  obtain ⟨hsink, hfits, hfull⟩ := hr
  rw [hall, ← hd] at hsink hfits hfull
  refine ⟨hsink, fun hle => ?_, fun hlt => ?_⟩
  · obtain ⟨ht, hfault⟩ := hfits hle
    rw [hd, Scanner.afterAll_cons]
    exact ⟨by simp [ht], hfault⟩
  · obtain ⟨hfault, j, ⟨hj, hmin⟩, ht⟩ := hfull hlt
    refine ⟨hfault, j + 1, ⟨?_, fun i hi => ?_⟩, by simp [hd, ht]⟩
    · simpa only [hd, List.take_succ_cons, ← hall] using hj
    · cases i with
      | zero => simpa [blocks] using hf
      | succ i => simpa only [hd, List.take_succ_cons, ← hall] using hmin i (Nat.lt_of_succ_lt_succ hi)

theorem writeBlocks_fills (w : Widths) (pattern : String) (s : Scanner) (hf : front.length ≤ limit) :
    Fills w pattern s limit front (writeBlocks w pattern s (offered limit front)) := by
  -- Along the drain, as long as what has been offered fits.
  fun_induction Scanner.drain s generalizing front with
  | case1 s h ih =>
    rw [writeBlocks_of_more h, Sink.writeAll_offered hf]
    by_cases hb : (front ++ bytes (block w pattern s.step)).length ≤ limit
    · simp only [hb, decide_true, if_true]
      exact (ih hb).cons h hf
    · simp only [hb, decide_false, Bool.false_eq_true, if_false]
      exact fills_of_full h hf (Nat.lt_of_not_le hb)
  | case2 s h =>
    have hm : s.more = false := by simpa using h
    rw [writeBlocks_of_not_more hm]
    exact fills_of_not_more hm hf

theorem trace_unlimited (w : Widths) (pattern : String) (taken : List UInt8) :
    let start := Scanner.start pattern.toByteArray.toList
    trace w pattern ⟨none, taken⟩ = ⟨start.drain.map Step.token, (start.afterAll start.drain).failure.map .scan,
      ⟨none, taken ++ table w pattern start.drain⟩⟩ := by
  intro start
  rw [trace, Sink.writeAll_unlimited]
  dsimp only
  rw [if_pos rfl, writeBlocks_unlimited, List.append_assoc]
  rfl

/-- A sink that does not take the header has a part of it. -/
theorem trace_of_lt_header (h : limit < (bytes (header w pattern)).length) :
    trace w pattern (.empty (some limit)) = ⟨[], some .full, offered limit (bytes (header w pattern))⟩ := by
  rw [trace, Sink.empty_eq_offered, Sink.writeAll_offered (Nat.zero_le limit), List.nil_append]
  simp only [Nat.not_le_of_lt h, decide_false, Bool.false_eq_true, if_false]

theorem trace_fills (w : Widths) (pattern : String) (limit : Nat) :
    Fills w pattern (.start pattern.toByteArray.toList) limit (bytes (header w pattern))
      (trace w pattern (.empty (some limit))) := by
  by_cases hh : (bytes (header w pattern)).length ≤ limit
  · rw [trace, Sink.empty_eq_offered, Sink.writeAll_offered (Nat.zero_le limit), List.nil_append]
    simp only [hh, decide_true, if_true]
    exact writeBlocks_fills w pattern _ hh
  · have hlt : limit < (bytes (header w pattern)).length := Nat.lt_of_not_le hh
    rw [trace_of_lt_header hlt]
    refine ⟨(Sink.offered_append_of_lt hlt _).symm, fun hle => ?_, fun _ => ⟨rfl, 0, ⟨?_, by simp⟩, by simp⟩⟩
    · rw [List.length_append] at hle
      omega
    · simpa [blocks] using hlt

theorem Paddable.repeatable (h : Paddable w pattern) : Repeatable w pattern := by
  obtain ⟨hp, ht⟩ := h
  exact ⟨by omega, by omega⟩

theorem attempt_of_paddable (h : Paddable w pattern) (sink : Sink) :
    attempt w pattern sink = some (trace w pattern sink) := by
  rw [attempt, if_neg (not_not_intro h.repeatable), if_neg fun hw => hw.2 h]

/-- A sink without a limit takes the first line, and the second cannot be padded. -/
theorem attempt_unlimited_of_wide (h : ¬ Paddable w pattern) (taken : List UInt8) :
    attempt w pattern ⟨none, taken⟩ = none := by
  unfold attempt
  split
  · rfl
  · rw [Sink.writeAll_unlimited, if_pos ⟨rfl, h⟩]

theorem utf8ByteSize_rule (n : Nat) : (TextPadding.spread '═' n).utf8ByteSize = 3 * n := by
  have hsize : Utf8.size (List.replicate n '═') = 3 * n := by
    induction n with
    | zero => rfl
    | succ n ih =>
      rw [List.replicate_succ, Utf8.size_cons, ih, show '═'.utf8Size = 3 from rfl]
      omega
  rw [← Utf8.size_toList, TextPadding.spread, String.toList_ofList, hsize]

/-- The bytes of the first line of the header. -/
def topLine (w : Widths) (pattern : String) : List UInt8 := bytes ((header w pattern).take 1)

theorem length_topLine (w : Widths) (pattern : String) :
    (topLine w pattern).length = 3 * (columnWidth w pattern + w.token) + 58 := by
  have hline {left bar cross rule right : String} {m n : Nat} (hl : left.utf8ByteSize = 42)
      (hb : bar.utf8ByteSize = 3 * m) (hc : cross.utf8ByteSize = 6) (hr : rule.utf8ByteSize = 3 * (n + 2))
      (he : right.utf8ByteSize = 4) : (left ++ bar ++ cross ++ rule ++ right).utf8ByteSize = 3 * (m + n) + 58 := by
    simp only [String.utf8ByteSize_append, hl, hb, hc, hr, he]
    omega
  rw [topLine, header, List.take_succ_cons, List.take_zero, bytes, List.flatMap_singleton, Sink.length_toList]
  exact hline rfl (utf8ByteSize_rule _) rfl (utf8ByteSize_rule _) rfl

theorem bytes_header (w : Widths) (pattern : String) :
    bytes (header w pattern) = topLine w pattern ++ bytes ((header w pattern).drop 1) := by
  rw [topLine, bytes, bytes, bytes, ← List.flatMap_append, List.take_append_drop]

/-- A sink that does not take the first line has a part of that line. -/
theorem trace_of_lt_topLine (h : limit < (topLine w pattern).length) :
    trace w pattern (.empty (some limit)) = ⟨[], some .full, offered limit (topLine w pattern)⟩ := by
  have hheader : limit < (bytes (header w pattern)).length := by
    rw [bytes_header, List.length_append]
    omega
  rw [trace_of_lt_header hheader, bytes_header, Sink.offered_append_of_lt h]

theorem attempt_limited_of_wide (h : ¬ Paddable w pattern) (limit : Nat) : attempt w pattern (.empty (some limit)) =
    if Repeatable w pattern ∧ limit < (topLine w pattern).length then
      some ⟨[], some .full, offered limit (topLine w pattern)⟩
    else none := by
  have hfits : ((Sink.empty (some limit)).writeAll ((header w pattern).take 1)).1 = true ↔
      (topLine w pattern).length ≤ limit := by
    rw [Sink.empty_eq_offered, Sink.writeAll_offered (Nat.zero_le limit), List.nil_append, decide_eq_true_iff, topLine]
  unfold attempt
  by_cases hr : Repeatable w pattern
  · rw [if_neg (not_not_intro hr)]
    by_cases hl : limit < (topLine w pattern).length
    · rw [if_neg fun hc => Nat.not_le_of_lt hl (hfits.1 hc.1), if_pos ⟨hr, hl⟩, trace_of_lt_topLine hl]
    · rw [if_pos ⟨hfits.2 (Nat.le_of_not_lt hl), h⟩, if_neg fun hc => hl hc.2]
  · rw [if_pos hr, if_neg fun hc => hr hc.1]

/-- A trace to a sink with a limit, set against the whole trace of the same steps. -/
structure CutOff (w : Widths) (pattern : String) (steps : List Step) (limit : Nat) (whole out : Outcome) : Prop where
  text : whole.sink.taken = table w pattern steps
  taken : out.sink.taken = whole.sink.taken.take limit
  fits : whole.sink.taken.length ≤ limit → out.tokens = whole.tokens ∧ out.fault = whole.fault
  full : limit < whole.sink.taken.length → out.fault = some .full ∧
    ∃ j, BreaksAt limit (fun i => table w pattern (steps.take i)) j ∧ out.tokens = (steps.map Step.token).take j

/-- A trace to a sink with a limit. If the columns can be padded, it is a part of the whole trace. If not, there is no
whole trace, and no other result than a part of the first line. -/
structure Limited (w : Widths) (pattern : String) (limit : Nat) : Prop where
  paddable : Paddable w pattern → ∃ whole out, attempt w pattern (.empty none) = some whole ∧
    attempt w pattern (.empty (some limit)) = some out ∧
    CutOff w pattern (Scanner.start pattern.toByteArray.toList).drain limit whole out
  wide : ¬ Paddable w pattern → attempt w pattern (.empty none) = none ∧ attempt w pattern (.empty (some limit)) =
    if Repeatable w pattern ∧ limit < (topLine w pattern).length then
      some ⟨[], some .full, offered limit (topLine w pattern)⟩
    else none

theorem cutOff_trace (w : Widths) (pattern : String) (limit : Nat) :
    CutOff w pattern (Scanner.start pattern.toByteArray.toList).drain limit (trace w pattern (.empty none))
      (trace w pattern (.empty (some limit))) := by
  have hwhole : trace w pattern (.empty none) = _ := trace_unlimited w pattern []
  have htable : (trace w pattern (.empty none)).sink.taken =
      table w pattern (Scanner.start pattern.toByteArray.toList).drain := by
    rw [hwhole]
    rfl
  obtain ⟨hsink, hfits, hfull⟩ := trace_fills w pattern limit
  refine ⟨htable, ?_, fun hle => ?_, fun hlt => ?_⟩
  · rw [htable, hsink]
    rfl
  · rw [htable] at hle
    rw [hwhole]
    exact hfits hle
  · rw [htable] at hlt
    exact hfull hlt

theorem trace_cut_off (w : Widths) (pattern : String) (limit : Nat) : Limited w pattern limit where
  paddable h := ⟨_, _, attempt_of_paddable h _, attempt_of_paddable h _, cutOff_trace w pattern limit⟩
  wide h := ⟨attempt_unlimited_of_wide h [], attempt_limited_of_wide h limit⟩

/-- A column of tokens that is one too wide: there is no whole trace, and none to a sink for just the first line. -/
theorem no_cut_off_wide_tokens : (topLine ⟨12, 65536⟩ "").length = 196702 ∧
    attempt ⟨12, 65536⟩ "" (.empty none) = none ∧ attempt ⟨12, 65536⟩ "" (.empty (some 196702)) = none := by
  have hw : ¬ Paddable ⟨12, 65536⟩ "" := by decide
  have hl : (topLine ⟨12, 65536⟩ "").length = 196702 := length_topLine ..
  refine ⟨hl, attempt_unlimited_of_wide hw [], ?_⟩
  rw [attempt_limited_of_wide hw, hl, if_neg fun hc => Nat.lt_irrefl _ hc.2]

end
end TraceTable
end RoutePattern
