import RoutePattern.Proofs.DrainedScanners
import RoutePattern.Proofs.MarkerLines
import RoutePattern.Proofs.VisibleText
import RoutePattern.Proofs.WrittenTables

/-!
# The layout of a trace

A table is three lines and two more for every token. All lines have one width, but for texts that are longer than
their cells. The rule below a row has the marker of its step in the column of the pattern, and the last rule closes
the table.
-/
namespace RoutePattern

/-- How many characters a text has more than a cell. -/
def excess (cell : Nat) (text : String) : Nat := text.length - cell

namespace TextPadding

theorem length_spread (fill : Char) (n : Nat) : (spread fill n).length = n := by simp [spread]

theorem length_padLeft (width : Nat) (text : String) : (padLeft width text).length = width + excess width text := by
  simp only [padLeft, pad, String.length_append, length_spread, excess]
  omega

theorem length_padRight (width : Nat) (text : String) : (padRight width text).length = width + excess width text := by
  simp only [padRight, pad, String.length_append, length_spread, excess]
  omega

theorem oneLine_spread {fill : Char} (h : fill ≠ '\n') (n : Nat) : OneLine (spread fill n) := by
  intro hm
  rw [spread, String.toList_ofList] at hm
  exact h (List.eq_of_mem_replicate hm).symm

theorem oneLine_padLeft {text : String} (h : OneLine text) (width : Nat) : OneLine (padLeft width text) :=
  (oneLine_spread (by decide) _).append h

theorem oneLine_padRight {text : String} (h : OneLine text) (width : Nat) : OneLine (padRight width text) :=
  h.append (oneLine_spread (by decide) _)

end TextPadding

namespace Marker

theorem oneLine_draw (pattern : String) (offset : Nat) : OneLine (lineBelow.draw pattern offset) := by
  intro hm
  rw [draw, String.toList_ofList] at hm
  rcases mem_drawFrom hm with h | h
  · cases h
  · revert h
    decide

end Marker

namespace TraceTable
open TextPadding

section
variable {w : Widths} {pattern : String} {steps : List Step} {step : Step} {i : Nat}

/-- A line with the pattern and the token between the borders, of which the left one has the cells of the offsets. -/
def line (left shown cross token right : String) : String := left ++ shown ++ cross ++ token ++ right

/-- The marker of an offset, and plain rule up to the width of the column. -/
def marked (w : Widths) (pattern : String) (offset : Nat) : String :=
  Marker.lineBelow.draw pattern offset ++ spread '─' (columnWidth w pattern - pattern.length)

def headerLines (w : Widths) (pattern : String) : List String :=
  let width := columnWidth w pattern
  [line "╔═════╤═════╤═" (spread '═' width) "═╤" (spread '═' (w.token + 2)) "╗",
   line "║ Off │ Pos │ " (padRight width ("Pattern (" ++ toString width ++ ")")) " │ " (padRight w.token "Token") " ║",
   line "╠═════╪═════╪═" (spread '═' width) "═╪" (spread '═' (w.token + 2)) "╣"]

def rowLine (w : Widths) (pattern : String) (step : Step) : String :=
  line ("║ " ++ padLeft 3 (toString step.scanner.cursor.offset) ++ " │ " ++
    padLeft 3 (toString step.scanner.cursor.readOffset) ++ " │ ") (padRight (columnWidth w pattern) pattern) " │ "
    (padRight w.token step.token.text) " ║"

def innerRule (w : Widths) (pattern : String) (offset : Nat) : String :=
  line "║─────┼─────┼─" (marked w pattern offset) "─┼" (spread '─' (w.token + 2)) "╢"

def closingRule (w : Widths) (pattern : String) (offset : Nat) : String :=
  line "╙─────┴─────┴─" (marked w pattern offset) "─┴" (spread '─' (w.token + 2)) "╜"

def ruleLine (w : Widths) (pattern : String) (step : Step) : String :=
  if step.scanner.more then innerRule w pattern step.scanner.cursor.offset
  else closingRule w pattern step.scanner.cursor.offset

/-- The lines of the header and of some steps. -/
def tableLines (w : Widths) (pattern : String) (steps : List Step) : List String :=
  headerLines w pattern ++ steps.flatMap fun step => [rowLine w pattern step, ruleLine w pattern step]

theorem line_newline (left shown cross token right : String) :
    line left shown cross token right ++ "\n" = left ++ shown ++ cross ++ token ++ (right ++ "\n") := by
  simp only [line, String.append_assoc]

theorem header_eq (w : Widths) (pattern : String) : header w pattern = (headerLines w pattern).map (· ++ "\n") := by
  simp only [headerLines, List.map_cons, List.map_nil, line_newline]
  simp [header, String.append_assoc]

theorem block_eq (w : Widths) (pattern : String) (step : Step) :
    block w pattern step = [rowLine w pattern step, ruleLine w pattern step].map (· ++ "\n") := by
  have hrow : row w pattern step = rowLine w pattern step ++ "\n" := by
    rw [rowLine, line_newline]
    simp [row, String.append_assoc]
  have hrule : separator w pattern step = ruleLine w pattern step ++ "\n" := by
    unfold ruleLine separator
    split
    · rw [innerRule, line_newline]
      simp [marked, String.append_assoc]
    · rw [closingRule, line_newline]
      simp [marked, String.append_assoc]
  rw [block, hrow, hrule]
  rfl

/-- A table is written line by line. -/
theorem table_eq (w : Widths) (pattern : String) (steps : List Step) :
    table w pattern steps = Sink.bytes ((tableLines w pattern steps).map (· ++ "\n")) := by
  have hblocks : blocks w pattern steps = Sink.bytes ((steps.flatMap fun step =>
      [rowLine w pattern step, ruleLine w pattern step]).map (· ++ "\n")) := by
    rw [List.map_flatMap, Sink.bytes, List.flatMap_assoc]
    simp only [blocks, block_eq]
    rfl
  rw [table, header_eq, hblocks, tableLines, List.map_append]
  exact List.flatMap_append.symm

/-- How many characters a line has when no text is too long for its cell. -/
def lineWidth (w : Widths) (pattern : String) : Nat := 19 + columnWidth w pattern + w.token

/-- What a line has in the column of the pattern. -/
def shownIn (w : Widths) (pattern : String) (line : String) : List Char :=
  (line.toList.drop 14).take (columnWidth w pattern)

theorem length_line (left shown cross token right : String) : (line left shown cross token right).length =
    left.length + shown.length + cross.length + token.length + right.length := by
  simp only [line, String.length_append]

theorem length_le_columnWidth (w : Widths) (pattern : String) : pattern.length ≤ columnWidth w pattern :=
  Nat.le_max_left _ _

theorem length_marked (w : Widths) (pattern : String) (offset : Nat) :
    (marked w pattern offset).length = columnWidth w pattern := by
  have := length_le_columnWidth w pattern
  rw [marked, String.length_append, Marker.length_draw, length_spread]
  omega

/-- The width of a rule does not depend on what it is drawn with. -/
theorem length_rule {left shown cross right : String} (hl : left.length = 14)
    (hs : shown.length = columnWidth w pattern) (hc : cross.length = 2) (hr : right.length = 1) (fill : Char) :
    (line left shown cross (spread fill (w.token + 2)) right).length = lineWidth w pattern := by
  rw [length_line, length_spread, hl, hs, hc, hr, lineWidth]
  omega

theorem length_ruleLine (w : Widths) (pattern : String) (step : Step) :
    (ruleLine w pattern step).length = lineWidth w pattern := by
  unfold ruleLine
  split
  · exact length_rule rfl (length_marked ..) rfl rfl '─'
  · exact length_rule rfl (length_marked ..) rfl rfl '─'

theorem length_titles (w : Widths) (pattern title : String) : (line "║ Off │ Pos │ "
    (padRight (columnWidth w pattern) title) " │ " (padRight w.token "Token") " ║").length =
      lineWidth w pattern + excess (columnWidth w pattern) title + excess w.token "Token" := by
  have hl : "║ Off │ Pos │ ".length = 14 := rfl
  have hc : " │ ".length = 3 := rfl
  have hr : " ║".length = 2 := rfl
  rw [length_line, length_padRight, length_padRight, hl, hc, hr, lineWidth]
  omega

theorem length_rowLine (w : Widths) (pattern : String) (step : Step) : (rowLine w pattern step).length =
    lineWidth w pattern + excess 3 (toString step.scanner.cursor.offset) +
      excess 3 (toString step.scanner.cursor.readOffset) + excess w.token step.token.text := by
  have hl : "║ ".length = 2 := rfl
  have hc : " │ ".length = 3 := rfl
  have hr : " ║".length = 2 := rfl
  have hp : excess (columnWidth w pattern) pattern = 0 := Nat.sub_eq_zero_of_le (length_le_columnWidth w pattern)
  rw [rowLine, length_line]
  simp only [String.length_append, length_padLeft, length_padRight, hl, hc, hr, hp, lineWidth]
  omega

theorem shownIn_line {left shown : String} (hl : left.length = 14) (hs : shown.length = columnWidth w pattern)
    (cross token right : String) : shownIn w pattern (line left shown cross token right) = shown.toList := by
  rw [← String.length_toList] at hl hs
  simp only [shownIn, line, String.toList_append, List.append_assoc]
  rw [List.drop_left' hl, List.take_left' hs]

theorem shownIn_ruleLine (w : Widths) (pattern : String) (step : Step) :
    shownIn w pattern (ruleLine w pattern step) = (marked w pattern step.scanner.cursor.offset).toList := by
  unfold ruleLine
  split
  · exact shownIn_line rfl (length_marked ..) _ _ _
  · exact shownIn_line rfl (length_marked ..) _ _ _

theorem getElem?_pairs {α β : Type} (f g : α → β) (xs : List α) (i : Nat) :
    (xs.flatMap fun x => [f x, g x])[2 * i]? = xs[i]?.map f ∧
      (xs.flatMap fun x => [f x, g x])[2 * i + 1]? = xs[i]?.map g := by
  induction xs generalizing i with
  | nil => simp
  | cons x xs ih =>
    cases i with
    | zero => simp
    | succ i => exact ih i

theorem length_pairs {α β : Type} (f g : α → β) (xs : List α) :
    (xs.flatMap fun x => [f x, g x]).length = 2 * xs.length := by
  induction xs with
  | nil => rfl
  | cons x xs ih =>
    rw [List.flatMap_cons, List.length_append, ih]
    simp only [List.length_cons, List.length_nil]
    omega

theorem getElem?_row (h : steps[i]? = some step) :
    (tableLines w pattern steps)[3 + 2 * i]? = some (rowLine w pattern step) := by
  have hi := (getElem?_pairs (rowLine w pattern) (ruleLine w pattern) steps i).1
  rw [h] at hi
  rw [tableLines, List.getElem?_append_right (Nat.le_add_right 3 _)]
  exact (congrArg _ (Nat.add_sub_cancel_left ..)).trans hi

theorem getElem?_rule (h : steps[i]? = some step) :
    (tableLines w pattern steps)[4 + 2 * i]? = some (ruleLine w pattern step) := by
  have hi := (getElem?_pairs (rowLine w pattern) (ruleLine w pattern) steps i).2
  have he : 4 + 2 * i = 3 + (2 * i + 1) := by omega
  rw [h] at hi
  rw [he, tableLines, List.getElem?_append_right (Nat.le_add_right 3 _)]
  exact (congrArg _ (Nat.add_sub_cancel_left ..)).trans hi

theorem length_tableLines (w : Widths) (pattern : String) (steps : List Step) :
    (tableLines w pattern steps).length = 3 + 2 * steps.length := by
  rw [tableLines, List.length_append, length_pairs (rowLine w pattern) (ruleLine w pattern)]
  rfl

/-- Every line is one of the header, or the row of a step, or the rule below it. -/
theorem tableLines_cases {j : Nat} {text : String} (h : (tableLines w pattern steps)[j]? = some text) :
    j < 3 ∧ text ∈ headerLines w pattern ∨ ∃ i step, steps[i]? = some step ∧
      (j = 3 + 2 * i ∧ text = rowLine w pattern step ∨ j = 4 + 2 * i ∧ text = ruleLine w pattern step) := by
  by_cases hj : j < 3
  · rw [tableLines, List.getElem?_append_left hj] at h
    exact .inl ⟨hj, List.mem_of_getElem? h⟩
  · have hlt : j < (tableLines w pattern steps).length := (List.getElem?_eq_some_iff.1 h).1
    rw [length_tableLines] at hlt
    obtain ⟨step, hs⟩ : ∃ step, steps[(j - 3) / 2]? = some step :=
      ⟨_, List.getElem?_eq_getElem (by omega)⟩
    refine .inr ⟨(j - 3) / 2, step, hs, ?_⟩
    rcases Nat.mod_two_eq_zero_or_one (j - 3) with hm | hm
    · have he : j = 3 + 2 * ((j - 3) / 2) := by omega
      rw [he, getElem?_row hs] at h
      exact .inl ⟨he, (Option.some.inj h).symm⟩
    · have he : j = 4 + 2 * ((j - 3) / 2) := by omega
      rw [he, getElem?_rule hs] at h
      exact .inr ⟨he, (Option.some.inj h).symm⟩

theorem oneLine_line {left shown cross token right : String} (hl : OneLine left) (hs : OneLine shown)
    (hc : OneLine cross) (ht : OneLine token) (hr : OneLine right) : OneLine (line left shown cross token right) :=
  (((hl.append hs).append hc).append ht).append hr

theorem oneLine_number (n : Nat) : OneLine (toString n) := (visible_number n).oneLine

theorem oneLine_of_mem_header {text : String} (h : text ∈ headerLines w pattern) : OneLine text := by
  have hbar (n : Nat) : OneLine (spread '═' n) := oneLine_spread (by decide) n
  have htitle (n : Nat) : OneLine ("Pattern (" ++ toString n ++ ")") :=
    .append (.append (by decide) (oneLine_number n)) (by decide)
  simp only [headerLines, List.mem_cons, List.not_mem_nil, or_false] at h
  rcases h with rfl | rfl | rfl
  · exact oneLine_line (by decide) (hbar _) (by decide) (hbar _) (by decide)
  · exact oneLine_line (by decide) (oneLine_padRight (htitle _) _) (by decide)
      (oneLine_padRight (by decide) _) (by decide)
  · exact oneLine_line (by decide) (hbar _) (by decide) (hbar _) (by decide)

theorem oneLine_rowLine (hp : OneLine pattern) (w : Widths) (step : Step) : OneLine (rowLine w pattern step) := by
  have hcell (n : Nat) : OneLine (padLeft 3 (toString n)) := oneLine_padLeft (oneLine_number n) 3
  have hleft (m n : Nat) : OneLine ("║ " ++ padLeft 3 (toString m) ++ " │ " ++ padLeft 3 (toString n) ++ " │ ") :=
    .append (.append (.append (.append (by decide) (hcell m)) (by decide)) (hcell n)) (by decide)
  exact oneLine_line (hleft _ _) (oneLine_padRight hp _) (by decide)
    (oneLine_padRight step.token.visible_text.oneLine _) (by decide)

theorem oneLine_ruleLine (w : Widths) (pattern : String) (step : Step) : OneLine (ruleLine w pattern step) := by
  have hrule (n : Nat) : OneLine (spread '─' n) := oneLine_spread (by decide) n
  have hmarked (n : Nat) : OneLine (marked w pattern n) := (Marker.oneLine_draw pattern n).append (hrule _)
  unfold ruleLine
  split
  · exact oneLine_line (by decide) (hmarked _) (by decide) (hrule _) (by decide)
  · exact oneLine_line (by decide) (hmarked _) (by decide) (hrule _) (by decide)

/-- A pattern on one line makes a table of the lines that are written. -/
theorem oneLine_of_mem (hp : OneLine pattern) {text : String} (h : text ∈ tableLines w pattern steps) :
    OneLine text := by
  obtain ⟨j, hj⟩ := List.mem_iff_getElem?.1 h
  rcases tableLines_cases hj with ⟨-, hm⟩ | ⟨i, step, -, ⟨-, rfl⟩ | ⟨-, rfl⟩⟩
  · exact oneLine_of_mem_header hm
  · exact oneLine_rowLine hp w step
  · exact oneLine_ruleLine w pattern step

theorem head?_line {left : String} {x : Char} (h : left.toList.head? = some x) (shown cross token right : String) :
    (line left shown cross token right).toList.head? = some x := by
  simp only [line, String.toList_append, List.append_assoc]
  rw [List.head?_append, h]
  rfl

theorem head?_ruleLine (w : Widths) (pattern : String) (step : Step) :
    (ruleLine w pattern step).toList.head? = some '╙' ↔ step.scanner.more = false := by
  unfold ruleLine
  cases step.scanner.more with
  | true => exact iff_of_false (by rw [if_pos rfl, innerRule, head?_line rfl]; decide) Bool.noConfusion
  | false => exact iff_of_true (head?_line rfl ..) rfl

end

/-- The lines of the table of a drain. -/
structure Layout (w : Widths) (pattern : String) (steps : List Step) (lines : List String) : Prop where
  oneLine : ∀ text ∈ lines, '\n' ∉ text.toList
  count : lines.length = 3 + 2 * steps.length
  top : ∃ text, lines[0]? = some text ∧ text.length = lineWidth w pattern
  titles : ∃ text, lines[1]? = some text ∧ text.length = lineWidth w pattern +
    excess (columnWidth w pattern) ("Pattern (" ++ toString (columnWidth w pattern) ++ ")") + excess w.token "Token"
  under : ∃ text, lines[2]? = some text ∧ text.length = lineWidth w pattern
  row : ∀ i step, steps[i]? = some step → ∃ text, lines[3 + 2 * i]? = some text ∧ text.length = lineWidth w pattern +
    excess 3 (toString step.scanner.cursor.offset) + excess 3 (toString step.scanner.cursor.readOffset) +
    excess w.token step.token.text
  rule : ∀ i step, steps[i]? = some step → ∃ text, lines[4 + 2 * i]? = some text ∧ text.length = lineWidth w pattern ∧
    shownIn w pattern text = (Marker.lineBelow.draw pattern step.scanner.cursor.offset).toList ++
      List.replicate (columnWidth w pattern - pattern.length) '─' ∧
    text = if i + 1 < steps.length then innerRule w pattern step.scanner.cursor.offset
      else closingRule w pattern step.scanner.cursor.offset
  closing : ∀ j text, lines[j]? = some text → (text.toList.head? = some '╙' ↔ j + 1 = lines.length)

/-- Only the last line of a table starts with the corner that closes it. -/
theorem closing_tableLines (w : Widths) (pattern : String) {scanner : Scanner} (h : scanner.more = true) {j : Nat}
    {text : String} (hj : (tableLines w pattern scanner.drain)[j]? = some text) :
    text.toList.head? = some '╙' ↔ j + 1 = 3 + 2 * scanner.drain.length := by
  rcases tableLines_cases hj with ⟨hlt, hm⟩ | ⟨i, step, hs, ⟨rfl, rfl⟩ | ⟨rfl, rfl⟩⟩
  · have hn : 0 < scanner.drain.length := by
      rw [Scanner.drain_of_more h]
      exact Nat.succ_pos _
    have hhead : ∃ x, text.toList.head? = some x ∧ x ≠ '╙' := by
      simp only [headerLines, List.mem_cons, List.not_mem_nil, or_false] at hm
      rcases hm with rfl | rfl | rfl
      · exact ⟨_, head?_line rfl .., by decide⟩
      · exact ⟨_, head?_line rfl .., by decide⟩
      · exact ⟨_, head?_line rfl .., by decide⟩
    obtain ⟨x, hx, hne⟩ := hhead
    rw [hx]
    exact iff_of_false (fun he => hne (Option.some.inj he)) (by omega)
  · have hleft (rest : String) : ("║ " ++ rest).toList.head? = some '║' := by
      rw [String.toList_append]
      rfl
    have hhead : (rowLine w pattern step).toList.head? = some '║' := by
      simp only [rowLine, String.append_assoc]
      exact head?_line (hleft _) ..
    rw [hhead]
    exact iff_of_false (by decide) (by omega)
  · have hlt : i < scanner.drain.length := (List.getElem?_eq_some_iff.1 hs).1
    have hmore := Scanner.more_drain h hs
    rw [head?_ruleLine, ← Bool.not_eq_true, hmore]
    omega

theorem layout_tableLines (w : Widths) {pattern : String} (hp : OneLine pattern) {scanner : Scanner}
    (h : scanner.more = true) : Layout w pattern scanner.drain (tableLines w pattern scanner.drain) where
  oneLine _ hm := oneLine_of_mem hp hm
  count := length_tableLines ..
  top := ⟨_, rfl, length_rule rfl (length_spread ..) rfl rfl '═'⟩
  titles := ⟨_, rfl, length_titles ..⟩
  under := ⟨_, rfl, length_rule rfl (length_spread ..) rfl rfl '═'⟩
  row i step hi := ⟨_, getElem?_row hi, length_rowLine w pattern step⟩
  rule i step hi := by
    refine ⟨_, getElem?_rule hi, length_ruleLine w pattern step, ?_, ?_⟩
    · rw [shownIn_ruleLine, marked, String.toList_append, TextPadding.spread, String.toList_ofList]
    · simp only [ruleLine, Scanner.more_drain h hi]
  closing j text hj := by
    rw [length_tableLines]
    exact closing_tableLines w pattern h hj

/-- A trace to a sink without a limit writes a table that is laid out for the tokens it gives. -/
theorem trace_layout (w : Widths) {pattern : String} (hp : '\n' ∉ pattern.toList) :
    (Paddable w pattern → attempt w pattern (.empty none) = some (trace w pattern (.empty none))) ∧ ∃ lines,
    (trace w pattern (.empty none)).sink.taken = Sink.bytes (lines.map (· ++ "\n")) ∧
      (trace w pattern (.empty none)).tokens =
        (Scanner.start pattern.toByteArray.toList).drain.map Step.token ∧
      Layout w pattern (Scanner.start pattern.toByteArray.toList).drain lines := by
  have htrace : trace w pattern (.empty none) = _ := trace_unlimited w pattern []
  refine ⟨fun hw => attempt_of_paddable hw _, _, ?_, by rw [htrace], layout_tableLines w hp rfl⟩
  rw [htrace, ← table_eq]
  rfl

theorem trace_layout_path : attempt default "/:a" (.empty none) = some (trace default "/:a" (.empty none)) ∧
    ∃ lines : List String,
    (trace default "/:a" (.empty none)).sink.taken = Sink.bytes (lines.map (· ++ "\n")) ∧ lines.length = 11 ∧
      ∃ text, lines[0]? = some text ∧ text.length = 76 := by
  obtain ⟨hattempt, lines, hwritten, -, hl⟩ := trace_layout default (show '\n' ∉ "/:a".toList by decide)
  have hsteps : (Scanner.start "/:a".toByteArray.toList).drain.length = 4 := by decide +kernel
  obtain ⟨text, htext, hlength⟩ := hl.top
  refine ⟨hattempt (by decide), lines, hwritten, ?_, text, htext, hlength.trans (by decide)⟩
  rw [hl.count, hsteps]

end TraceTable
end RoutePattern
