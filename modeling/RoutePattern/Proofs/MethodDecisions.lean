import RoutePattern.Proofs.IllegalInput
import RoutePattern.Proofs.JoinedPatterns

/-!
# Method or not

Capitals in front of a pattern are a method exactly if one blank and a slash follow them. Else the first call
fails, on the blank or on the last capital, or on what cannot be read right behind them. No other pattern
has a method, and no call but the first gives one.
-/
namespace RoutePattern
open SourceText
open Utf8 (encode size)

namespace SourceText

section
variable (s : SourceText) {word rest : List Char}

end
end SourceText

namespace Scanner

section
variable {s : SourceText} {word rest : List Char} {gap : Char}

/-- The failure of the first call: what cannot be read right ahead, or an ambiguous word. -/
theorem step_undecided (ht : s.text = word ++ rest) (hn : word ≠ [])
    (hw : ∀ x ∈ word, (CodePoint.char x).isUpper = true) (hr : (CodePoint.ofHead rest).isUpper = false)
    (hm : ∀ gap after, gap = ' ' ∨ gap = '\t' → rest ≠ gap :: '/' :: after) :
    ∃ before x after, ((x = ' ' ∨ x = '\t') ∧ before = word ∧ rest = x :: after ∨
        x ∈ word ∧ word = before ++ [x] ∧ rest = after ∧ ∀ y ∈ rest.head?, y ≠ ' ' ∧ y ≠ '\t') ∧
      (start s.bytes).step.scanner.failure = some ((s.obstacleAhead after).getD
        (.ambiguous (CodePoint.char x).classify (Cursor.readings (String.ofList word)) (s.place before))) := by
  have hready : Ready s [] (word ++ rest) (start s.bytes) := ht ▸ ready_start s
  obtain ⟨before, x, after, hx, -, hc⟩ := hready.step_undecided rfl hn hw hr hm
  exact ⟨before, x, after, hx, hc.failure⟩

end
end Scanner

namespace SourceText

section
variable {s : SourceText} {word rest before after : List Char} {x : Char}

end
end SourceText

namespace Cursor

section
variable (c : Cursor) (start : Position)

end
end Cursor

namespace Scanner

section
variable {s : SourceText} {scanner : Scanner}

end
end Scanner

section
variable {s : SourceText} {word rest : List Char} {gap : Char}

end

example : (Scanner.start (encode "GET users".toList)).step.scanner.failure =
    some (.ambiguous .whitespace (Cursor.readings "GET") 3) := by decide +kernel

end RoutePattern
