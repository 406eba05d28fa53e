/-!
# Reading UTF-8 from lists of bytes

The first scalar value of a byte list, the text of its longest well-formed part, and the text in
which every maximal ill-formed subpart is replaced by U+FFFD.
-/
namespace RoutePattern.Utf8

/-- No encoding has more than four bytes, so the first four decide. -/
def first? (bytes : List UInt8) : Option Char := (bytes.take 4).toByteArray.utf8DecodeChar? 0

theorem first?_nil : first? [] = none := by decide +kernel

theorem utf8Size_le_of_first? {bytes : List UInt8} {c : Char} (h : first? bytes = some c) :
    c.utf8Size ≤ bytes.length := by
  have := ByteArray.le_size_of_utf8DecodeChar?_eq_some h
  simp at this; omega

/-- The characters before the first place where no scalar value can be read. -/
def wellFormedPart (bytes : List UInt8) : List Char :=
  match _found : first? bytes with
  | none => []
  | some c => c :: wellFormedPart (bytes.drop c.utf8Size)
termination_by bytes.length
decreasing_by
  have := utf8Size_le_of_first? _found
  have := c.utf8Size_pos
  simp only [List.length_drop]; omega

def text (bytes : List UInt8) : String := String.ofList (wellFormedPart bytes)

/-- Least and greatest value of each byte that may follow a lead byte in a well-formed sequence. -/
def continuations (lead : UInt8) : List (UInt8 × UInt8) :=
  if 0xC2 ≤ lead && lead ≤ 0xDF then [(0x80,0xBF)]
  else if lead = 0xE0 then [(0xA0,0xBF),(0x80,0xBF)]
  else if lead = 0xED then [(0x80,0x9F),(0x80,0xBF)]
  else if 0xE1 ≤ lead && lead ≤ 0xEF then [(0x80,0xBF),(0x80,0xBF)]
  else if lead = 0xF0 then [(0x90,0xBF),(0x80,0xBF),(0x80,0xBF)]
  else if lead = 0xF4 then [(0x80,0x8F),(0x80,0xBF),(0x80,0xBF)]
  else if 0xF1 ≤ lead && lead ≤ 0xF3 then [(0x80,0xBF),(0x80,0xBF),(0x80,0xBF)]
  else []

def continued : List (UInt8 × UInt8) → List UInt8 → Nat
  | range :: ranges, b :: bytes =>
    if range.1 ≤ b && b ≤ range.2 then continued ranges bytes + 1 else 0
  | _, _ => 0

/-- One character or one maximal subpart after the other. -/
def lossyPart : List UInt8 → List Char
  | [] => []
  | lead :: rest => match first? (lead :: rest) with
    | some c => c :: lossyPart (rest.drop (c.utf8Size - 1))
    | none => '\uFFFD' :: lossyPart (rest.drop (continued (continuations lead) rest))
termination_by bytes => bytes.length
decreasing_by all_goals simp only [List.length_drop, List.length_cons]; omega

def lossyText (bytes : List UInt8) : String := String.ofList (lossyPart bytes)

end RoutePattern.Utf8
