import RoutePattern.CodePointRanges

/-!
# Quoted text

Text in double quotes on one line. Quotes and backslashes are escaped, and code points without a
visible form are written as an escape letter or as `\x`, `\u` or `\U` with 2, 4 or 8 hexadecimal digits.
-/
namespace RoutePattern.QuotedText

def isPrintable (c : Char) : Bool :=
  if c.toNat < 128 then 0x20 ≤ c.toNat && c.toNat ≠ 0x7F else !unprintableRanges.has c

def hexDigit (n : Nat) : Char := Char.ofNat (if n < 10 then 0x30 + n else 0x57 + n)

/-- The last digits of a number, least significant last. -/
def hexDigits : Nat → Nat → List Char
  | 0, _ => []
  | digits + 1, n => hexDigits digits (n / 16) ++ [hexDigit (n % 16)]

def escapeLetter? : Char → Option Char
  | '\x22' => some '\x22' | '\x5c' => some '\x5c'
  | '\x07' => some 'a' | '\x08' => some 'b' | '\x0c' => some 'f' | '\x0b' => some 'v'
  | '\n' => some 'n' | '\r' => some 'r' | '\t' => some 't'
  | _ => none

def escape (c : Char) : List Char :=
  match escapeLetter? c with
  | some letter => ['\x5c', letter]
  | none =>
    if isPrintable c then [c]
    else if c.toNat < 0x80 then '\x5c' :: 'x' :: hexDigits 2 c.toNat
    else if c.toNat < 0x10000 then '\x5c' :: 'u' :: hexDigits 4 c.toNat
    else '\x5c' :: 'U' :: hexDigits 8 c.toNat

def quote (s : String) : String :=
  String.ofList ('\x22' :: s.toList.flatMap escape ++ ['\x22'])

end RoutePattern.QuotedText
