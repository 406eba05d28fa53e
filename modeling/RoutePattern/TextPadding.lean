/-! # Padding and cutting text, counted in code points -/
namespace RoutePattern.TextPadding

inductive Alignment where
  | left | right | center
  deriving DecidableEq

def spread (fill : Char) (n : Nat) : String := String.ofList (List.replicate n fill)

/-- An odd fill character of centred text goes to the right. -/
def pad (fill : Char) (align : Alignment) (width : Nat) (text : String) : String :=
  let missing := width - text.length
  match align with
  | .left => text ++ spread fill missing
  | .right => spread fill missing ++ text
  | .center => spread fill (missing / 2) ++ text ++ spread fill (missing - missing / 2)

def cut (limit : Option Nat) (text : String) : String :=
  limit.elim text fun n => String.ofList (text.toList.take n)

def padLeft (width : Nat) (text : String) : String := pad ' ' .right width text

def padRight (width : Nat) (text : String) : String := pad ' ' .left width text

end RoutePattern.TextPadding
