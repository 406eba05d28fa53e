/-!
# JSON values

Numbers written as plain integers are told apart from all others, and objects keep their members in the
order written, repeated names included.
-/
namespace RoutePattern

inductive JsonValue where
  | null
  | bool (b : Bool)
  | integer (n : Int)
  /-- A number with a fraction, an exponent, or a negative zero, as written. -/
  | decimal (digits : String)
  | string (s : String)
  | array (items : List JsonValue)
  | object (members : List (String × JsonValue))

namespace JsonValue

/-- The value of a member that occurs exactly once. -/
def member? (name : String) (members : List (String × JsonValue)) : Option JsonValue :=
  match members.filter (·.1 == name) with
  | [m] => some m.2
  | _ => none

/-- A natural number of 64 bits. -/
def word? : JsonValue → Option Nat
  | integer n => if 0 ≤ n && n.toNat < UInt64.size then some n.toNat else none
  | _ => none

def string? : JsonValue → Option String
  | string s => some s
  | _ => none

def listOf? {α : Type} (item? : JsonValue → Option α) : JsonValue → Option (List α)
  | array items => items.mapM item?
  | _ => none

def ofNat (n : Nat) : JsonValue := integer n

end JsonValue
end RoutePattern
