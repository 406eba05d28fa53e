import RoutePattern.PatternScanner

/-!
# Sessions with a scanner

A session runs commands on one scanner, can keep and bring back an earlier one, and collects events.
-/
namespace RoutePattern

inductive Command where
  | scan | peek | next | drain | save | restore
  | reset (pattern : List UInt8)
  deriving DecidableEq

inductive Reply where
  | token (t : Token)
  | failure (e : Failure)
  | tokens (ts : List Token)
  | restored (b : Bool)
  | done
  deriving DecidableEq

structure Session where
  scanner : Scanner
  saved : Option Scanner
  events : List Event
  deriving DecidableEq

def Reply.ofResult : Except Failure Token → Reply
  | .ok t => token t
  | .error e => failure e

namespace Session

def start (pattern : List UInt8) : Session := ⟨.start pattern, none, [.reset pattern.length]⟩

def run (s : Session) : Command → Reply × Session
  | .scan =>
    let step := s.scanner.step
    (.token step.token, { s with scanner := step.scanner, events := s.events ++ step.events })
  | .peek =>
    let step := s.scanner.step
    (.token step.token, { s with events := s.events ++ step.events })
  | .next =>
    let step := s.scanner.step
    (.ofResult step.result, { s with scanner := step.scanner, events := s.events ++ step.events })
  | .drain =>
    let steps := s.scanner.drain
    (.tokens (steps.map Step.token),
      { s with scanner := s.scanner.afterAll steps, events := s.events ++ steps.flatMap Step.events })
  | .save => (.done, { s with saved := some s.scanner })
  | .restore => match s.saved with
    | some saved => (.restored true, { s with scanner := saved })
    | none => (.restored false, s)
  | .reset pattern =>
    (.done, { s with scanner := .start pattern, events := s.events ++ [.reset pattern.length] })

/-- The replies to a list of commands, each with the session after it. -/
def runAll (s : Session) : List Command → List (Reply × Session)
  | [] => []
  | c :: cs => let answer := s.run c; answer :: answer.2.runAll cs

end Session
end RoutePattern
