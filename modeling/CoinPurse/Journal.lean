/-!
# Journals

What happens is also told in lines, each with a level. The lines are computed from what happened; no
operation has to write them as it goes.
-/

namespace CoinPurse

/-- How much a line matters. -/
inductive Level where
  | debug
  | info
  | warn
  | error
  deriving DecidableEq, Repr

namespace Level

/-- The level as it stands before a line. -/
def name : Level → String
  | debug => "DEBUG"
  | info => "INFO"
  | warn => "WARN"
  | error => "ERROR"

end Level

/-- A line of a journal. -/
structure Line where
  /-- how much it matters -/
  level : Level
  /-- what it says -/
  text : String
  deriving DecidableEq, Repr

namespace Line

/-- The line with its level in front. -/
def render (l : Line) : String := s!"{l.level.name} {l.text}"

/-- Whether the line matters to someone who does not look for defects. -/
def isProminent (l : Line) : Bool := l.level != .debug

end Line

end CoinPurse
