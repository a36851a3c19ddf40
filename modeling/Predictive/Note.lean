/-!
# Notes

What an operation tells about its progress, beside its result.
-/

namespace Predictive

/-- The weight of a note, from a warning down to a trace. -/
inductive Level where
  | warn
  | info
  | debug
  | trace
deriving DecidableEq, Inhabited

namespace Level

def name : Level → String
  | warn => "WARN"
  | info => "INFO"
  | debug => "DEBUG"
  | trace => "TRACE"

/-- The position of a level, the heaviest first. -/
def rank : Level → Nat
  | warn => 0
  | info => 1
  | debug => 2
  | trace => 3

/-- Whether notes of level `l` are shown where the lightest level shown is `shown`. -/
def within (l shown : Level) : Bool := l.rank ≤ shown.rank

end Level

/-- A line about the progress of an operation. -/
structure Note where
  level : Level
  text : String
deriving DecidableEq, Inhabited

namespace Note

def warn (text : String) : Note := ⟨.warn, text⟩

def info (text : String) : Note := ⟨.info, text⟩

def debug (text : String) : Note := ⟨.debug, text⟩

def trace (text : String) : Note := ⟨.trace, text⟩

end Note

end Predictive
