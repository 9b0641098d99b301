/-!
# `ValueGrammar.Log` — what is worth telling an operator

Entries are values: operations return the entries they made next to their answer.
-/

namespace ValueGrammar

/-- How important an entry is. -/
inductive LogLevel where
  | debug
  | info
  | warn
  deriving Repr, DecidableEq, Inhabited

namespace LogLevel

/-- The name of a level. -/
def text : LogLevel → String
  | .debug => "debug"
  | .info => "info"
  | .warn => "warn"

end LogLevel

/-- The value of a field. -/
inductive LogValue where
  | text (value : String)
  | number (value : Int)
  deriving Repr, DecidableEq, Inhabited

/-- A message with named values. -/
structure LogEntry where
  level : LogLevel
  message : String
  fields : List (String × LogValue)
  deriving Repr, DecidableEq, Inhabited

end ValueGrammar
