/-
Log records.

* `Level`: how much a record matters.
* `LogRecord`: what is logged: a level, the part of the program that logs it, a message, and named
  values.
* `LogRecord.line`: the record with its target, as a line.
-/
namespace Externalize

/-- The levels, the weightiest first. -/
inductive Level where
  | error
  | warn
  | info
  | debug
  | trace
deriving DecidableEq

namespace Level

/-- How far a level is from the weightiest one. -/
def depth : Level → Nat
  | error => 0
  | warn => 1
  | info => 2
  | debug => 3
  | trace => 4

/-- The name of a level, in five columns. -/
def label : Level → String
  | error => "ERROR"
  | warn => " WARN"
  | info => " INFO"
  | debug => "DEBUG"
  | trace => "TRACE"

end Level

/-- A record: its level, the part of the program that it comes from, its message and the values
that go with it. -/
structure LogRecord where
  level : Level
  target : String
  message : String
  fields : List (String × String) := []
deriving DecidableEq

namespace LogRecord

/-- The record with its target and without its values. -/
def line (r : LogRecord) : String := s!"{r.level.label} {r.target}: {r.message}"

end LogRecord

end Externalize
