import StoragePlan.Vocabulary.Named

/-!
# The log

What a session reports while it works: records with a level and a line of text. Records are
collected in the order they are written, and a fanout passes them on to listeners.
-/

namespace StoragePlan

/-! ### Levels

Levels are ordered by how much they let through, from nothing (`off`) to everything (`trace`). -/

/-- The levels of log records and of filters on them. -/
inductive Level where
  /-- As a filter: nothing passes. -/
  | off
  | error
  | warn
  | info
  | debug
  | trace
  deriving DecidableEq, Repr

namespace Level

/-- The word for a level in a configuration. -/
def name : Level → String
  | off => "off"
  | error => "error"
  | warn => "warn"
  | info => "info"
  | debug => "debug"
  | trace => "trace"

instance : Named Level where
  all := [off, error, warn, info, debug, trace]
  name := name

/-- The word for a level in front of a record. -/
def label : Level → String
  | off => "OFF"
  | error => "ERROR"
  | warn => "WARN"
  | info => "INFO"
  | debug => "DEBUG"
  | trace => "TRACE"

/-- How much passes a filter of this level. -/
def rank : Level → Nat
  | off => 0
  | error => 1
  | warn => 2
  | info => 3
  | debug => 4
  | trace => 5

/-- Whether a record of level `l` passes a filter of level `filter`. -/
def passes (l filter : Level) : Bool := l.rank ≤ filter.rank

end Level

/-! ### Records -/

/-- A line of the log. -/
structure Record where
  /-- How important the line is. -/
  level : Level
  /-- The line. -/
  message : String
  deriving DecidableEq, Repr

/-- The records written so far, in order. -/
abbrev Log := Array Record

namespace Log

/-- The log after more records. -/
def write (log : Log) (records : List Record) : Log := log ++ records.toArray

end Log

/-! ### Several listeners on one log

A fanout passes every record on to all listeners that want records of its level, unless it is above
the level of the fanout itself. -/

/-- Listeners to a log. -/
structure Fanout where
  /-- The level that all records have to pass. -/
  maxLevel : Level := .trace
  /-- The level of each listener. -/
  listeners : List Level
  deriving DecidableEq, Repr

namespace Fanout

/-- Whether records of a level reach any listener. -/
def accepts (f : Fanout) (level : Level) : Bool :=
  level.passes f.maxLevel && f.listeners.any level.passes

/-- The records that reach a listener of the given level. -/
def delivered (f : Fanout) (listener : Level) (records : List Record) : List Record :=
  records.filter fun r => r.level.passes f.maxLevel && r.level.passes listener

end Fanout

end StoragePlan
