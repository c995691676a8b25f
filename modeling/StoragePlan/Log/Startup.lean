import StoragePlan.Environment
import StoragePlan.Files
import StoragePlan.Log.Fanout
import StoragePlan.Text

/-!
# Log files

A log file has one line for each record, a JSON object. A program has one logger, which is
registered once. Starting the log empties the log file first, if there is one, and then registers
the logger.
-/

namespace StoragePlan

/-- A record as it is in a log file. -/
structure LogEntry where
  /-- How important the record is. -/
  level : Level
  /-- The module that wrote it. -/
  target : String
  /-- The text. -/
  message : String
  /-- The file and line that wrote it, if known. -/
  location : Option (String × Nat) := none
  deriving DecidableEq, Repr

namespace LogEntry

/-- The line for the record. -/
def line (e : LogEntry) : String :=
  Json.object <| [("level", e.level.name), ("target", e.target), ("message", e.message)] ++
    e.location.toList.map fun (file, line) => ("location", s!"{file}:{line}")

/-- What a log file holds after some records. -/
def content (entries : List LogEntry) : String := String.join (entries.map fun e => e.line ++ "\n")

end LogEntry

end StoragePlan

namespace StoragePlan.LogSettings

/-- The complaint when a logger has been registered before. -/
def alreadyRegistered : String :=
  "attempted to set a logger after the logging system was already initialized"

/-- The failure to start, because of something else. -/
def startFailure (cause : String) : Failure := ⟨.initializeLogger, [], [cause]⟩

/-- The files once the log file is empty. -/
def emptyFile (s : LogSettings) (files : Files) : Except Failure Files :=
  match s.file with
  | none => .ok files
  | some path =>
    match files.writeText path "" with
    | .ok files => .ok files
    | .error cause => .error (startFailure cause.message)

/-- Starts the log; `registered` tells whether there is a logger already. Gives the files afterwards
and whether it succeeded. -/
def start (s : LogSettings) (registered : Bool) (files : Files) : Files × Except Failure Unit :=
  match s.emptyFile files with
  | .error f => (files, .error f)
  | .ok files => (files, if registered then .error (startFailure alreadyRegistered) else .ok ())

end StoragePlan.LogSettings
