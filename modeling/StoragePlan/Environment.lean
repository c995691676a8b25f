import StoragePlan.Failure
import StoragePlan.Keyed
import StoragePlan.Log.Fanout
import StoragePlan.Yaml.Field
import StoragePlan.Yaml.Reader
import StoragePlan.Yaml.Writer

/-!
# The environment of a session

What a session is told at its start: whether it may change the system, where the probed devicegraph
comes from, where the target system is, and what to log. An environment is read from a document in
which every entry may be missing.
-/

namespace StoragePlan

open Yaml

/-- Where the probed devicegraph comes from. -/
inductive ProbeMode where
  /-- From the prober. -/
  | standard
  /-- There are no devices. -/
  | none
  /-- From a saved devicegraph. -/
  | readDevicegraph (path : String)
  deriving DecidableEq, Repr

/-- Where the target system is. -/
inductive TargetMode where
  /-- It is the running system. -/
  | direct
  /-- It is mounted below a directory. -/
  | chroot (path : String)
  deriving DecidableEq, Repr

/-- What to log. -/
structure LogSettings where
  /-- The level for every module without one of its own. -/
  level : Level := .info
  /-- The levels of single modules. -/
  filters : Keyed Level := []
  /-- The file for the records, if there is one. -/
  file : Option String := .none
  deriving DecidableEq, Repr

/-- The settings of a session. -/
structure Environment where
  /-- Whether commits are refused. -/
  readOnly : Bool := false
  /-- Where the probed devicegraph comes from. -/
  probeMode : ProbeMode := .standard
  /-- Where the target system is. -/
  targetMode : TargetMode := .direct
  /-- What to log. -/
  logging : LogSettings := {}
  deriving DecidableEq, Repr

namespace TargetMode

/-- The directory that the mountpoints of the target system are below. -/
def root : TargetMode → String
  | direct => "/"
  | chroot path => path

end TargetMode

namespace ProbeMode

/-- Reads a probe mode: a word, or the tag for a path. -/
def ofTree? (n : Tree) : Option ProbeMode := do
  match ← n.word? with
  | ("standard", argument) => if argument.all Tree.isNull then some .standard else failure
  | ("none", argument) => if argument.all Tree.isNull then some .none else failure
  | ("read-devicegraph", some argument) => return .readDevicegraph (← argument.string?)
  | _ => failure

/-- The tree of a probe mode. -/
def toTree : ProbeMode → Tree
  | standard => .plain "standard"
  | none => .plain "none"
  | readDevicegraph path => .scalar (some "!read-devicegraph") (needsQuotes path) path

end ProbeMode

namespace TargetMode

/-- Reads a target mode: a word, or the tag for a path. -/
def ofTree? (n : Tree) : Option TargetMode := do
  match ← n.word? with
  | ("direct", argument) => if argument.all Tree.isNull then some .direct else failure
  | ("chroot", some argument) => return .chroot (← argument.string?)
  | _ => failure

/-- The tree of a target mode. -/
def toTree : TargetMode → Tree
  | direct => .plain "direct"
  | chroot path => .scalar (some "!chroot") (needsQuotes path) path

end TargetMode

namespace LogSettings

/-- Reads the levels of modules; of two entries for one module the later counts. -/
def filters? (n : Tree) : Option (Keyed Level) := do
  return Keyed.ofPairs (← (← n.entries?).mapM fun (k, v) => do return (k, ← v.named?))

/-- Reads what to log. -/
def ofTree? (n : Tree) : Option LogSettings := do
  let fields ← fields? ["level", "filters", "log-file"] true (← n.entries?)
  return {
    level := ← optional? "level" Tree.named? .info fields
    filters := ← optional? "filters" filters? [] fields
    file := ← optional? "log-file" (Tree.option? Tree.string?) .none fields }

/-- The tree of what to log. -/
def toTree (s : LogSettings) : Tree :=
  .map none <| [(.plain "level", .plain s.level.name)] ++
    (if s.filters.isEmpty then []
      else [(.plain "filters", .map none (s.filters.map fun (k, l) =>
        (.ofString k, .plain l.name)))]) ++
    s.file.toList.map fun path => (.plain "log-file", .ofString path)

/-- Reads what to log from the text of a document. -/
def ofText? (text : String) : Option LogSettings := do ofTree? (← Tree.ofText? text)

end LogSettings

namespace Environment

/-- Reads an environment. -/
def ofTree? (n : Tree) : Option Environment := do
  let fields ← fields? ["read-only", "probe-mode", "target-mode", "logging"] true (← n.entries?)
  return {
    readOnly := ← optional? "read-only" Tree.bool? false fields
    probeMode := ← optional? "probe-mode" ProbeMode.ofTree? .standard fields
    targetMode := ← optional? "target-mode" TargetMode.ofTree? .direct fields
    logging := ← optional? "logging" LogSettings.ofTree? {} fields }

/-- The tree of an environment. -/
def toTree (e : Environment) : Tree :=
  .map none [(.plain "read-only", .plain (if e.readOnly then "true" else "false")),
    (.plain "probe-mode", e.probeMode.toTree), (.plain "target-mode", e.targetMode.toTree),
    (.plain "logging", e.logging.toTree)]

/-- The text of an environment. -/
def text (e : Environment) : String := e.toTree.text

/-- Reads an environment from the text of a document. -/
def ofText (text : String) : Except Failure Environment :=
  match (Tree.ofText? text).bind ofTree? with
  | some e => .ok e
  | none => .error { (↑InputFault.parseConfiguration : Failure) with causes := [malformed] }

end Environment

end StoragePlan
