import StoragePlan.Editor.Create
import StoragePlan.Environment
import StoragePlan.Files

/-!
# Sessions

A session holds devicegraphs by name. `probed` is the system as it was found or last committed and
`staging` the system as it should be; both always exist. The caller can add further ones. Only
probing and committing change `probed`.

All devicegraphs of a session share one supply of sids, one log and the files.
-/

namespace StoragePlan

/-- The state of a session. -/
structure Session where
  /-- The settings. -/
  environment : Environment := {}
  /-- The system as it was found or last committed. -/
  probed : Devicegraph := {}
  /-- The system as it should be. -/
  staging : Devicegraph := {}
  /-- The devicegraphs that the caller made. -/
  others : Keyed Devicegraph := []
  /-- The sids for new devices. -/
  supply : SidSupply := {}
  /-- The log. -/
  log : Log := #[]
  /-- The files that were written. -/
  files : Files := {}

/-- A step on a session. -/
abbrev Command := Step Session

namespace Session

/-- The name of the devicegraph of the system as it is. -/
def probedName : String := "probed"

/-- The name of the devicegraph of the system as it should be. -/
def stagingName : String := "staging"

/-- The devicegraph with a name. -/
def graph (s : Session) (name : String) : Except Failure Devicegraph :=
  if name = probedName then .ok s.probed
  else if name = stagingName then .ok s.staging
  else
    match s.others.get? name with
    | some g => .ok g
    | none => .error ↑(MissingFault.devicegraph name)

/-- The devicegraph with a name, for changes. -/
def graphForChange (s : Session) (name : String) : Except Failure Devicegraph :=
  if name = probedName then .error ↑(InputFault.reservedDevicegraph name) else s.graph name

/-- Whether there is a devicegraph with the name. -/
def hasGraph (s : Session) (name : String) : Bool :=
  name == probedName || name == stagingName || (s.others.get? name).isSome

/-- The names of all devicegraphs, ascending. -/
def graphNames (s : Session) : List String :=
  (probedName :: stagingName :: s.others.map Prod.fst).mergeSort fun a b => a ≤ b

/-- The session with another devicegraph under a name of the caller or as `staging`. -/
def setGraph (s : Session) (name : String) (g : Devicegraph) : Session :=
  if name = stagingName then { s with staging := g }
  else { s with others := s.others.insert name g }

/-- The session after more records. -/
def write (s : Session) (records : List Record) : Session := { s with log := s.log.write records }

/-- An editor for a devicegraph, with the supply and the log of the session. -/
def editor (s : Session) (g : Devicegraph) : Editor := ⟨g, s.supply, s.log⟩

/-- The session with the supply and the log of an editor. -/
def adopt (s : Session) (e : Editor) : Session := { s with supply := e.supply, log := e.log }

end Session

namespace Command

/-- The result of something that may fail. -/
def lift {α : Type} : Except Failure α → Command α
  | .ok a => pure a
  | .error f => throw f

/-- Writes to the log. -/
def write (records : List Record) : Command Unit := modify (·.write records)

/-- Writes one record to the log. -/
def log (level : Level) (message : String) : Command Unit := write [⟨level, message⟩]

/-- Takes the log; it is empty then. -/
def takeLog : Command Log := modifyGet fun s => (s.log, { s with log := #[] })

/-- The devicegraph with a name. -/
def graph (name : String) : Command Devicegraph := do lift ((← get).graph name)

/-- Asks the devicegraph with a name. -/
def ask {α : Type} (name : String) (question : Devicegraph → Except Failure α) : Command α := do
  lift (question (← graph name))

/-- Edits the devicegraph with a name. -/
def edit {α : Type} (name : String) (e : Edit α) : Command α := fun s =>
  match s.graphForChange name with
  | .error f => .error f s
  | .ok g =>
    match e (s.editor g) with
    | .ok a e => .ok a ((s.adopt e).setGraph name e.graph)
    | .error f e => .error f ((s.adopt e).setGraph name e.graph)

/-- Makes a devicegraph by editing an empty one. -/
def draft (e : Edit Unit) : Command Devicegraph := fun s =>
  match e (s.editor .empty) with
  | .ok () e => .ok e.graph (s.adopt e)
  | .error f e => .error f (s.adopt e)

/-- Checks the devicegraph with a name. -/
def check (name : String) : Command Unit := do
  let g ← graph name
  write g.checkRecords
  lift g.check

/-! ### The devicegraphs of the session -/

/-- Fails if the name is taken. -/
def checkNameFree (name : String) : Command Unit := do
  if (← get).hasGraph name then throw ↑(InputFault.devicegraphExists name)

/-- Adds an empty devicegraph. -/
def createGraph (name : String) : Command Unit := do
  checkNameFree name
  log .debug s!"Creating devicegraph '{name}'"
  modify (·.setGraph name .empty)

/-- Copies a devicegraph under a new name. -/
def copyGraph (source dest : String) : Command Unit := do
  checkNameFree dest
  let g ← graph source
  write g.copyRecords
  log .debug s!"Copying devicegraph '{source}' to '{dest}'"
  modify (·.setGraph dest g)

/-- Removes a devicegraph that the caller made. -/
def removeGraph (name : String) : Command Unit := do
  if name = Session.probedName ∨ name = Session.stagingName then
    throw ↑(InputFault.reservedDevicegraph name)
  let _ ← graph name
  modify fun s => { s with others := s.others.erase name }
  log .debug s!"Removed devicegraph '{name}'"

/-- Makes `staging` a copy of a devicegraph. -/
def restoreGraph (name : String) : Command Unit := do
  let g ← graph name
  write g.copyRecords
  modify fun s => { s with staging := g }
  log .debug s!"Restored staging devicegraph from '{name}'"

end Command

end StoragePlan
