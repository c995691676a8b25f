import StoragePlan.Devicegraph.Render
import StoragePlan.Session.Basic

/-!
# Saving and loading in a session
-/

namespace StoragePlan

namespace Command

/-- Fails with the fault, because of a file. -/
def failWith {α : Type} (fault : InputFault) (cause : FileFault) : Command α :=
  throw { (↑fault : Failure) with causes := [cause.message] }

/-- Writes a file. -/
def writeFile (fault : InputFault) (path text : String) : Command Unit := do
  match (← get).files.writeText path text with
  | .ok files => modify fun s => { s with files }
  | .error cause => failWith fault cause

/-- Reads a devicegraph from a file. -/
def readGraph (path : String) : Command Devicegraph := do
  log .debug s!"Loading devicegraph from '{path}'"
  match (← get).files.readText path with
  | .ok text =>
    draft ((Edit.loadText text).within s!"Failed to load devicegraph from '{path}'")
  | .error cause => failWith (.loadDevicegraph path) cause

/-- Puts what `read` gives in place of the devicegraph with a name, which stays if `read` fails;
tells how many devices there are. -/
def replaceGraph (name : String) (read : Command Devicegraph) : Command Nat := do
  let _ ← lift ((← get).graphForChange name)
  let g ← read
  modify (·.setGraph name g)
  return g.numDevices

/-- Loads the text of a document in place of a devicegraph. -/
def loadText (name text : String) : Command Nat := replaceGraph name (draft (Edit.loadText text))

/-- Loads a file in place of a devicegraph. -/
def load (name path : String) : Command Nat := replaceGraph name (readGraph path)

/-- Saves a devicegraph to a file. -/
def save (name path : String) : Command Unit := do
  let g ← graph name
  log .debug s!"Saving devicegraph to '{path}'"
  writeFile (.saveDevicegraph path) path g.document.text

/-- Writes the drawing of a devicegraph to a file. -/
def draw (name path : String) : Command Unit := do
  writeFile (.saveDevicegraph path) path (← graph name).dot

end Command

end StoragePlan
