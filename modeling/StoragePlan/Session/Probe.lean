import StoragePlan.Session.Storing

/-!
# Probing

Probing finds out what devices the system has and makes that both `probed` and `staging`. Where the
answer comes from is a matter of the environment and of the prober. It is checked, so that `probed`
always follows the rules.
-/

namespace StoragePlan

/-- Who knows the devices of the system. -/
inductive Prober where
  /-- It answers with a copy of a devicegraph. -/
  | copying (g : Devicegraph)
  /-- It fails, with the texts of what went wrong, outermost first. -/
  | failing (causes : List String)
  /-- It reads a saved devicegraph. -/
  | file (path : String)

namespace Command

/-- The fault of a prober, with what led to it. -/
def proberFailed {α : Type} (causes : List String) : Command α := throw ⟨.probe, [], causes⟩

/-- Reads a saved devicegraph as an answer. A failure is put under the headings. -/
def probeFile (headings : List String) (path : String) : Command Devicegraph :=
  (readGraph path).mapFailure fun f =>
    ⟨.probe, [], headings ++ f.chain "Failed to read probed devicegraph"⟩

/-- Asks a prober. -/
def askProber : Prober → Command Devicegraph
  | .copying g => do
    write g.copyRecords
    return g
  | .failing causes => proberFailed causes
  | .file path => probeFile [] path

/-- The devices of the system, according to the probe mode. -/
def findDevices (prober : Prober) : ProbeMode → Command Devicegraph
  | .standard => askProber prober
  | .none => return .empty
  | .readDevicegraph path => probeFile [s!"Probe mode reads '{path}'"] path

/-- Checks the answer of a prober. -/
def checkProbed (g : Devicegraph) : Command Unit := do
  write g.checkRecords
  (lift g.check).mapFailure fun f =>
    ⟨.inconsistentProbe, [], f.chain "Probed devicegraph failed the check"⟩

/-- Probes the system. -/
def probe (prober : Prober) : Command Unit := do
  log .info "Probing storage"
  let g ← findDevices prober (← get).environment.probeMode
  checkProbed g
  log .debug s!"Probed {g.numDevices} devices"
  write g.copyRecords
  modify fun s => { s with probed := g, staging := g }

end Command

end StoragePlan
