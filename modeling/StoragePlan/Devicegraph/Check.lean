import StoragePlan.Devicegraph.Cycle
import StoragePlan.Devicegraph.Placement

/-!
# Checking a whole devicegraph

Editing keeps a devicegraph valid, so only one from elsewhere has to be checked: a loaded document
or the result of a prober. `check` reports the first finding, in this order: shadowed devices,
cycles, holders, names, partitions. A label that does not fit its filesystem is only a warning
(`labelWarnings`).
-/

namespace StoragePlan.Devicegraph

/-- Every device answers to its sid. -/
def checkIndex (g : Devicegraph) : Except Failure Unit :=
  if g.nodes.all fun n => n.depth == 0 then .ok ()
  else .error ↑(Fault.internal "Sid index does not cover all devices")

/-- No device sits on itself, directly or not. -/
def checkAcyclic (g : Devicegraph) : Except Failure Unit :=
  if g.acyclic then .ok () else .error ↑(TopologyFault.cycle g.cycleSid)

/-- The edge into a device comes from a parent of the right kind and is of the right kind. -/
def checkEdge (g : Devicegraph) (child : Device) (e : Edge) : Except Failure Unit := do
  if let some parent := g.node? e.source then
    let kind := parent.device.kind
    if !child.kind.validParents.contains kind then
      throw ↑(TopologyFault.invalidParentKind child.kind e.source.sid kind child.kind.validParents)
    if e.kind ≠ child.kind.parentHolderKind then
      throw ↑(TopologyFault.invalidHolderKind e.source.sid child.sid e.kind
        child.kind.parentHolderKind)

/-- A device has the parents and children that its kind needs. -/
def checkDevice (g : Devicegraph) (d : Device) : Except Failure Unit := do
  let above := g.edgesAt .up ⟨d.sid, 0⟩
  above.forM (g.checkEdge d)
  if !d.kind.validParentCount.contains above.length then
    throw ↑(TopologyFault.invalidParentCount d.sid d.kind above.length d.kind.validParentCount)
  let below := g.edgesAt .down ⟨d.sid, 0⟩
  if !d.kind.validChildren.contains below.length then
    throw ↑(TopologyFault.tooManyChildren d.sid d.kind below.length d.kind.validChildren)

/-- All devices have the parents and children that their kinds need. -/
def checkHolders (g : Devicegraph) : Except Failure Unit := g.devices.forM g.checkDevice

/-- The first name that is in the list twice. -/
def repeated? : List String → List String → Option String
  | _, [] => none
  | seen, name :: rest => if name ∈ seen then some name else repeated? (name :: seen) rest

/-- No two block devices have one name. -/
def checkNames (g : Devicegraph) : Except Failure Unit :=
  match repeated? [] (g.devices.filterMap Device.name?) with
  | some name => .error ↑(TopologyFault.duplicateName name)
  | none => .ok ()

/-- Every partition may be where it is. -/
def checkPartitions (g : Devicegraph) : Except Failure Unit :=
  (g.allOfKind .partition).forM fun sid => do
    g.checkPartitionPlacement (← g.singleParent sid) (← g.partition sid) (some sid)

/-- The devicegraph follows all rules. -/
def check (g : Devicegraph) : Except Failure Unit := do
  g.checkIndex
  g.checkAcyclic
  g.checkHolders
  g.checkNames
  g.checkPartitions

/-- The warning about a label that the filesystem cannot store. -/
def labelWarning? (d : Device) : Option String :=
  match d.attributes with
  | .filesystem fs =>
    if fs.labelFits then none
    else some <| s!"Label '{fs.label}' of {d.description} exceeds the " ++
      s!"{fs.fsType.maxLabelSize} bytes {fs.fsType.name} can store"
  | _ => none

/-- The warnings about labels, by sid. -/
def labelWarnings (g : Devicegraph) : List String := g.devices.filterMap labelWarning?

end StoragePlan.Devicegraph
