import StoragePlan.Devicegraph.Navigation

/-!
# Where devices may be placed

The rules for a new device on a parent (`checkPlacement`) and for a new or changed partition in its
table (`checkPartitionPlacement`). The first rule that is broken is reported.
-/

namespace StoragePlan.Devicegraph

/-- A device of the kind may be put on the parent: the parent is of a kind for it and has room. -/
def checkPlacement (g : Devicegraph) (parent : Sid) (child : DeviceKind) :
    Except Failure Unit := do
  let parentKind := (← g.find parent).kind
  if !child.validParents.contains parentKind then
    throw ↑(TopologyFault.invalidParentKind child parent parentKind child.validParents)
  let count := (← g.children parent).length + 1
  if !parentKind.validChildren.contains count then
    throw ↑(TopologyFault.tooManyChildren parent parentKind count parentKind.validChildren)

/-- The candidate shares no sectors with any of the others. -/
def checkNoOverlap (candidate : Partition) (others : List Partition) : Except Failure Unit :=
  others.forM fun other => do
    if ← ofRegion (candidate.region.overlaps other.region) then
      throw ↑(TopologyFault.regionOverlap candidate.name candidate.region other.name other.region)

/-- The logical partition lies inside the extended one, if there is any. -/
def checkInsideExtended (logical : Partition) : Option Region → Except Failure Unit
  | none => .error ↑(TopologyFault.missingExtendedPartition logical.name)
  | some extended => do
    if !(← ofRegion (extended.contains logical.region)) then
      throw ↑(TopologyFault.logicalOutsideExtended logical.name logical.region extended)

/-- The candidate gets along with the other partitions of its table. -/
def checkSiblings (table : PtType) (candidate : Partition) (siblings : List Partition) :
    Except Failure Unit := do
  let logicals := siblings.filter fun p => p.type == .logical
  let others := siblings.filter fun p => p.type != .logical
  let extended? := siblings.find? fun p => p.type == .extended
  match candidate.type with
  | .logical =>
    checkInsideExtended candidate (extended?.map Partition.region)
    checkNoOverlap candidate logicals
  | .primary | .extended =>
    if table.maxPrimary < others.length + 1 then
      throw ↑(TopologyFault.tooManyPrimaryPartitions table table.maxPrimary)
    if candidate.type = .extended then
      if let some existing := extended? then
        throw ↑(TopologyFault.duplicateExtendedPartition candidate.name existing.name)
    checkNoOverlap candidate others
    let extended :=
      if candidate.type = .extended then some candidate.region else extended?.map Partition.region
    logicals.forM fun logical => checkInsideExtended logical extended

/-- The region of the candidate fits the disk: its sectors have the right size and end on it. -/
def checkFits (candidate : Partition) (disk : Disk) : Except Failure Unit := do
  if candidate.region.sectorSize ≠ disk.sectorSize then
    throw ↑(TopologyFault.sectorSizeMismatch candidate.name candidate.region.sectorSize
      disk.sectorSize)
  if let some extent := disk.extent? then
    if !(← ofRegion (extent.contains candidate.region)) then
      throw ↑(TopologyFault.regionOutsideParent candidate.name candidate.region extent)

/-- The candidate can be a partition of the table. When it stands for a changed partition,
`replaces` is the sid of that one, which then does not count as a sibling. -/
def checkPartitionPlacement (g : Devicegraph) (table : Sid) (candidate : Partition)
    (replaces : Option Sid) : Except Failure Unit := do
  if candidate.region.isEmpty then throw ↑(TopologyFault.emptyRegion candidate.name)
  let _ ← ofRegion candidate.region.stop
  let ptType := (← g.partitionTable table).ptType
  if !ptType.supports candidate.type then
    throw ↑(TopologyFault.unsupportedPartitionType candidate.name candidate.type ptType)
  checkFits candidate (← g.disk (← g.singleParent table))
  let siblings ← ((← g.children table).filter fun sid => some sid != replaces).mapM g.partition
  checkSiblings ptType candidate siblings

/-- No block device but the excepted one has the name. -/
def checkNameUnused (g : Devicegraph) (name : String) (except : Option Sid) :
    Except Failure Unit :=
  if g.devices.any fun d => d.name? == some name && some d.sid != except then
    .error ↑(TopologyFault.duplicateName name)
  else .ok ()

/-- The partitions on a disk fit a changed version of it. -/
def checkPartitionsFit (g : Devicegraph) (sid : Sid) (changed : Disk) : Except Failure Unit := do
  if let some table ← g.diskPartitionTable sid then
    (← g.partitions table).forM fun p => do checkFits (← g.partition p) changed

end StoragePlan.Devicegraph
