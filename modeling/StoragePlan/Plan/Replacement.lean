import StoragePlan.Plan.Action

/-!
# Devices that have to be replaced

Most changes of a device that is in both devicegraphs are made in place. An `Obstacle` is a
difference that cannot be, and then the device is deleted and created again. So is everything on it,
before or after, and the logical partitions of an extended one.
-/

namespace StoragePlan

/-- Why a device cannot be changed in place. -/
inductive Obstacle where
  | moved
  | tableType
  | partitionType
  | renamed
  | startMoved
  | filesystemType
  | cannotGrow
  | cannotShrink
  | deviceKind
  deriving DecidableEq, Repr

namespace Obstacle

/-- The reason in words. -/
def text : Obstacle → String
  | moved => "moved to another device"
  | tableType => "partition table type changed"
  | partitionType => "partition type changed"
  | renamed => "partition renamed"
  | startMoved => "partition start moved"
  | filesystemType => "filesystem type changed"
  | cannotGrow => "filesystem cannot grow"
  | cannotShrink => "filesystem cannot shrink"
  | deviceKind => "device kind changed"

/-- What keeps a partition from being changed in place. -/
def ofPartition? (old new : Partition) : Option Obstacle :=
  if old.type ≠ new.type then some partitionType
  else if old.name ≠ new.name then some renamed
  else if old.region.start ≠ new.region.start ∨ old.region.sectorSize ≠ new.region.sectorSize then
    some startMoved
  else none

/-- What keeps a filesystem of a type from following a resize. -/
def ofResize? (fsType : FsType) : Option ResizeMode → Option Obstacle
  | some .grow => if fsType.supportsGrow then none else some cannotGrow
  | some .shrink => if fsType.supportsShrink then none else some cannotShrink
  | none => none

end Obstacle

namespace Plan

/-- How a filesystem has to follow its partition, if that is resized. -/
def filesystemResize? (lhs rhs : Devicegraph) (sid : Sid) : Except Failure (Option ResizeMode) := do
  let device ← rhs.filesystemBlkDevice sid
  return match lhs.partition device, rhs.partition device with
    | .ok old, .ok new => ResizeMode.between? old.region.length new.region.length
    | _, _ => none

/-- Why the device cannot be changed in place from what it is in `lhs` to what it is in `rhs`. -/
def obstacle? (lhs rhs : Devicegraph) (old new : Device) : Except Failure (Option Obstacle) := do
  if (← lhs.parents new.sid) ≠ (← rhs.parents new.sid) then return some .moved
  match old.attributes, new.attributes with
  | .disk _, .disk _ => return none
  | .partitionTable old, .partitionTable new =>
    return if old.ptType ≠ new.ptType then some .tableType else none
  | .partition old, .partition new => return Obstacle.ofPartition? old new
  | .filesystem o, .filesystem n =>
    if o.fsType ≠ n.fsType then return some .filesystemType
    return Obstacle.ofResize? n.fsType (← filesystemResize? lhs rhs new.sid)
  | _, _ => return some .deviceKind

/-- The devices in both devicegraphs that cannot be changed in place, and why. -/
def hindered (lhs rhs : Devicegraph) : Except Failure (List (Device × Obstacle)) := do
  let found ← rhs.devices.mapM fun new => do
    match lhs.find? new.sid with
    | none => return none
    | some old => return (← obstacle? lhs rhs old new).map (new, ·)
  return found.filterMap id

/-- The logical partitions that go with a device, being those of an extended partition. -/
def dependentLogicals (lhs : Devicegraph) (sid : Sid) : Except Failure (List Sid) := do
  if (← lhs.find sid).kind = .partition then lhs.logicalPartitionsOf sid else return []

/-- Everything on a device, in one devicegraph or the other. -/
def dependents (lhs rhs : Devicegraph) (sid : Sid) : Except Failure (List Sid) := do
  return (← rhs.descendants sid false) ++ (← lhs.descendants sid false)

/-- The devices in both devicegraphs that have to be replaced. -/
def replaced (lhs rhs : Devicegraph) : Except Failure (List Sid) := do
  let common := fun sid => lhs.contains sid && rhs.contains sid
  let direct := (← hindered lhs rhs).map fun (d, _) => d.sid
  let logicals ← direct.mapM (dependentLogicals lhs)
  let inner := SidList.union direct (logicals.flatten.filter common)
  let outer ← inner.mapM (dependents lhs rhs)
  return SidList.union inner (outer.flatten.filter common)

end Plan

end StoragePlan
