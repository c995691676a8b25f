import StoragePlan.Plan.Action

/-!
# Actions in words

Each action is told to people in one line, such as `Create ext4 on /dev/sda1`. Deletions and
unmounts speak of the device as it was before the plan, all others as it will be.
-/

namespace StoragePlan

namespace Devicegraph

/-- The name of a device for people. -/
def displayName (g : Devicegraph) (sid : Sid) : Except Failure String := do
  return (← g.find sid).displayName

/-- The name of the block device of a filesystem. -/
def blkDeviceName (g : Devicegraph) (sid : Sid) : Except Failure String := do
  g.displayName (← g.filesystemBlkDevice sid)

/-- A partition table and where it is. -/
def tablePhrase (g : Devicegraph) (sid : Sid) : Except Failure String := do
  let table ← g.partitionTable sid
  let disk ← g.displayName (← g.partitionTableDisk sid)
  return s!"{table.ptType.name} partition table on {disk}"

/-- A filesystem and where it is. -/
def filesystemPhrase (g : Devicegraph) (sid : Sid) : Except Failure String := do
  let fs ← g.filesystem sid
  let device ← g.blkDeviceName sid
  return s!"{fs.fsType.name} on {device}"

end Devicegraph

namespace Action

/-- The line for an action, with the device looked up in `g`; the size before a resize is that in
`lhs`. -/
def textIn (g lhs : Devicegraph) (a : Action) : Except Failure String :=
  let sid := a.sid
  match a.kind with
  | .nop => do return "Nothing to do for " ++ (← g.find sid).description
  | .createPartitionTable => do return "Create " ++ (← g.tablePhrase sid)
  | .deletePartitionTable => do return "Delete " ++ (← g.tablePhrase sid)
  | .createPartition => do
    let p ← g.partition sid
    return s!"Create {p.type.name} partition {p.name} at {p.region.text}"
  | .deletePartition => do return "Delete partition " ++ (← g.partition sid).name
  | .resizePartition mode => do
    let new ← g.partition sid
    let old ← lhs.partition sid
    return s!"{mode.text} partition {new.name} from {old.region.text} to {new.region.text}"
  | .setPartitionId => do
    let p ← g.partition sid
    return s!"Set id of partition {p.name} to 0x" ++ Numeral.hex 2 p.id
  | .setBoot => do
    let p ← g.partition sid
    return (if p.boot then "Set" else "Clear") ++ s!" boot flag of partition {p.name}"
  | .createFilesystem => do
    let fs ← g.filesystem sid
    let phrase ← g.filesystemPhrase sid
    return s!"Create {phrase}" ++ if fs.label.isEmpty then "" else s!" with label '{fs.label}'"
  | .deleteFilesystem => do return "Delete " ++ (← g.filesystemPhrase sid)
  | .resizeFilesystem mode => do return s!"{mode.text} " ++ (← g.filesystemPhrase sid)
  | .setLabel => do
    let fs ← g.filesystem sid
    let phrase ← g.filesystemPhrase sid
    return s!"Set label of {phrase} to '{fs.label}'"
  | .setUuid => do
    let fs ← g.filesystem sid
    let phrase ← g.filesystemPhrase sid
    return s!"Set UUID of {phrase} to " ++ (fs.uuid.map Uuid.text).getD "a random value"
  | .mount path => do
    let device ← g.blkDeviceName sid
    return if path = swapMountpoint then s!"Activate swap on {device}"
      else s!"Mount {device} at {path}"
  | .unmount path => do
    let device ← g.blkDeviceName sid
    return if path = swapMountpoint then s!"Deactivate swap on {device}"
      else s!"Unmount {device} at {path}"
  | .updateFstab => do return "Update fstab entries of " ++ (← g.blkDeviceName sid)

/-- The line for an action that does not fit its device. -/
def fallbackText (a : Action) : String := s!"{a.kind.name} of device {a.sid}"

/-- Whether the action is told with the device as it is before the plan. -/
def seenInBaseline (rhs : Devicegraph) (a : Action) : Bool :=
  a.kind.usesBaseline || !rhs.contains a.sid

/-- The line for an action on the way from `lhs` to `rhs`. -/
def text (lhs rhs : Devicegraph) (a : Action) : String :=
  match a.textIn (if a.seenInBaseline rhs then lhs else rhs) lhs with
  | .ok line => line
  | .error _ => a.fallbackText

end Action

end StoragePlan
