import StoragePlan.Plan.Replacement

/-!
# Chains of actions

Every device gets a chain of actions: one that deletes it, one that changes it in place or one that
creates it. A device that is replaced gets a chain that deletes it and one that creates it again.

The chains of a plan are laid out one after the other, first those that delete, then those that
change and then those that create, each by ascending sid. An action is known by its place in that
layout.
-/

namespace StoragePlan

/-- What a chain does with its device. -/
inductive Phase where
  | delete
  | change
  | create
  deriving DecidableEq, Repr

/-- The actions of one device, one after the other. -/
structure Chain where
  /-- What is done with the device. -/
  phase : Phase
  /-- The device. -/
  sid : Sid
  /-- The actions in order; there is at least one. -/
  kinds : List ActionKind
  /-- The place of the first action. -/
  first : Nat
  deriving DecidableEq, Repr

namespace Chain

/-- The place of the last action. -/
def last (c : Chain) : Nat := c.first + c.kinds.length - 1

/-- The actions of the chain. -/
def actions (c : Chain) : List Action :=
  c.kinds.zipIdx.map fun (kind, i) => ⟨c.sid, kind, i == 0, i + 1 == c.kinds.length⟩

/-- Each action comes before the next. -/
def links (c : Chain) : List (Nat × Nat) :=
  (List.range (c.kinds.length - 1)).map fun i => (c.first + i, c.first + i + 1)

/-- Lays out chains from a place on, leaving out those without actions. -/
def layOut : Nat → List (Phase × Sid × List ActionKind) → List Chain
  | _, [] => []
  | place, (phase, sid, kinds) :: rest =>
    if kinds.isEmpty then layOut place rest
    else ⟨phase, sid, kinds, place⟩ :: layOut (place + kinds.length) rest

/-- The chain that does something with a device. -/
def find? (chains : List Chain) (phase : Phase) (sid : Sid) : Option Chain :=
  chains.find? fun c => c.phase == phase && c.sid == sid

end Chain

namespace Plan

/-- The mountpoints of a filesystem, ascending and each once. -/
def sortedMountpoints (fs : Filesystem) : List String :=
  fs.mountpoints.eraseDups.mergeSort fun a b => a ≤ b

/-- The entry in the table of filesystems changes if there are mountpoints. -/
def fstabKinds (fs : Filesystem) : List ActionKind :=
  if fs.mountpoints.isEmpty then [] else [.updateFstab]

/-- What deletes a device. -/
def deleteKinds : Attributes → List ActionKind
  | .disk _ => [.nop]
  | .partitionTable _ => [.deletePartitionTable]
  | .partition _ => [.deletePartition]
  | .filesystem fs =>
    (sortedMountpoints fs).reverse.map .unmount ++ fstabKinds fs ++ [.deleteFilesystem]

/-- What creates a device. The label and the identifier of a filesystem are set when it is
created. -/
def createKinds : Attributes → List ActionKind
  | .disk _ => [.nop]
  | .partitionTable _ => [.createPartitionTable]
  | .partition p =>
    [.createPartition] ++ (if p.id = p.type.defaultId then [] else [.setPartitionId]) ++
      (if p.boot then [.setBoot] else [])
  | .filesystem fs => [.createFilesystem] ++ (sortedMountpoints fs).map .mount ++ fstabKinds fs

/-- What changes a partition in place. -/
def partitionChanges (old new : Partition) : List ActionKind :=
  ((ResizeMode.between? old.region.length new.region.length).toList.map .resizePartition) ++
    (if old.id = new.id then [] else [.setPartitionId]) ++
    (if old.boot = new.boot then [] else [.setBoot])

/-- What changes a filesystem in place, with the given resize. -/
def filesystemChanges (old new : Filesystem) (resize : Option ResizeMode) : List ActionKind :=
  let before := sortedMountpoints old
  let after := sortedMountpoints new
  (before.filter (· ∉ after)).reverse.map .unmount ++
    resize.toList.map .resizeFilesystem ++
    (if old.label = new.label then [] else [.setLabel]) ++
    (if old.uuid = new.uuid then [] else [.setUuid]) ++
    (after.filter (· ∉ before)).map .mount ++
    (if old.mountpoints = new.mountpoints ∧ old.mountBy = new.mountBy ∧
        old.fstabOptions = new.fstabOptions then [] else [.updateFstab])

/-- What changes a device in place. -/
def changeKinds (lhs rhs : Devicegraph) (old new : Device) : Except Failure (List ActionKind) :=
  match old.attributes, new.attributes with
  | .partition o, .partition n => .ok (partitionChanges o n)
  | .filesystem o, .filesystem n => do
    return filesystemChanges o n (← filesystemResize? lhs rhs new.sid)
  | _, _ => .ok []

/-- The devices that are deleted: those that are gone and those that are replaced. -/
def deleted (lhs rhs : Devicegraph) (replaced : List Sid) : List Device :=
  lhs.devices.filter fun d => !rhs.contains d.sid || replaced.contains d.sid

/-- The devices that are created: those that are new and those that are replaced. -/
def created (lhs rhs : Devicegraph) (replaced : List Sid) : List Device :=
  rhs.devices.filter fun d => !lhs.contains d.sid || replaced.contains d.sid

/-- The devices that stay, as they are before and after. -/
def kept (lhs rhs : Devicegraph) (replaced : List Sid) : List (Device × Device) :=
  (rhs.devices.filter fun d => !replaced.contains d.sid).filterMap fun new =>
    (lhs.find? new.sid).map (·, new)

/-- The chains of all devices. -/
def chains (lhs rhs : Devicegraph) : Except Failure (List Chain) := do
  let replaced ← replaced lhs rhs
  let changes ← (kept lhs rhs replaced).mapM fun (old, new) => do
    return (Phase.change, new.sid, ← changeKinds lhs rhs old new)
  return Chain.layOut 0 <|
    (deleted lhs rhs replaced).map (fun d => (.delete, d.sid, deleteKinds d.attributes)) ++
    changes ++
    (created lhs rhs replaced).map (fun d => (.create, d.sid, createKinds d.attributes))

end Plan

end StoragePlan
