import StoragePlan.Devicegraph.Navigation

/-!
# Actions

An action is one step on the way from one devicegraph to another: what is done (`ActionKind`) and to
which device. The actions of one device form a chain, and an action knows whether it is an end of
its chain.
-/

namespace StoragePlan

/-- Which way a size changes. -/
inductive ResizeMode where
  | grow
  | shrink
  deriving DecidableEq, Repr

namespace ResizeMode

/-- How a size changes, if at all. -/
def between? (old new : Nat) : Option ResizeMode :=
  if old < new then some .grow else if new < old then some .shrink else none

/-- The verb for the change. -/
def text : ResizeMode → String
  | grow => "Grow"
  | shrink => "Shrink"

end ResizeMode

/-- What an action does to its device. -/
inductive ActionKind where
  /-- Nothing. It stands for a device that is never touched, such as a disk. -/
  | nop
  | createPartitionTable
  | deletePartitionTable
  | createPartition
  | deletePartition
  | resizePartition (mode : ResizeMode)
  | setPartitionId
  | setBoot
  | createFilesystem
  | deleteFilesystem
  | resizeFilesystem (mode : ResizeMode)
  | setLabel
  | setUuid
  | mount (mountpoint : String)
  | unmount (mountpoint : String)
  | updateFstab
  deriving DecidableEq, Repr

/-- What an action means for the existence of its device. -/
inductive ActionClass where
  | nop
  | create
  | modify
  | delete
  deriving DecidableEq, Repr

/-- One step of a plan. -/
structure Action where
  /-- The device. -/
  sid : Sid
  /-- What is done to it. -/
  kind : ActionKind
  /-- Whether the action begins the chain of its device. -/
  first : Bool
  /-- Whether the action ends the chain of its device. -/
  last : Bool
  deriving DecidableEq, Repr

namespace ActionClass

/-- The word for the class. -/
def name : ActionClass → String
  | nop => "nop"
  | create => "create"
  | modify => "modify"
  | delete => "delete"

/-- The color of the actions of a class in drawings. -/
def color : ActionClass → String
  | nop => "#808080"
  | create => "#00aa00"
  | modify => "#0000ff"
  | delete => "#ff0000"

end ActionClass

namespace ActionKind

/-- The word for the kind, without what is particular to one action. -/
def name : ActionKind → String
  | nop => "nop"
  | createPartitionTable => "create-partition-table"
  | deletePartitionTable => "delete-partition-table"
  | createPartition => "create-partition"
  | deletePartition => "delete-partition"
  | resizePartition _ => "resize-partition"
  | setPartitionId => "set-partition-id"
  | setBoot => "set-boot"
  | createFilesystem => "create-filesystem"
  | deleteFilesystem => "delete-filesystem"
  | resizeFilesystem _ => "resize-filesystem"
  | setLabel => "set-label"
  | setUuid => "set-uuid"
  | mount _ => "mount"
  | unmount _ => "unmount"
  | updateFstab => "update-fstab"

/-- What the kind means for the existence of the device. -/
def actionClass : ActionKind → ActionClass
  | nop => .nop
  | createPartitionTable | createPartition | createFilesystem => .create
  | deletePartitionTable | deletePartition | deleteFilesystem => .delete
  | resizePartition _ | setPartitionId | setBoot | resizeFilesystem _ | setLabel | setUuid
  | mount _ | unmount _ | updateFstab => .modify

/-- Whether the action is about the device as it was before the plan. -/
def usesBaseline : ActionKind → Bool
  | deletePartitionTable | deletePartition | deleteFilesystem | unmount _ => true
  | _ => false

end ActionKind

namespace Action

/-- Whether there is nothing to do. -/
def isNop (a : Action) : Bool := a.kind == .nop

end Action

end StoragePlan
