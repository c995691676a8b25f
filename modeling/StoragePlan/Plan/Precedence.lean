import StoragePlan.Plan.Chain

/-!
# What has to come before what

The rules that order the actions of different devices. Each rule lists pairs of places: the action
at the first comes before the action at the second.
-/

namespace StoragePlan.Plan

/-- Every place of the one list comes before every place of the other. -/
def allBefore (before after : List Nat) : List (Nat × Nat) :=
  before.flatMap fun i => after.map fun j => (i, j)

/-- Each place of a list comes before the next one. -/
def inSequence (places : List Nat) : List (Nat × Nat) := places.zip places.tail

/-- A resize among the actions. -/
structure Resize where
  /-- The device that is resized. -/
  sid : Sid
  /-- The way it is resized. -/
  mode : ResizeMode
  /-- The place of the action. -/
  place : Nat
  deriving DecidableEq, Repr

/-- A mount or an unmount of a path among the actions. -/
structure PathUse where
  /-- The path. -/
  path : String
  /-- The filesystem. -/
  sid : Sid
  /-- The place of the action. -/
  place : Nat
  deriving DecidableEq, Repr

/-- The resizes of partitions. -/
def partitionResizes (actions : List Action) : List Resize :=
  actions.zipIdx.filterMap fun (a, place) =>
    match a.kind with
    | .resizePartition mode => some ⟨a.sid, mode, place⟩
    | _ => none

/-- The resizes of filesystems. -/
def filesystemResizes (actions : List Action) : List Resize :=
  actions.zipIdx.filterMap fun (a, place) =>
    match a.kind with
    | .resizeFilesystem mode => some ⟨a.sid, mode, place⟩
    | _ => none

/-- The mounts on paths; swap space is not mounted on one. -/
def mounts (actions : List Action) : List PathUse :=
  actions.zipIdx.filterMap fun (a, place) =>
    match a.kind with
    | .mount path => if path = swapMountpoint then none else some ⟨path, a.sid, place⟩
    | _ => none

/-- The unmounts of paths. -/
def unmounts (actions : List Action) : List PathUse :=
  actions.zipIdx.filterMap fun (a, place) =>
    match a.kind with
    | .unmount path => if path = swapMountpoint then none else some ⟨path, a.sid, place⟩
    | _ => none

/-- What the rules look at. -/
structure Setting where
  /-- The devicegraph before. -/
  lhs : Devicegraph
  /-- The devicegraph after. -/
  rhs : Devicegraph
  /-- The chains of all devices. -/
  chains : List Chain

namespace Setting

/-- All actions, in the layout of the chains. -/
def actions (s : Setting) : List Action := s.chains.flatMap Chain.actions

/-- The chain that deletes a device. -/
def deletes? (s : Setting) (sid : Sid) : Option Chain := Chain.find? s.chains .delete sid

/-- The chain that creates a device. -/
def creates? (s : Setting) (sid : Sid) : Option Chain := Chain.find? s.chains .create sid

/-- The place of the resize of a partition, if it is resized in the given way. -/
def resizes? (s : Setting) (sid : Sid) (mode : ResizeMode) : Option Nat :=
  ((partitionResizes s.actions).find? fun r => r.sid == sid && r.mode == mode).map Resize.place

/-- Where the space of a partition or of another child becomes free. -/
def frees (s : Setting) (sid : Sid) : List Nat :=
  ((s.deletes? sid).map Chain.last).toList ++ (s.resizes? sid .shrink).toList

/-- Where space for a partition or for another child is used. -/
def uses (s : Setting) (sid : Sid) : List Nat :=
  ((s.creates? sid).map Chain.first).toList ++ (s.resizes? sid .grow).toList

/-! ### The rules -/

/-- A parent is created before the devices on it. -/
def creationOrder (s : Setting) : Except Failure (List (Nat × Nat)) :=
  (s.chains.filter fun c => c.phase == .create).flatMapM fun c => do
    return (← s.rhs.parents c.sid).filterMap fun parent =>
      (s.creates? parent).map fun above => (above.last, c.first)

/-- A parent is deleted after the devices on it, and a replaced device is deleted before it is
created again. -/
def deletionOrder (s : Setting) : Except Failure (List (Nat × Nat)) :=
  (s.chains.filter fun c => c.phase == .delete).flatMapM fun c => do
    let above := (← s.lhs.parents c.sid).filterMap fun parent =>
      (s.deletes? parent).map fun above => (c.last, above.first)
    return above ++ ((s.creates? c.sid).map fun again => (c.last, again.first)).toList

/-- On one device, space is freed before any is used. -/
def spaceOrder (s : Setting) : Except Failure (List (Nat × Nat)) :=
  (s.lhs.devices.filter fun d => s.rhs.contains d.sid).flatMapM fun d => do
    let freeing := (← s.lhs.children d.sid).flatMap s.frees
    let consuming := (← s.rhs.children d.sid).flatMap s.uses
    return allBefore freeing consuming

/-- A filesystem grows after its partition and shrinks before it. -/
def followOrder (s : Setting) : Except Failure (List (Nat × Nat)) :=
  (filesystemResizes s.actions).flatMapM fun fs => do
    let device ← s.rhs.filesystemBlkDevice fs.sid
    return match (partitionResizes s.actions).find? fun p => p.sid == device with
      | none => []
      | some p =>
        match fs.mode with
        | .grow => [(p.place, fs.place)]
        | .shrink => [(fs.place, p.place)]

/-- What is deleted from a resized partition goes before the resize, and what is created on it
comes after. -/
def aroundResizes (s : Setting) : Except Failure (List (Nat × Nat)) :=
  (partitionResizes s.actions).flatMapM fun p => do
    let gone := (← s.lhs.children p.sid).filterMap s.deletes?
    let made := (← s.rhs.children p.sid).filterMap s.creates?
    return gone.map (fun c => (c.last, p.place)) ++ made.map (fun c => (p.place, c.first))

/-- The extended partitions of a devicegraph. -/
def extendedPartitions (g : Devicegraph) : Except Failure (List Sid) := do
  return (← (g.allOfKind .partitionTable).mapM g.extendedPartition).filterMap id

/-- Logical partitions are deleted or shrunk before their extended partition. -/
def beforeExtended (s : Setting) : Except Failure (List (Nat × Nat)) := do
  (← extendedPartitions s.lhs).flatMapM fun extended => do
    let logicals := (← s.lhs.logicalPartitionsOf extended).flatMap s.frees
    return allBefore logicals <|
      ((s.deletes? extended).map Chain.first).toList ++ (s.resizes? extended .shrink).toList

/-- Logical partitions are created or grown after their extended partition. -/
def afterExtended (s : Setting) : Except Failure (List (Nat × Nat)) := do
  (← extendedPartitions s.rhs).flatMapM fun extended => do
    let logicals := (← s.rhs.logicalPartitionsOf extended).flatMap s.uses
    return allBefore
      (((s.creates? extended).map Chain.last).toList ++ (s.resizes? extended .grow).toList) logicals

/-- Mounts go by ascending path, then sid, then place. -/
def mountsBefore (a b : PathUse) : Bool :=
  if a.path = b.path then a.sid < b.sid || (a.sid == b.sid && a.place ≤ b.place)
  else a.path < b.path

/-- Unmounts go by descending path, then by sid, then place. -/
def unmountsBefore (a b : PathUse) : Bool :=
  if a.path = b.path then a.sid < b.sid || (a.sid == b.sid && a.place ≤ b.place)
  else b.path < a.path

/-- Paths are mounted from the outside in and unmounted from the inside out, and a path is unmounted
before something else is mounted there. -/
def mountOrder (s : Setting) : List (Nat × Nat) :=
  let mounted := mounts s.actions
  let unmounted := unmounts s.actions
  inSequence ((mounted.mergeSort mountsBefore).map PathUse.place) ++
    inSequence ((unmounted.mergeSort unmountsBefore).map PathUse.place) ++
    unmounted.flatMap fun u =>
      (mounted.filter fun m => m.path == u.path).map fun m => (u.place, m.place)

/-- All pairs that the rules give, chain by chain and then rule by rule, each once. -/
def dependencies (s : Setting) : Except Failure (List (Nat × Nat)) := do
  let creation ← s.creationOrder
  let deletion ← s.deletionOrder
  let space ← s.spaceOrder
  let follow ← s.followOrder
  let around ← s.aroundResizes
  let before ← s.beforeExtended
  let after ← s.afterExtended
  return (s.chains.flatMap Chain.links ++ creation ++ deletion ++ space ++ follow ++ around ++
    before ++ after ++ s.mountOrder).eraseDups

end Setting

end StoragePlan.Plan
