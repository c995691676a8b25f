import StoragePlan.Devicegraph.Basic

/-!
# Moving through a devicegraph

Parents and children of a device, everything below or above it, and the particular relations of
disks, tables, partitions and filesystems. Results list sids in ascending order.

`explore` follows holders from a worklist of devices. It knows the devices it has met by their sids,
so it ends also where holders form a cycle.
-/

namespace StoragePlan

/-- Which way to follow holders. -/
inductive Direction where
  /-- From a device to those on it. -/
  | down
  /-- From a device to those it sits on. -/
  | up
  deriving DecidableEq, Repr

namespace Edge

/-- Where the edge starts when it is followed. -/
def tail (e : Edge) : Direction → Ref
  | .down => e.source
  | .up => e.target

/-- Where the edge leads when it is followed. -/
def head (e : Edge) : Direction → Ref
  | .down => e.target
  | .up => e.source

end Edge

namespace Devicegraph

/-- The edges that lead away from a node, newest first. -/
def edgesAt (g : Devicegraph) (dir : Direction) (r : Ref) : List Edge :=
  g.edges.filter fun e => e.tail dir == r

/-- The nodes next to a node, the one behind the newest edge first. -/
def next (g : Devicegraph) (dir : Direction) (r : Ref) : List Node :=
  (g.edgesAt dir r).filterMap fun e => g.node? (e.head dir)

/-- The devices next to a device. -/
def neighbors (g : Devicegraph) (dir : Direction) (sid : Sid) : Except Failure (List Sid) := do
  let _ ← g.find sid
  return SidList.ofList ((g.next dir ⟨sid, 0⟩).map fun n => n.device.sid)

/-- The devices directly on a device. -/
def children (g : Devicegraph) (sid : Sid) : Except Failure (List Sid) := g.neighbors .down sid

/-- The devices that a device directly sits on. -/
def parents (g : Devicegraph) (sid : Sid) : Except Failure (List Sid) := g.neighbors .up sid

/-- The children of the parents of a device, with or without the device itself. -/
def siblings (g : Devicegraph) (sid : Sid) (itself : Bool) : Except Failure (List Sid) := do
  let families ← (← g.parents sid).mapM g.children
  let all := SidList.ofList families.flatten
  return if itself then all else all.filter (· != sid)

/-! ### Everything below or above a device -/

/-- Marks the nodes whose sids are new and puts them onto the worklist, the last on top. -/
def discover (seen : List Sid) (work : List Ref) : List Node → List Sid × List Ref
  | [] => (seen, work)
  | n :: rest =>
    if n.device.sid ∈ seen then discover seen work rest
    else discover (n.device.sid :: seen) (n.ref :: work) rest

/-- How many nodes have sids that are still to be met. -/
def unseen (g : Devicegraph) (seen : List Sid) : Nat :=
  g.nodes.countP fun n => !seen.contains n.device.sid

/-- A weaker test that an element passes in addition counts more of the list. -/
theorem countP_lt_of_mem {α : Type} {p q : α → Bool} {l : List α} {a : α}
    (imp : ∀ x, p x → q x) (ha : a ∈ l) (hq : q a) (hp : p a = false) :
    l.countP p < l.countP q := by
  induction l with
  | nil => cases ha
  | cons x rest ih =>
    have le : rest.countP p ≤ rest.countP q := List.countP_mono_left fun x _ => imp x
    rcases List.mem_cons.1 ha with rfl | ha
    · rw [List.countP_cons_of_neg (by simp [hp]), List.countP_cons_of_pos hq]
      exact Nat.lt_succ_of_le le
    · have step : (if p x then 1 else 0) ≤ (if q x then 1 else 0) := by
        by_cases hpx : p x
        · simp [hpx, imp x hpx]
        · simp [hpx]
      rw [List.countP_cons, List.countP_cons]
      exact Nat.add_lt_add_of_lt_of_le (ih ha) step

/-- Meeting a node leaves fewer to be met. -/
theorem unseen_cons_lt {g : Devicegraph} {n : Node} {seen : List Sid} (hn : n ∈ g.nodes)
    (hs : n.device.sid ∉ seen) : g.unseen (n.device.sid :: seen) < g.unseen seen := by
  refine countP_lt_of_mem (fun m hm => ?_) hn (by simpa using hs) (by simp)
  simp only [List.contains_cons, Bool.not_eq_true', Bool.or_eq_false_iff] at hm ⊢
  exact hm.2

/-- Every node put onto the worklist is one less to be met. -/
theorem unseen_discover_le {g : Devicegraph} {nodes : List Node} (h : ∀ n ∈ nodes, n ∈ g.nodes)
    (seen : List Sid) (work : List Ref) :
    g.unseen (discover seen work nodes).1 + (discover seen work nodes).2.length ≤
      g.unseen seen + work.length := by
  induction nodes generalizing seen work with
  | nil => exact Nat.le_refl _
  | cons n rest ih =>
    have ih := ih fun m hm => h m (List.mem_cons_of_mem _ hm)
    unfold discover
    split
    · exact ih seen work
    · next hs =>
      have hlt := unseen_cons_lt (h n List.mem_cons_self) hs
      have hle := ih (n.device.sid :: seen) (n.ref :: work)
      rw [List.length_cons] at hle
      omega

/-- The neighbors of a node are nodes of the devicegraph. -/
theorem mem_nodes_of_mem_next {g : Devicegraph} {dir : Direction} {r : Ref} {n : Node}
    (h : n ∈ g.next dir r) : n ∈ g.nodes := by
  obtain ⟨e, _, he⟩ := List.mem_filterMap.1 h
  exact List.mem_of_find?_eq_some he

/-- The sids met from the devices of a worklist on, besides those seen before. -/
def explore (g : Devicegraph) (dir : Direction) (seen : List Sid) : List Ref → List Sid
  | [] => seen
  | r :: work =>
    let found := discover seen work (g.next dir r)
    explore g dir found.1 found.2
termination_by work => g.unseen seen + work.length
decreasing_by
  have := @unseen_discover_le g (g.next dir r) (fun _ => mem_nodes_of_mem_next) seen work
  simp only [List.length_cons]
  omega

/-- The devices that a device leads to, with or without itself. -/
def reachable (g : Devicegraph) (dir : Direction) (sid : Sid) (itself : Bool) :
    Except Failure (List Sid) := do
  let _ ← g.find sid
  let met := (g.explore dir [] [⟨sid, 0⟩]).filter (· != sid)
  return SidList.ofList (if itself then sid :: met else met)

/-- The devices on a device, directly or not. -/
def descendants (g : Devicegraph) (sid : Sid) (itself : Bool) : Except Failure (List Sid) :=
  g.reachable .down sid itself

/-- The devices that a device sits on, directly or not. -/
def ancestors (g : Devicegraph) (sid : Sid) (itself : Bool) : Except Failure (List Sid) :=
  g.reachable .up sid itself

/-- Keeps the devices from which no holder leads on. -/
def extremes (g : Devicegraph) (dir : Direction) (sids : List Sid) : Except Failure (List Sid) :=
  sids.filterM fun sid => do
    let _ ← g.find sid
    return (g.next dir ⟨sid, 0⟩).isEmpty

/-- The descendants of a device that nothing sits on. -/
def leaves (g : Devicegraph) (sid : Sid) (itself : Bool) : Except Failure (List Sid) := do
  g.extremes .down (← g.descendants sid itself)

/-- The ancestors of a device that sit on nothing. -/
def roots (g : Devicegraph) (sid : Sid) (itself : Bool) : Except Failure (List Sid) := do
  g.extremes .up (← g.ancestors sid itself)

/-! ### Relations between kinds of devices -/

/-- The device that a device sits on; of several the one joined last. -/
def singleParent (g : Devicegraph) (sid : Sid) : Except Failure Sid := do
  let d ← g.find sid
  match g.next .up ⟨sid, 0⟩ with
  | n :: _ => return n.device.sid
  | [] => .error ↑(TopologyFault.invalidParentCount sid d.kind 0 (.exactly 1))

/-- The first device of a kind on a device. -/
def childOfKind (g : Devicegraph) (sid : Sid) (kind : DeviceKind) :
    Except Failure (Option Sid) := do
  (← g.children sid).findM? fun child => return (← g.find child).kind == kind

/-- The partition table on a disk. -/
def diskPartitionTable (g : Devicegraph) (sid : Sid) : Except Failure (Option Sid) := do
  let _ ← g.disk sid
  g.childOfKind sid .partitionTable

/-- The filesystem directly on a disk. -/
def diskFilesystem (g : Devicegraph) (sid : Sid) : Except Failure (Option Sid) := do
  let _ ← g.disk sid
  g.childOfKind sid .filesystem

/-- The disk of a partition table. -/
def partitionTableDisk (g : Devicegraph) (sid : Sid) : Except Failure Sid := do
  let _ ← g.partitionTable sid
  g.singleParent sid

/-- The partitions of a partition table. -/
def partitions (g : Devicegraph) (sid : Sid) : Except Failure (List Sid) := do
  let _ ← g.partitionTable sid
  return (← g.children sid).filter fun child =>
    (g.find? child).any fun d => d.kind == .partition

/-- The partitions of a partition table with their attributes. -/
def partitionsWith (g : Devicegraph) (sid : Sid) : Except Failure (List (Sid × Partition)) := do
  (← g.partitions sid).mapM fun p => return (p, ← g.partition p)

/-- The number of partitions of a type in a partition table. -/
def countPartitions (g : Devicegraph) (type : PartitionType) (sid : Sid) : Except Failure Nat := do
  return (← g.partitionsWith sid).countP fun (_, p) => p.type == type

/-- The number of primary partitions. -/
def numPrimary (g : Devicegraph) (sid : Sid) : Except Failure Nat := g.countPartitions .primary sid

/-- The number of logical partitions. -/
def numLogical (g : Devicegraph) (sid : Sid) : Except Failure Nat := g.countPartitions .logical sid

/-- The extended partition of a partition table. -/
def extendedPartition (g : Devicegraph) (sid : Sid) : Except Failure (Option Sid) := do
  return ((← g.partitionsWith sid).find? fun (_, p) => p.type == .extended).map Prod.fst

/-- The partition table of a partition. -/
def partitionTableOf (g : Devicegraph) (sid : Sid) : Except Failure Sid := do
  let _ ← g.partition sid
  g.singleParent sid

/-- The logical partitions in an extended partition; any other partition has none. -/
def logicalPartitionsOf (g : Devicegraph) (sid : Sid) : Except Failure (List Sid) := do
  if (← g.partition sid).type ≠ .extended then return []
  let table ← g.partitionTableOf sid
  return ((← g.partitionsWith table).filter fun (_, p) => p.type == .logical).map Prod.fst

/-- The filesystem on a partition. -/
def partitionFilesystem (g : Devicegraph) (sid : Sid) : Except Failure (Option Sid) := do
  let _ ← g.partition sid
  g.childOfKind sid .filesystem

/-- The block device of a filesystem. -/
def filesystemBlkDevice (g : Devicegraph) (sid : Sid) : Except Failure Sid := do
  let _ ← g.filesystem sid
  g.singleParent sid

end Devicegraph

end StoragePlan
