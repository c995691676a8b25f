import StoragePlan.Device.Basic
import StoragePlan.Devicegraph.SidList

/-!
# Devicegraphs

A devicegraph holds the storage devices of a system and who sits on whom. An edge, called a holder,
leads from a device (the parent) to one that sits on it (the child), as from a partition to its
filesystem.

Devices are found by sid. Sids run out at `2 ^ 64 - 1`, and then a new device can get the sid of one
that is still there. The sid then stands for the new device, and the old one is *shadowed*: it keeps
its holders, but no longer answers to its sid. A `Ref` tells devices with one sid apart by how many
of them came later. A devicegraph with a shadowed device is broken, and `check` says so.

Nodes and edges are kept newest first, no two nodes have one name, and holders only join nodes that
are there. `devices` and `holders` are the views that messages and documents show: devices by
ascending sid, holders by source, target and kind.
-/

namespace StoragePlan

/-- Names a device: its sid, and how many devices with that sid came after it. -/
structure Ref where
  /-- The number of the device. -/
  sid : Sid
  /-- How many later devices have the sid; the sid stands for the device of depth 0. -/
  depth : Nat := 0
  deriving DecidableEq, Repr

/-- A device in a devicegraph. -/
structure Node where
  /-- The device. -/
  device : Device
  /-- How many later devices have its sid. -/
  depth : Nat := 0
  deriving DecidableEq, Repr

/-- A holder between nodes. -/
structure Edge where
  /-- The device that is sat on. -/
  source : Ref
  /-- The device that sits on it. -/
  target : Ref
  /-- How the target sits on the source. -/
  kind : HolderKind
  deriving DecidableEq, Repr

/-- A holder as documents and listings show it. -/
structure Holder where
  /-- The device that is sat on. -/
  source : Sid
  /-- The device that sits on it. -/
  target : Sid
  /-- How the target sits on the source. -/
  kind : HolderKind
  deriving DecidableEq, Repr

namespace Ref

/-- The name of the device after another one has taken the sid. -/
def shadow (taken : Sid) (r : Ref) : Ref := if r.sid = taken then ⟨r.sid, r.depth + 1⟩ else r

/-- No two devices come to have one name. -/
theorem shadow_injective {taken : Sid} {r r' : Ref} (h : r.shadow taken = r'.shadow taken) :
    r = r' := by
  obtain ⟨s, n⟩ := r
  obtain ⟨s', n'⟩ := r'
  unfold shadow at h
  grind

/-- The name of the newest device is free. -/
theorem shadow_ne {taken : Sid} (r : Ref) : r.shadow taken ≠ ⟨taken, 0⟩ := by
  unfold shadow
  grind

end Ref

namespace Node

/-- What names the node. -/
def ref (n : Node) : Ref := ⟨n.device.sid, n.depth⟩

/-- The node after another device has taken the sid. -/
def shadow (taken : Sid) (n : Node) : Node :=
  if n.device.sid = taken then { n with depth := n.depth + 1 } else n

theorem ref_shadow (taken : Sid) (n : Node) : (n.shadow taken).ref = n.ref.shadow taken := by
  unfold shadow ref Ref.shadow
  split <;> rfl

end Node

/-- Storage devices and the holders between them. -/
structure Devicegraph where
  /-- The devices, newest first. -/
  nodes : List Node := []
  /-- The holders, newest first. -/
  edges : List Edge := []
  /-- No two nodes have one name. -/
  distinct : (nodes.map Node.ref).Nodup := by simp
  /-- Holders join nodes that are there. -/
  anchored : ∀ e ∈ edges, e.source ∈ nodes.map Node.ref ∧ e.target ∈ nodes.map Node.ref := by simp
  deriving DecidableEq, Repr

namespace Edge

/-- The edge after another device has taken the sid. -/
def shadow (taken : Sid) (e : Edge) : Edge :=
  { e with source := e.source.shadow taken, target := e.target.shadow taken }

/-- The holder that the edge stands for. -/
def holder (e : Edge) : Holder := ⟨e.source.sid, e.target.sid, e.kind⟩

end Edge

namespace Holder

/-- Holders are ordered by source, target and kind. -/
def before (a b : Holder) : Bool :=
  ((compare a.source b.source).then
    ((compare a.target b.target).then (compare a.kind.rank b.kind.rank))).isLE

end Holder

namespace Devicegraph

theorem map_ref_shadow (taken : Sid) (nodes : List Node) :
    (nodes.map (Node.shadow taken)).map Node.ref = (nodes.map Node.ref).map (Ref.shadow taken) := by
  simp [Node.ref_shadow]

/-- The devicegraph without devices. -/
def empty : Devicegraph := {}

/-- The node with the given name. -/
def node? (g : Devicegraph) (r : Ref) : Option Node := g.nodes.find? fun n => n.ref == r

/-- The device that the sid stands for. -/
def find? (g : Devicegraph) (sid : Sid) : Option Device := (g.node? ⟨sid, 0⟩).map Node.device

/-- Whether the sid stands for a device. -/
def contains (g : Devicegraph) (sid : Sid) : Bool := (g.find? sid).isSome

/-- The devices that answer to their sids, by ascending sid. -/
def devices (g : Devicegraph) : List Device :=
  ((g.nodes.filter fun n => n.depth == 0).map Node.device).mergeSort fun a b => a.sid ≤ b.sid

/-- The number of devices that answer to their sids. -/
def numDevices (g : Devicegraph) : Nat := g.devices.length

/-- Whether no device answers to a sid. -/
def isEmpty (g : Devicegraph) : Bool := g.devices.isEmpty

/-- The holders, by source, target and kind. -/
def holders (g : Devicegraph) : List Holder := (g.edges.map Edge.holder).mergeSort Holder.before

/-- The number of holders. -/
def numHolders (g : Devicegraph) : Nat := g.edges.length

/-- Whether two devicegraphs show the same devices with the same attributes, joined by the same
holders. -/
def same (g h : Devicegraph) : Bool := g.devices == h.devices && g.holders == h.holders

/-- Adds a device. Devices that have its sid no longer answer to it. -/
def addDevice (g : Devicegraph) (d : Device) : Devicegraph where
  nodes := ⟨d, 0⟩ :: g.nodes.map (Node.shadow d.sid)
  edges := g.edges.map (Edge.shadow d.sid)
  distinct := by
    rw [List.map_cons, map_ref_shadow]
    refine List.nodup_cons.2 ⟨fun h => ?_, ?_⟩
    · obtain ⟨r, _, hr⟩ := List.mem_map.1 h
      exact Ref.shadow_ne r hr
    · exact List.Pairwise.map _ (fun _ _ ne h => ne (Ref.shadow_injective h)) g.distinct
  anchored := by
    intro shadowed h
    obtain ⟨e, he, rfl⟩ := List.mem_map.1 h
    obtain ⟨hs, ht⟩ := g.anchored e he
    rw [List.map_cons, map_ref_shadow]
    exact ⟨List.mem_cons_of_mem _ (List.mem_map_of_mem hs),
      List.mem_cons_of_mem _ (List.mem_map_of_mem ht)⟩

/-- Adds a holder between the devices that the sids stand for, if they are there. -/
def addEdge (g : Devicegraph) (source target : Sid) (kind : HolderKind) : Devicegraph :=
  if h : ⟨source, 0⟩ ∈ g.nodes.map Node.ref ∧ ⟨target, 0⟩ ∈ g.nodes.map Node.ref then
    { g with
      edges := ⟨⟨source, 0⟩, ⟨target, 0⟩, kind⟩ :: g.edges
      anchored := fun e he => by
        rcases List.mem_cons.1 he with rfl | he
        · exact h
        · exact g.anchored e he }
  else g

/-- Changes the device that the sid stands for, which keeps its sid. -/
def changeDevice (g : Devicegraph) (sid : Sid) (f : Device → Device) (hf : ∀ d, (f d).sid = d.sid) :
    Devicegraph :=
  let change := fun n : Node => if n.ref = ⟨sid, 0⟩ then ⟨f n.device, 0⟩ else n
  have same : (g.nodes.map change).map Node.ref = g.nodes.map Node.ref := by
    rw [List.map_map]
    refine List.map_congr_left fun n _ => ?_
    simp only [Function.comp_apply, change]
    split
    · next h => rw [h, Node.ref, hf]; exact congrArg (Ref.mk · 0) (congrArg Ref.sid h)
    · rfl
  { g with
    nodes := g.nodes.map change
    distinct := same ▸ g.distinct
    anchored := same ▸ g.anchored }

/-- Gives other attributes to the device that the sid stands for. -/
def setAttributes (g : Devicegraph) (sid : Sid) (attributes : Attributes) : Devicegraph :=
  g.changeDevice sid (fun d => { d with attributes }) fun _ => rfl

/-- Gives other user data to the device that the sid stands for. -/
def setUserData (g : Devicegraph) (sid : Sid) (userData : UserData) : Devicegraph :=
  g.changeDevice sid (fun d => { d with userData }) fun _ => rfl

/-- Drops the device that the sid stands for, with its holders. -/
def eraseDevice (g : Devicegraph) (sid : Sid) : Devicegraph where
  nodes := g.nodes.filter fun n => n.ref != ⟨sid, 0⟩
  edges := g.edges.filter fun e => e.source != ⟨sid, 0⟩ && e.target != ⟨sid, 0⟩
  distinct := g.distinct.sublist (List.filter_sublist.map _)
  anchored := by
    have kept : ∀ r ∈ g.nodes.map Node.ref, r ≠ ⟨sid, 0⟩ →
        r ∈ (g.nodes.filter fun n => n.ref != ⟨sid, 0⟩).map Node.ref := by
      intro r hr hne
      obtain ⟨n, hn, rfl⟩ := List.mem_map.1 hr
      exact List.mem_map_of_mem (List.mem_filter.2 ⟨hn, by simpa using hne⟩)
    intro e he
    obtain ⟨he, hne⟩ := List.mem_filter.1 he
    simp only [Bool.and_eq_true, bne_iff_ne, ne_eq] at hne
    obtain ⟨hs, ht⟩ := g.anchored e he
    exact ⟨kept _ hs hne.1, kept _ ht hne.2⟩

/-! ### Looking up devices -/

/-- The device with the sid. -/
def find (g : Devicegraph) (sid : Sid) : Except Failure Device :=
  match g.find? sid with
  | some d => .ok d
  | none => .error ↑(MissingFault.device sid)

/-- The block device with the name. -/
def findByName (g : Devicegraph) (name : String) : Except Failure Device :=
  match g.devices.find? fun d => d.name? == some name with
  | some d => .ok d
  | none => .error ↑(MissingFault.deviceName name)

/-- The devices of a kind. -/
def allOfKind (g : Devicegraph) (kind : DeviceKind) : List Sid :=
  (g.devices.filter fun d => d.kind == kind).map Device.sid

/-- The attributes of the device with the sid, which has to be of the expected kind. -/
def attributesOf {α : Type} (g : Devicegraph) (expected : DeviceKind) (read : Attributes → Option α)
    (sid : Sid) : Except Failure α := do
  let d ← g.find sid
  match read d.attributes with
  | some a => .ok a
  | none => .error ↑(InputFault.wrongDeviceKind sid expected d.kind)

/-- The disk with the sid. -/
def disk (g : Devicegraph) (sid : Sid) : Except Failure Disk := g.attributesOf .disk (·.disk?) sid

/-- The partition table with the sid. -/
def partitionTable (g : Devicegraph) (sid : Sid) : Except Failure PartitionTable :=
  g.attributesOf .partitionTable (·.partitionTable?) sid

/-- The partition with the sid. -/
def partition (g : Devicegraph) (sid : Sid) : Except Failure Partition :=
  g.attributesOf .partition (·.partition?) sid

/-- The filesystem with the sid. -/
def filesystem (g : Devicegraph) (sid : Sid) : Except Failure Filesystem :=
  g.attributesOf .filesystem (·.filesystem?) sid

/-- The holder between two devices. -/
def findHolder (g : Devicegraph) (source target : Sid) : Except Failure Holder := do
  let _ ← g.find source
  let _ ← g.find target
  match g.edges.find? fun e => e.source == ⟨source, 0⟩ && e.target == ⟨target, 0⟩ with
  | some e => .ok ⟨source, target, e.kind⟩
  | none => .error ↑(MissingFault.holder source target)

end Devicegraph

end StoragePlan
