import Mathlib.Data.List.Sort
import StoragePlan.Devicegraph.Check
import StoragePlan.Proofs.Attempts

/-!
# Who sits on whom

What the questions to a devicegraph answer, said through two relations: which device a sid stands
for (`find?`), and who sits on whom (`SitsOn`). In a devicegraph without shadowed devices (`Whole`)
the children of a device are those that sit on it and its parents those that it sits on.

`Valid` collects what `check` makes sure of about kinds, parents and children; every device but a
disk then has one parent, which `parent?` names.
-/

namespace StoragePlan

namespace Devicegraph

open Attempt

variable {g : Devicegraph}

/-! ### Devices by sid -/

theorem node?_eq_some {r : Ref} {n : Node} : g.node? r = some n ↔ n ∈ g.nodes ∧ n.ref = r := by
  constructor
  · intro h
    exact ⟨List.mem_of_find?_eq_some h, by simpa using List.find?_some h⟩
  · rintro ⟨hn, rfl⟩
    obtain ⟨m, hm⟩ : ∃ m, g.node? n.ref = some m :=
      Option.isSome_iff_exists.1 (List.find?_isSome.2 ⟨n, hn, by simp⟩)
    have same : m.ref = n.ref := by simpa using List.find?_some hm
    rw [hm, List.inj_on_of_nodup_map g.distinct (List.mem_of_find?_eq_some hm) hn same]

theorem find?_eq_some {sid : Sid} {d : Device} :
    g.find? sid = some d ↔ ⟨d, 0⟩ ∈ g.nodes ∧ d.sid = sid := by
  unfold find?
  rw [Option.map_eq_some_iff]
  constructor
  · rintro ⟨⟨d, n⟩, h, rfl⟩
    obtain ⟨hn, hr⟩ := node?_eq_some.1 h
    obtain ⟨rfl, rfl⟩ := Ref.mk.injEq .. ▸ hr
    exact ⟨hn, rfl⟩
  · rintro ⟨h, rfl⟩
    exact ⟨⟨d, 0⟩, node?_eq_some.2 ⟨h, rfl⟩, rfl⟩

/-- A sid stands for a device with that sid. -/
theorem sid_of_find? {sid : Sid} {d : Device} (h : g.find? sid = some d) : d.sid = sid :=
  (find?_eq_some.1 h).2

theorem contains_iff {sid : Sid} : g.contains sid = true ↔ ∃ d, g.find? sid = some d :=
  Option.isSome_iff_exists

theorem contains_eq_false {sid : Sid} : g.contains sid = false ↔ g.find? sid = none := by
  rw [contains, Option.isSome_eq_false_iff, Option.isNone_iff_eq_none]

theorem mem_devices {d : Device} : d ∈ g.devices ↔ g.find? d.sid = some d := by
  rw [find?_eq_some]
  simp only [devices, List.mem_mergeSort, List.mem_map, List.mem_filter, beq_iff_eq, and_true]
  constructor
  · rintro ⟨⟨d, _⟩, ⟨h, rfl⟩, rfl⟩
    exact h
  · intro h
    exact ⟨⟨d, 0⟩, ⟨h, rfl⟩, rfl⟩

theorem find_eq_ok {sid : Sid} {d : Device} : g.find sid = .ok d ↔ g.find? sid = some d := by
  unfold find
  split <;> simp_all

theorem attributesOf_eq_ok {α : Type} {kind : DeviceKind} {read : Attributes → Option α} {sid : Sid}
    {a : α} : g.attributesOf kind read sid = .ok a ↔
      ∃ d, g.find? sid = some d ∧ read d.attributes = some a := by
  unfold attributesOf
  simp only [bind_eq_ok, find_eq_ok]
  refine exists_congr fun d => and_congr_right fun _ => ?_
  split <;> simp_all

theorem disk_eq_ok {sid : Sid} {a : Disk} :
    g.disk sid = .ok a ↔ ∃ d, g.find? sid = some d ∧ d.attributes = .disk a := by
  unfold disk
  rw [attributesOf_eq_ok]
  refine exists_congr fun d => and_congr_right fun _ => ?_
  cases d.attributes <;> simp [Attributes.disk?]

theorem partitionTable_eq_ok {sid : Sid} {a : PartitionTable} :
    g.partitionTable sid = .ok a ↔ ∃ d, g.find? sid = some d ∧ d.attributes = .partitionTable a := by
  unfold partitionTable
  rw [attributesOf_eq_ok]
  refine exists_congr fun d => and_congr_right fun _ => ?_
  cases d.attributes <;> simp [Attributes.partitionTable?]

theorem partition_eq_ok {sid : Sid} {a : Partition} :
    g.partition sid = .ok a ↔ ∃ d, g.find? sid = some d ∧ d.attributes = .partition a := by
  unfold partition
  rw [attributesOf_eq_ok]
  refine exists_congr fun d => and_congr_right fun _ => ?_
  cases d.attributes <;> simp [Attributes.partition?]

theorem filesystem_eq_ok {sid : Sid} {a : Filesystem} :
    g.filesystem sid = .ok a ↔ ∃ d, g.find? sid = some d ∧ d.attributes = .filesystem a := by
  unfold filesystem
  rw [attributesOf_eq_ok]
  refine exists_congr fun d => and_congr_right fun _ => ?_
  cases d.attributes <;> simp [Attributes.filesystem?]

theorem mem_allOfKind {kind : DeviceKind} {sid : Sid} :
    sid ∈ g.allOfKind kind ↔ ∃ d, g.find? sid = some d ∧ d.kind = kind := by
  simp only [allOfKind, List.mem_map, List.mem_filter, mem_devices, beq_iff_eq]
  constructor
  · rintro ⟨d, ⟨h, hk⟩, rfl⟩
    exact ⟨d, h, hk⟩
  · rintro ⟨d, h, hk⟩
    obtain rfl := sid_of_find? h
    exact ⟨d, ⟨h, hk⟩, rfl⟩

/-- The devices come by ascending sid, each once. -/
theorem devices_ascending (g : Devicegraph) : g.devices.Pairwise fun a b => a.sid < b.sid := by
  have sorted : g.devices.Pairwise fun a b => a.sid ≤ b.sid := by
    have := @List.pairwise_mergeSort _ (fun a b : Device => decide (a.sid ≤ b.sid))
      (fun a b c hab hbc => by simpa using Nat.le_trans (by simpa using hab) (by simpa using hbc))
      (fun a b => by simpa using Nat.le_total a.sid b.sid)
      ((g.nodes.filter fun n => n.depth == 0).map Node.device)
    simpa [devices] using this
  have distinct : g.devices.Pairwise fun a b => a.sid ≠ b.sid := by
    refine List.Pairwise.perm ?_ (List.mergeSort_perm _ _).symm fun h => h.symm
    rw [List.pairwise_map]
    refine (List.pairwise_map.1 g.distinct).filter _ |>.imp_of_mem fun {a b} ha hb ne h => ne ?_
    simp only [List.mem_filter, beq_iff_eq] at ha hb
    simp [Node.ref, ha.2, hb.2, h]
  exact sorted.and distinct |>.imp fun ⟨le, ne⟩ => Nat.lt_of_le_of_ne le ne

/-- A list that ascends by sid is that of the devices if it has these. -/
theorem devices_eq_of_mem_iff {l : List Device} (ascending : l.Pairwise fun a b => a.sid < b.sid)
    (mem : ∀ d, d ∈ l ↔ g.find? d.sid = some d) : g.devices = l := by
  have : Std.Irrefl fun a b : Device => a.sid < b.sid := ⟨fun d => Nat.lt_irrefl d.sid⟩
  have : Std.Antisymm fun a b : Device => a.sid < b.sid :=
    ⟨fun _ _ lt gt => absurd gt (Nat.lt_asymm lt)⟩
  exact g.devices_ascending.eq_of_mem_iff ascending fun d => mem_devices.trans (mem d).symm

/-! ### Parents and children -/

/-- No device is shadowed. -/
def Whole (g : Devicegraph) : Prop := ∀ n ∈ g.nodes, n.depth = 0

/-- The device `child` sits directly on the device `parent`. -/
def SitsOn (g : Devicegraph) (child parent : Sid) : Prop :=
  ∃ e ∈ g.edges, e.source = ⟨parent, 0⟩ ∧ e.target = ⟨child, 0⟩

/-- The device that a device sits on; of several the one joined last. -/
def parent? (g : Devicegraph) (sid : Sid) : Option Sid := (g.singleParent sid).toOption

theorem find?_of_anchor {sid : Sid} (h : ⟨sid, 0⟩ ∈ g.nodes.map Node.ref) :
    ∃ d, g.find? sid = some d := by
  obtain ⟨⟨d, n⟩, hn, hr⟩ := List.mem_map.1 h
  obtain ⟨rfl, rfl⟩ := Ref.mk.injEq .. ▸ hr
  exact ⟨d, find?_eq_some.2 ⟨hn, rfl⟩⟩

namespace SitsOn

variable {child parent : Sid}

theorem child_found (h : g.SitsOn child parent) : ∃ d, g.find? child = some d := by
  obtain ⟨e, he, _, ht⟩ := h
  exact find?_of_anchor (ht ▸ (g.anchored e he).2)

theorem parent_found (h : g.SitsOn child parent) : ∃ d, g.find? parent = some d := by
  obtain ⟨e, he, hs, _⟩ := h
  exact find?_of_anchor (hs ▸ (g.anchored e he).1)

end SitsOn

namespace Whole

/-- Every name that a holder uses belongs to a device that answers to its sid. -/
theorem depth_of_anchor (h : g.Whole) {r : Ref} (hr : r ∈ g.nodes.map Node.ref) : r = ⟨r.sid, 0⟩ := by
  obtain ⟨n, hn, rfl⟩ := List.mem_map.1 hr
  exact congrArg (Ref.mk n.device.sid) (h n hn)

theorem mem_next_down (h : g.Whole) {sid : Sid} {n : Node} :
    n ∈ g.next .down ⟨sid, 0⟩ ↔ n ∈ g.nodes ∧ g.SitsOn n.device.sid sid := by
  simp only [next, edgesAt, List.mem_filterMap, List.mem_filter, beq_iff_eq, Edge.tail, Edge.head,
    node?_eq_some]
  constructor
  · rintro ⟨e, ⟨he, hs⟩, hn, ht⟩
    refine ⟨hn, e, he, hs, ?_⟩
    rw [← ht, Node.ref, h n hn]
  · rintro ⟨hn, e, he, hs, ht⟩
    refine ⟨e, ⟨he, hs⟩, hn, ?_⟩
    rw [ht, Node.ref, h n hn]

theorem mem_next_up (h : g.Whole) {sid : Sid} {n : Node} :
    n ∈ g.next .up ⟨sid, 0⟩ ↔ n ∈ g.nodes ∧ g.SitsOn sid n.device.sid := by
  simp only [next, edgesAt, List.mem_filterMap, List.mem_filter, beq_iff_eq, Edge.tail, Edge.head,
    node?_eq_some]
  constructor
  · rintro ⟨e, ⟨he, ht⟩, hn, hs⟩
    refine ⟨hn, e, he, ?_, ht⟩
    rw [← hs, Node.ref, h n hn]
  · rintro ⟨hn, e, he, hs, ht⟩
    refine ⟨e, ⟨he, ht⟩, hn, ?_⟩
    rw [hs, Node.ref, h n hn]

/-- The children of a device are those that sit on it. -/
theorem mem_children (h : g.Whole) {sid child : Sid} {l : List Sid} (hl : g.children sid = .ok l) :
    child ∈ l ↔ g.SitsOn child sid := by
  simp only [children, neighbors, bind_eq_ok, pure_eq_ok] at hl
  obtain ⟨_, _, rfl⟩ := hl
  simp only [SidList.mem_ofList, List.mem_map, h.mem_next_down]
  constructor
  · rintro ⟨n, ⟨_, hs⟩, rfl⟩
    exact hs
  · intro hs
    obtain ⟨d, hd⟩ := hs.child_found
    obtain ⟨hn, rfl⟩ := find?_eq_some.1 hd
    exact ⟨⟨d, 0⟩, ⟨hn, hs⟩, rfl⟩

/-- The parents of a device are those that it sits on. -/
theorem mem_parents (h : g.Whole) {sid parent : Sid} {l : List Sid} (hl : g.parents sid = .ok l) :
    parent ∈ l ↔ g.SitsOn sid parent := by
  simp only [parents, neighbors, bind_eq_ok, pure_eq_ok] at hl
  obtain ⟨_, _, rfl⟩ := hl
  simp only [SidList.mem_ofList, List.mem_map, h.mem_next_up]
  constructor
  · rintro ⟨n, ⟨_, hs⟩, rfl⟩
    exact hs
  · intro hs
    obtain ⟨d, hd⟩ := hs.parent_found
    obtain ⟨hn, rfl⟩ := find?_eq_some.1 hd
    exact ⟨⟨d, 0⟩, ⟨hn, hs⟩, rfl⟩

end Whole

theorem children_total {sid : Sid} {d : Device} (h : g.find? sid = some d) :
    ∃ l, g.children sid = .ok l := by
  simp only [children, neighbors, find_eq_ok.2 h]
  exact ⟨_, rfl⟩

theorem parents_total {sid : Sid} {d : Device} (h : g.find? sid = some d) :
    ∃ l, g.parents sid = .ok l := by
  simp only [parents, neighbors, find_eq_ok.2 h]
  exact ⟨_, rfl⟩

theorem parents_ascending {sid : Sid} {l : List Sid} (h : g.parents sid = .ok l) :
    l.Pairwise (· < ·) := by
  simp only [parents, neighbors, bind_eq_ok, pure_eq_ok] at h
  obtain ⟨_, _, rfl⟩ := h
  exact SidList.pairwise_ofList _

theorem singleParent_eq_ok {sid parent : Sid} :
    g.singleParent sid = .ok parent ↔ g.parent? sid = some parent := by
  unfold parent?
  cases g.singleParent sid <;> simp [Except.toOption]

/-- A device that sits on nothing has no parent to tell. -/
theorem singleParent_of_parent?_eq_none {sid : Sid} {d : Device}
    (hd : g.find? sid = some d) (hp : g.parent? sid = none) :
    g.singleParent sid = .error ↑(TopologyFault.invalidParentCount sid d.kind 0 (.exactly 1)) := by
  cases hn : g.next .up ⟨sid, 0⟩ with
  | nil => simp only [singleParent, find_eq_ok.2 hd, hn, bind, Except.bind]
  | cons n rest =>
    have parent : g.singleParent sid = .ok n.device.sid := by
      simp only [singleParent, find_eq_ok.2 hd, hn, bind, Except.bind, pure, Except.pure]
    rw [singleParent_eq_ok, hp] at parent
    cases parent

/-! ### Valid devicegraphs -/

/-- Every device has the parent and the children that its kind needs. -/
structure Valid (g : Devicegraph) : Prop where
  /-- Every device answers to its sid. -/
  whole : g.Whole
  /-- A device sits on at most one other. -/
  sitsOn_iff : ∀ {child parent}, g.SitsOn child parent ↔ g.parent? child = some parent
  /-- Disks sit on nothing, and all other devices on something. -/
  rooted : ∀ {sid d}, g.find? sid = some d → (g.parent? sid = none ↔ d.kind = .disk)
  /-- Devices sit on devices of a kind for them. -/
  suited : ∀ {child parent c p}, g.find? child = some c → g.find? parent = some p →
    g.parent? child = some parent → c.kind.validParents.contains p.kind = true
  /-- Only partition tables have several children. -/
  onlyChild : ∀ {child child' parent p}, g.find? parent = some p → p.kind ≠ .partitionTable →
    g.parent? child = some parent → g.parent? child' = some parent → child = child'
  /-- No two block devices have one name. -/
  named : g.checkNames = .ok ()
  /-- Partitions get along with their table and its other partitions. -/
  placed : ∀ {sid d p table}, g.find? sid = some d → d.attributes = .partition p →
    g.parent? sid = some table → g.checkPartitionPlacement table p (some sid) = .ok ()

/-! What a successful check says about the edges at one device. -/

/-- The edges at a device, as `checkDevice` counts and looks at them. -/
structure EdgesFit (g : Devicegraph) (d : Device) : Prop where
  kinds : ∀ e ∈ g.edgesAt .up ⟨d.sid, 0⟩, ∀ p, g.node? e.source = some p →
    d.kind.validParents.contains p.device.kind = true
  above : d.kind.validParentCount.contains (g.edgesAt .up ⟨d.sid, 0⟩).length = true
  below : d.kind.validChildren.contains (g.edgesAt .down ⟨d.sid, 0⟩).length = true

theorem edgesFit_of_checkDevice {d : Device} (h : g.checkDevice d = .ok ()) : g.EdgesFit d := by
  simp only [checkDevice, bind_eq_ok, forM_eq_ok, refuse_eq_ok, refuse_bind_eq_ok, Bool.not_eq_true',
    Bool.not_eq_false] at h
  obtain ⟨_, edges, above, below, _⟩ := h
  refine ⟨fun e he p hp => ?_, above, below⟩
  have hedge := edges e he
  simp only [checkEdge, hp, refuse_bind_eq_ok, Bool.not_eq_true', Bool.not_eq_false] at hedge
  exact hedge.1

theorem edgesFit_of_checkHolders (h : g.checkHolders = .ok ()) {sid : Sid} {d : Device}
    (hd : g.find? sid = some d) : g.EdgesFit d := by
  obtain rfl := sid_of_find? hd
  exact edgesFit_of_checkDevice (forM_eq_ok.1 h d (mem_devices.2 hd))

namespace EdgesFit

variable {d : Device}

theorem length_above_le (h : g.EdgesFit d) : (g.edgesAt .up ⟨d.sid, 0⟩).length ≤ 1 := by
  have := h.above
  unfold DeviceKind.validParentCount at this
  split at this <;> simp [Cardinality.contains, Cardinality.zero, Cardinality.exactly] at this <;>
    simp [this]

theorem length_below_le (h : g.EdgesFit d) (hk : d.kind ≠ .partitionTable) :
    (g.edgesAt .down ⟨d.sid, 0⟩).length ≤ 1 := by
  have := h.below
  unfold DeviceKind.validChildren at this
  split at this <;>
    simp_all [Cardinality.contains, Cardinality.zero, Cardinality.exactly, Cardinality.atMost]

/-- A device sits on something unless it is a disk. -/
theorem above_eq_nil (h : g.EdgesFit d) : g.edgesAt .up ⟨d.sid, 0⟩ = [] ↔ d.kind = .disk := by
  have count := h.above
  by_cases hk : d.kind = .disk
  · simpa [hk, DeviceKind.validParentCount, Cardinality.contains, Cardinality.zero,
      Cardinality.exactly] using count
  · refine iff_of_false (fun none => ?_) hk
    cases hd : d.kind <;>
      simp_all [DeviceKind.validParentCount, Cardinality.contains, Cardinality.exactly]

end EdgesFit

theorem mem_edgesAt_up {r : Ref} {e : Edge} : e ∈ g.edgesAt .up r ↔ e ∈ g.edges ∧ e.target = r := by
  simp [edgesAt, Edge.tail]

theorem mem_edgesAt_down {r : Ref} {e : Edge} :
    e ∈ g.edgesAt .down r ↔ e ∈ g.edges ∧ e.source = r := by
  simp [edgesAt, Edge.tail]

/-- A list of at most one element has no two different members. -/
theorem eq_of_mem_of_length_le_one {α : Type} {l : List α} {a b : α} (h : l.length ≤ 1)
    (ha : a ∈ l) (hb : b ∈ l) : a = b := by
  match l with
  | [] => cases ha
  | [c] => rw [List.mem_singleton.1 ha, List.mem_singleton.1 hb]
  | _ :: _ :: _ => simp at h

/-- With at most one holder into a device, its single parent is what it sits on. -/
theorem Whole.sitsOn_iff (h : g.Whole) {child parent : Sid}
    (le : (g.edgesAt .up ⟨child, 0⟩).length ≤ 1) :
    g.SitsOn child parent ↔ g.parent? child = some parent := by
  have short : (g.next .up ⟨child, 0⟩).length ≤ 1 :=
    Nat.le_trans (List.length_filterMap_le _ _) le
  rw [← singleParent_eq_ok]
  simp only [singleParent, bind_eq_ok]
  constructor
  · intro hs
    obtain ⟨c, hc⟩ := hs.child_found
    obtain ⟨p, hp⟩ := hs.parent_found
    obtain ⟨hn, rfl⟩ := find?_eq_some.1 hp
    have mem := h.mem_next_up.2 ⟨hn, hs⟩
    refine ⟨c, find_eq_ok.2 hc, ?_⟩
    split
    · next m rest hnext =>
      have same : m = ⟨p, 0⟩ :=
        eq_of_mem_of_length_le_one short (hnext ▸ List.mem_cons_self) mem
      rw [same]
      rfl
    · next hnext => simp [hnext] at mem
  · rintro ⟨c, _, hm⟩
    split at hm
    · next n rest hnext =>
      rw [pure_eq_ok] at hm
      subst hm
      exact (h.mem_next_up.1 (hnext ▸ List.mem_cons_self)).2
    · simp at hm

theorem whole_of_checkIndex (h : g.checkIndex = .ok ()) : g.Whole := by
  unfold checkIndex at h
  split at h
  · next hall => simpa [Whole] using hall
  · cases h

/-! What follows for the parents, when the holders were checked. -/

section

variable {sid child child' parent : Sid} {c p d : Device}

theorem sitsOn_iff_of_fit (whole : g.Whole) (fit : ∀ {sid d}, g.find? sid = some d → g.EdgesFit d) :
    g.SitsOn child parent ↔ g.parent? child = some parent := by
  cases hc : g.find? child with
  | some c =>
    obtain rfl := sid_of_find? hc
    exact whole.sitsOn_iff (fit hc).length_above_le
  | none =>
    constructor
    · intro hs
      obtain ⟨c, hc'⟩ := hs.child_found
      rw [hc] at hc'
      cases hc'
    · intro hp
      rw [← singleParent_eq_ok] at hp
      simp [singleParent, find, hc, bind, Except.bind] at hp

theorem rooted_of_fit (whole : g.Whole) (fit : ∀ {sid d}, g.find? sid = some d → g.EdgesFit d)
    (hd : g.find? sid = some d) : g.parent? sid = none ↔ d.kind = .disk := by
  obtain rfl := sid_of_find? hd
  rw [← (fit hd).above_eq_nil, Option.eq_none_iff_forall_ne_some]
  constructor
  · intro none
    refine List.eq_nil_iff_forall_not_mem.2 fun e he => ?_
    obtain ⟨he, ht⟩ := mem_edgesAt_up.1 he
    have hs := whole.depth_of_anchor (g.anchored e he).1
    exact none e.source.sid ((sitsOn_iff_of_fit whole fit).1 ⟨e, he, hs, ht⟩)
  · intro none p hp
    obtain ⟨e, he, _, ht⟩ := (sitsOn_iff_of_fit whole fit).2 hp
    simpa [none] using mem_edgesAt_up.2 ⟨he, ht⟩

theorem suited_of_fit (fit : g.EdgesFit c) (hc : g.find? child = some c)
    (hp : g.find? parent = some p) (hs : g.SitsOn child parent) :
    c.kind.validParents.contains p.kind = true := by
  obtain ⟨e, he, source, target⟩ := hs
  obtain rfl := sid_of_find? hc
  obtain ⟨hn, rfl⟩ := find?_eq_some.1 hp
  exact fit.kinds e (mem_edgesAt_up.2 ⟨he, target⟩) ⟨p, 0⟩ (node?_eq_some.2 ⟨hn, source.symm⟩)

theorem onlyChild_of_fit (fit : g.EdgesFit p) (hp : g.find? parent = some p)
    (hk : p.kind ≠ .partitionTable) (hs : g.SitsOn child parent) (hs' : g.SitsOn child' parent) :
    child = child' := by
  obtain ⟨e, he, source, target⟩ := hs
  obtain ⟨e', he', source', target'⟩ := hs'
  obtain rfl := sid_of_find? hp
  have same : e = e' := eq_of_mem_of_length_le_one (fit.length_below_le hk)
    (mem_edgesAt_down.2 ⟨he, source⟩) (mem_edgesAt_down.2 ⟨he', source'⟩)
  exact congrArg Ref.sid (target.symm.trans (same ▸ target'))

end

/-- A checked devicegraph is valid. -/
theorem valid_of_check (h : g.check = .ok ()) : g.Valid := by
  simp only [check, bind_eq_ok] at h
  obtain ⟨_, hindex, _, _, _, hholders, _, hnames, hpartitions⟩ := h
  have whole := whole_of_checkIndex hindex
  have fit : ∀ {sid d}, g.find? sid = some d → g.EdgesFit d := edgesFit_of_checkHolders hholders
  have sits : ∀ {child parent}, g.SitsOn child parent ↔ g.parent? child = some parent :=
    sitsOn_iff_of_fit whole fit
  refine ⟨whole, sits, rooted_of_fit whole fit, ?_, ?_, hnames, ?_⟩
  · intro child parent c p hc hp hparent
    exact suited_of_fit (fit hc) hc hp (sits.2 hparent)
  · intro child child' parent p hp hk hc hc'
    exact onlyChild_of_fit (fit hp) hp hk (sits.2 hc) (sits.2 hc')
  · intro sid d p table hd hp ht
    have isPartition : sid ∈ g.allOfKind .partition :=
      mem_allOfKind.2 ⟨d, hd, by rw [Device.kind, hp]; rfl⟩
    have placed := forM_eq_ok.1 hpartitions sid isPartition
    rwa [singleParent_eq_ok.2 ht, partition_eq_ok.2 ⟨d, hd, hp⟩] at placed

end Devicegraph

end StoragePlan
