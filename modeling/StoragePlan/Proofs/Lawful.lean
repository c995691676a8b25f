import StoragePlan.Proofs.Layout

/-!
# The rules for devicegraphs

`Valid` has what the plans need of a devicegraph that was checked. `Lawful` has all the rules, each
said where it belongs: for every device its holders (`Joined`), for every two devices their names,
for every partition table its layout (`Arranged`). A devicegraph passes its check exactly if it is
lawful (`check_eq_ok`).

That no device sits on itself is not among the rules, because it follows from them: a device sits on
devices of lower tiers only (`DeviceKind.tier`).
-/

namespace StoragePlan

namespace DeviceKind

/-- How many devices are below a device of the kind at most. -/
def tier : DeviceKind → Nat
  | disk => 0
  | partitionTable => 1
  | partition => 2
  | filesystem => 3

/-- Devices are placed on devices of lower tiers. -/
theorem tier_lt {child parent : DeviceKind} (h : child.validParents.contains parent = true) :
    parent.tier < child.tier := by
  cases child <;> cases parent <;> simp_all [validParents, KindSet.contains, tier]

end DeviceKind

namespace Devicegraph

open Attempt

variable {g : Devicegraph}

/-! ### Holders -/

/-- The holders at a device are as its kind needs them. -/
structure Joined (g : Devicegraph) (d : Device) : Prop extends g.EdgesFit d where
  /-- The holders into the device are of the kind for it. -/
  holders : ∀ e ∈ g.edgesAt .up ⟨d.sid, 0⟩, e.kind = d.kind.parentHolderKind

theorem exists_source {e : Edge} (he : e ∈ g.edges) : ∃ p, g.node? e.source = some p := by
  obtain ⟨p, hp, hr⟩ := List.mem_map.1 (g.anchored e he).1
  exact ⟨p, node?_eq_some.2 ⟨hp, hr⟩⟩

theorem checkEdge_eq_ok {child : Device} {e : Edge} (he : e ∈ g.edges) :
    g.checkEdge child e = .ok () ↔
      (∀ p, g.node? e.source = some p →
        child.kind.validParents.contains p.device.kind = true) ∧
      e.kind = child.kind.parentHolderKind := by
  obtain ⟨p, hp⟩ := exists_source he
  simp only [checkEdge, hp, refuse_bind_eq_ok, refuse_eq_ok, pure_eq_ok, Bool.not_eq_true',
    Bool.not_eq_false, Option.some.injEq, forall_eq', ne_eq, not_not, and_true]

theorem checkDevice_eq_ok {d : Device} : g.checkDevice d = .ok () ↔ g.Joined d := by
  constructor
  · intro h
    refine ⟨edgesFit_of_checkDevice h, fun e he => ?_⟩
    obtain ⟨_, edges, _⟩ := bind_eq_ok.1 h
    exact ((checkEdge_eq_ok (mem_edgesAt_up.1 he).1).1 (forM_eq_ok.1 edges e he)).2
  · intro h
    simp only [checkDevice, bind_eq_ok, forM_eq_ok, refuse_eq_ok, refuse_bind_eq_ok,
      Bool.not_eq_true', Bool.not_eq_false, pure_eq_ok, and_true]
    refine ⟨(), fun e he => ?_, h.above, h.below⟩
    exact (checkEdge_eq_ok (mem_edgesAt_up.1 he).1).2 ⟨h.kinds e he, h.holders e he⟩

theorem checkHolders_eq_ok :
    g.checkHolders = .ok () ↔ ∀ {sid d}, g.find? sid = some d → g.Joined d := by
  unfold checkHolders
  rw [forM_eq_ok]
  constructor
  · intro h sid d hd
    obtain rfl := sid_of_find? hd
    exact checkDevice_eq_ok.1 (h d (mem_devices.2 hd))
  · intro h d hd
    exact checkDevice_eq_ok.2 (h (mem_devices.1 hd))

/-! ### Cycles -/

section

variable (whole : g.Whole) (joined : ∀ {x d}, g.find? x = some d → g.Joined d)
include whole joined

/-- What a device leads to is of a higher tier. -/
theorem tier_lt_of_mem_explore {sid : Sid} {d : Device} (hd : g.find? sid = some d) {x : Sid}
    (hx : x ∈ g.explore .down [] [⟨sid, 0⟩]) :
    ∃ c, g.find? x = some c ∧ d.kind.tier < c.kind.tier := by
  have above : ∀ {y c}, g.find? y = some c → ∀ n ∈ g.next .down ⟨y, 0⟩,
      ∃ e, g.find? n.device.sid = some e ∧ c.kind.tier < e.kind.tier := by
    intro y c hc n hn
    obtain ⟨_, hs⟩ := whole.mem_next_down.1 hn
    obtain ⟨e, he⟩ := hs.child_found
    exact ⟨e, he, DeviceKind.tier_lt (suited_of_fit (joined he).toEdgesFit he hc hs)⟩
  refine (of_mem_explore whole (P := fun x => ∃ c, g.find? x = some c ∧
    d.kind.tier < c.kind.tier) ?_ ?_ hx).resolve_left List.not_mem_nil
  · rintro y ⟨c, hc, lt⟩ n hn
    obtain ⟨e, he, lt'⟩ := above hc n hn
    exact ⟨e, he, lt.trans lt'⟩
  · intro r hr n hn
    obtain rfl := List.mem_singleton.1 hr
    exact above hd n hn

/-- Where every device has the holders that its kind needs, none leads back to itself. -/
theorem acyclic_of_joined : g.acyclic = true := by
  simp only [Devicegraph.acyclic, Bool.not_eq_true', List.any_eq_false, onCycle,
    List.contains_iff_mem]
  intro n hn back
  have ref_eq : n.ref = ⟨n.device.sid, 0⟩ := congrArg (Ref.mk n.device.sid) (whole n hn)
  have anchor : n.ref ∈ g.nodes.map Node.ref := List.mem_map_of_mem hn
  obtain ⟨d, hd⟩ := find?_of_anchor (ref_eq ▸ anchor)
  obtain ⟨c, hc, lt⟩ := tier_lt_of_mem_explore whole joined hd (ref_eq ▸ back)
  obtain rfl := Option.some.inj (hd.symm.trans hc)
  exact lt_irrefl _ lt

end

/-! ### Names -/

theorem repeated?_eq_none {seen names : List String} :
    repeated? seen names = none ↔ names.Nodup ∧ ∀ n ∈ names, n ∉ seen := by
  induction names generalizing seen with
  | nil => simp [repeated?]
  | cons n rest ih =>
    unfold repeated?
    by_cases met : n ∈ seen
    · simp [met]
    · rw [if_neg met, ih, List.nodup_cons, List.forall_mem_cons]
      constructor
      · rintro ⟨distinct, new⟩
        refine ⟨⟨fun again => ?_, distinct⟩, met, fun m hm hs => ?_⟩
        · exact new n again List.mem_cons_self
        · exact new m hm (List.mem_cons_of_mem _ hs)
      · rintro ⟨⟨once, distinct⟩, _, new⟩
        refine ⟨distinct, fun m hm hs => ?_⟩
        rcases List.mem_cons.1 hs with rfl | hs
        · exact once hm
        · exact new m hm hs

/-- The names in a list of devices differ if no two devices have one. -/
theorem nodup_names_iff {devices : List Device}
    (distinct : devices.Pairwise fun a b => a.sid ≠ b.sid) :
    (devices.filterMap Device.name?).Nodup ↔ ∀ c ∈ devices, ∀ d ∈ devices, ∀ name,
      c.name? = some name → d.name? = some name → c.sid = d.sid := by
  rw [List.Nodup, List.pairwise_filterMap]
  constructor
  · intro h c hc d hd name hcn hdn
    have : Std.Symm fun a b : Device => ∀ n, a.name? = some n → ∀ m, b.name? = some m → n ≠ m :=
      ⟨fun a b differ n hn m hm => (differ m hm n hn).symm⟩
    by_contra ne
    have other : c ≠ d := by
      rintro rfl
      exact ne rfl
    exact h.forall hc hd other name hcn name hdn rfl
  · intro h
    refine distinct.imp_of_mem fun {a b} ha hb ne n hn m hm same => ?_
    subst same
    exact ne (h a ha b hb n hn hm)

/-- Two devices with one name are one device. -/
theorem checkNames_eq_ok : g.checkNames = .ok () ↔
    ∀ {x y c d name}, g.find? x = some c → g.find? y = some d → c.name? = some name →
      d.name? = some name → x = y := by
  have decides : g.checkNames = .ok () ↔ (g.devices.filterMap Device.name?).Nodup := by
    have accepted := @repeated?_eq_none [] (g.devices.filterMap Device.name?)
    simp only [List.not_mem_nil, not_false_eq_true, implies_true, and_true] at accepted
    rw [← accepted]
    unfold checkNames
    split <;> simp_all
  rw [decides, nodup_names_iff ((devices_ascending g).imp fun lt => Nat.ne_of_lt lt)]
  constructor
  · intro h x y c d name hx hy hc hd
    obtain rfl := sid_of_find? hx
    obtain rfl := sid_of_find? hy
    exact h c (mem_devices.2 hx) d (mem_devices.2 hy) name hc hd
  · intro h c hc d hd name hcn hdn
    exact h (mem_devices.1 hc) (mem_devices.1 hd) hcn hdn

theorem checkNameUnused_eq_ok {name : String} {except : Option Sid} :
    g.checkNameUnused name except = .ok () ↔
      ∀ {x d}, g.find? x = some d → d.name? = some name → except = some x := by
  unfold checkNameUnused
  constructor
  · intro h x d hd hn
    obtain rfl := sid_of_find? hd
    split at h
    · cases h
    · next unused =>
      simp only [List.any_eq_true, Bool.and_eq_true, beq_iff_eq, bne_iff_ne, ne_eq, not_exists,
        not_and, not_not] at unused
      exact (unused d (mem_devices.2 hd) hn).symm
  · intro h
    rw [if_neg]
    simp only [List.any_eq_true, Bool.and_eq_true, beq_iff_eq, bne_iff_ne, ne_eq, not_exists,
      not_and, not_not]
    intro d hd hn
    exact (h (mem_devices.1 hd) hn).symm

/-! ### All rules -/

/-- The devicegraph follows all rules. -/
structure Lawful (g : Devicegraph) : Prop where
  /-- Every device answers to its sid. -/
  whole : g.Whole
  /-- Every device has the holders that its kind needs. -/
  joined : ∀ {sid d}, g.find? sid = some d → g.Joined d
  /-- No two devices have one name. -/
  named : ∀ {x y c d name}, g.find? x = some c → g.find? y = some d → c.name? = some name →
    d.name? = some name → x = y
  /-- The partitions of every table get along with each other, the table and its disk. -/
  arranged : ∀ {table disk t d}, g.partitionTable table = .ok t → g.parent? table = some disk →
    g.disk disk = .ok d → Arranged t.ptType d (g.partAt table)

theorem sitsOn_iff_of_joined (whole : g.Whole)
    (joined : ∀ {x d}, g.find? x = some d → g.Joined d) {child parent : Sid} :
    g.SitsOn child parent ↔ g.parent? child = some parent :=
  sitsOn_iff_of_fit whole fun hd => (joined hd).toEdgesFit

namespace Lawful

variable {sid table : Sid}

theorem fit (h : g.Lawful) {d : Device} (hd : g.find? sid = some d) : g.EdgesFit d :=
  (h.joined hd).toEdgesFit

theorem sitsOn_iff (h : g.Lawful) {child parent : Sid} :
    g.SitsOn child parent ↔ g.parent? child = some parent := sitsOn_iff_of_joined h.whole h.joined

theorem rooted (h : g.Lawful) {d : Device} (hd : g.find? sid = some d) :
    g.parent? sid = none ↔ d.kind = .disk := rooted_of_fit h.whole h.fit hd

theorem suited (h : g.Lawful) {child parent : Sid} {c p : Device} (hc : g.find? child = some c)
    (hp : g.find? parent = some p) (hs : g.parent? child = some parent) :
    c.kind.validParents.contains p.kind = true :=
  suited_of_fit (h.fit hc) hc hp (h.sitsOn_iff.2 hs)

/-- A partition is on a table, the table on a disk, and on the table are only partitions. -/
theorem around_partition (h : g.Lawful) {p : Partition} (hp : g.partition sid = .ok p)
    (hs : g.parent? sid = some table) : ∃ t disk d, g.partitionTable table = .ok t ∧
      g.parent? table = some disk ∧ g.disk disk = .ok d ∧
      ∀ y, g.parent? y = some table → ∃ q, g.partition y = .ok q := by
  obtain ⟨c, hc, ha⟩ := partition_eq_ok.1 hp
  obtain ⟨td, htd⟩ := (h.sitsOn_iff.2 hs).parent_found
  have isTable : td.kind = .partitionTable :=
    DeviceKind.partition_on.1 (isPartition_of_attributes ha ▸ h.suited hc htd hs)
  obtain ⟨t, ht⟩ := attributes_of_isPartitionTable isTable
  obtain ⟨disk, hdisk⟩ := Option.ne_none_iff_exists'.1 fun none =>
    absurd ((h.rooted htd).1 none) (by simp [isTable])
  obtain ⟨dd, hdd⟩ := (h.sitsOn_iff.2 hdisk).parent_found
  have isDisk : dd.kind = .disk :=
    DeviceKind.partitionTable_on.1 (isTable ▸ h.suited htd hdd hdisk)
  obtain ⟨d, hd⟩ := attributes_of_isDisk isDisk
  refine ⟨t, disk, d, partitionTable_eq_ok.2 ⟨td, htd, ht⟩, hdisk, disk_eq_ok.2 ⟨dd, hdd, hd⟩, ?_⟩
  intro y hy
  obtain ⟨yd, hyd⟩ := (h.sitsOn_iff.2 hy).child_found
  have isPartition : yd.kind = .partition :=
    DeviceKind.on_partitionTable.1 (isTable ▸ h.suited hyd htd hy)
  obtain ⟨q, hq⟩ := attributes_of_isPartition isPartition
  exact ⟨q, partition_eq_ok.2 ⟨yd, hyd, hq⟩⟩

/-- Every partition is accepted where it is. -/
theorem placed (h : g.Lawful) {p : Partition} (hp : g.partition sid = .ok p)
    (hs : g.parent? sid = some table) :
    g.checkPartitionPlacement table p (some sid) = .ok () := by
  obtain ⟨t, disk, d, ht, hdisk, hd, parts⟩ := h.around_partition hp hs
  have layout := h.arranged ht hdisk hd
  have here : g.partAt table sid = some p := partAt_eq_some.2 ⟨hs, hp⟩
  obtain ⟨siblings, others, accepted⟩ := checkPartitionPlacement_eq_ok sid p h.whole h.sitsOn_iff
    (.inl rfl) ht hdisk hd parts
  exact accepted.2 ⟨layout.suits here, layout.checked here others⟩

/-- A lawful devicegraph is valid. -/
theorem valid (h : g.Lawful) : g.Valid := by
  refine ⟨h.whole, h.sitsOn_iff, h.rooted, h.suited, ?_, checkNames_eq_ok.2 h.named, ?_⟩
  · intro child child' parent p hp hk hc hc'
    exact onlyChild_of_fit (h.fit hp) hp hk (h.sitsOn_iff.2 hc) (h.sitsOn_iff.2 hc')
  · intro x c p table hx ha hs
    exact h.placed (partition_eq_ok.2 ⟨c, hx, ha⟩) hs

end Lawful

/-- A devicegraph passes its check exactly if it is lawful. -/
theorem check_eq_ok : g.check = .ok () ↔ g.Lawful := by
  constructor
  · intro h
    have valid := valid_of_check h
    simp only [check, check_bind_eq_ok] at h
    obtain ⟨_, _, holders, names, _⟩ := h
    exact ⟨valid.whole, checkHolders_eq_ok.1 holders, checkNames_eq_ok.1 names, valid.arranged⟩
  · intro h
    have index : g.checkIndex = .ok () := by
      unfold checkIndex
      rw [if_pos]
      simpa [Whole] using h.whole
    have acyclic : g.checkAcyclic = .ok () := if_pos (acyclic_of_joined h.whole h.joined)
    simp only [check, check_bind_eq_ok]
    refine ⟨index, acyclic, checkHolders_eq_ok.2 h.joined, checkNames_eq_ok.2 h.named, ?_⟩
    refine forM_eq_ok.2 fun sid hs => ?_
    obtain ⟨d, hd, hk⟩ := mem_allOfKind.1 hs
    obtain ⟨p, hp⟩ := attributes_of_isPartition hk
    obtain ⟨table, _, ht, _⟩ := h.valid.exists_table hd hk
    simp only [bind_eq_ok, singleParent_eq_ok.2 ht, partition_eq_ok.2 ⟨d, hd, hp⟩, Except.ok.injEq,
      exists_eq_left']
    exact h.valid.placed hd hp ht

/-- Nothing is wrong where nothing is. -/
theorem lawful_empty : empty.Lawful := by
  have none : ∀ {x d}, empty.find? x ≠ some d := by
    intro x d hd
    cases (find?_eq_some.1 hd).1
  refine ⟨fun n hn => (by cases hn), fun hd => absurd hd none, fun hb => absurd hb none, ?_⟩
  intro table disk t d ht
  obtain ⟨c, hc, _⟩ := partitionTable_eq_ok.1 ht
  exact absurd hc none

/-! ### Counting children -/

theorem length_ofList {l : List Sid} (h : l.Nodup) : (SidList.ofList l).length = l.length := by
  have distinct := (SidList.pairwise_ofList l).imp fun lt => Nat.ne_of_lt lt
  exact ((List.perm_ext_iff_of_nodup distinct h).2 fun _ => SidList.mem_ofList).length_eq

/-- No two holders lead to one device. -/
theorem Lawful.nodup_targets (h : g.Lawful) : (g.edges.map Edge.target).Nodup := by
  rw [List.nodup_iff_count_le_one]
  intro r
  have count : (g.edges.map Edge.target).count r = (g.edgesAt .up r).length := by
    rw [List.count, List.countP_map, edgesAt, ← List.countP_eq_length_filter]
    rfl
  rw [count]
  by_cases met : r ∈ g.edges.map Edge.target
  · obtain ⟨e, he, rfl⟩ := List.mem_map.1 met
    have answers := h.whole.depth_of_anchor (g.anchored e he).2
    obtain ⟨d, hd⟩ := find?_of_anchor (answers ▸ (g.anchored e he).2)
    have le := (h.fit hd).length_above_le
    rwa [sid_of_find? hd, ← answers] at le
  · rw [← count, List.count_eq_zero_of_not_mem met]
    exact Nat.zero_le 1

/-- A device has as many children as there are holders from it. -/
theorem Lawful.length_children (h : g.Lawful) {sid : Sid} {l : List Sid}
    (hl : g.children sid = .ok l) : l.length = (g.edgesAt .down ⟨sid, 0⟩).length := by
  simp only [children, neighbors, bind_eq_ok, pure_eq_ok] at hl
  obtain ⟨_, _, rfl⟩ := hl
  have children_eq : (g.next .down ⟨sid, 0⟩).map (fun n => n.device.sid) =
      ((g.edgesAt .down ⟨sid, 0⟩).map Edge.target).map Ref.sid := by
    rw [next, List.map_filterMap, List.map_map, ← List.filterMap_eq_map]
    refine List.filterMap_congr fun e he => ?_
    obtain ⟨n, hn, hr⟩ := List.mem_map.1 (g.anchored e (mem_edgesAt_down.1 he).1).2
    rw [Edge.head, node?_eq_some.2 ⟨hn, hr⟩]
    exact congrArg (some ∘ Ref.sid) hr
  have distinct : (((g.edgesAt .down ⟨sid, 0⟩).map Edge.target).map Ref.sid).Nodup := by
    refine List.Nodup.map_on ?_ (h.nodup_targets.sublist (List.filter_sublist.map _))
    intro a ha b hb same
    obtain ⟨e, he, rfl⟩ := List.mem_map.1 ha
    obtain ⟨f, hf, rfl⟩ := List.mem_map.1 hb
    rw [h.whole.depth_of_anchor (g.anchored e (mem_edgesAt_down.1 he).1).2, same,
      ← h.whole.depth_of_anchor (g.anchored f (mem_edgesAt_down.1 hf).1).2]
  rw [children_eq, length_ofList distinct, List.length_map, List.length_map]

/-! ### Carrying rules over to another devicegraph -/

/-- A device stays joined where the holders into it are the same, as many devices can be on it as
are, and no device around it is of another kind. -/
theorem Joined.carry {g' : Devicegraph} {d d' : Device} (h : g.Joined d) (whole : g'.Whole)
    (sid_eq : d'.sid = d.sid) (kind_eq : d'.kind = d.kind)
    (above : g'.edgesAt .up ⟨d.sid, 0⟩ = g.edgesAt .up ⟨d.sid, 0⟩)
    (below : d.kind.validChildren.contains (g'.edgesAt .down ⟨d.sid, 0⟩).length = true)
    (kinds : ∀ {x c c'}, g.find? x = some c → g'.find? x = some c' → c'.kind = c.kind) :
    g'.Joined d' := by
  refine ⟨⟨fun e he p' hp' => ?_, ?_, ?_⟩, fun e he => ?_⟩
  · rw [sid_eq, above] at he
    obtain ⟨p, hp⟩ := exists_source (mem_edgesAt_up.1 he).1
    have answers : e.source = ⟨e.source.sid, 0⟩ := by
      obtain ⟨hn, hr⟩ := node?_eq_some.1 hp'
      rw [← hr, Node.ref, whole p' hn]
    have before : g.find? e.source.sid = some p.device := by rw [find?, ← answers, hp]; rfl
    have after : g'.find? e.source.sid = some p'.device := by rw [find?, ← answers, hp']; rfl
    rw [kind_eq, kinds before after]
    exact h.kinds e he p hp
  · rw [sid_eq, kind_eq, above]
    exact h.above
  · rw [sid_eq, kind_eq]
    exact below
  · rw [sid_eq, above] at he
    rw [kind_eq]
    exact h.holders e he

end Devicegraph

end StoragePlan
