import Mathlib.Logic.Relation
import StoragePlan.Proofs.Holding

/-!
# Moving through valid devicegraphs

In a valid devicegraph every question about the devices around a device that is there has an
answer, and `parent?` alone tells which: the children of a device are those whose parent it is, its
descendants are what rests on it (`RestsOn`), the partitions of a table are its children, and the
logical partitions of an extended one are those that share its table.
-/

namespace StoragePlan.DeviceKind

/-- Only partition tables hold partitions. -/
theorem partition_on {parent : DeviceKind} :
    partition.validParents.contains parent = true ↔ parent = partitionTable := by
  cases parent <;> decide

/-- Only disks hold partition tables. -/
theorem partitionTable_on {parent : DeviceKind} :
    partitionTable.validParents.contains parent = true ↔ parent = disk := by
  cases parent <;> decide

/-- Partition tables hold partitions only. -/
theorem on_partitionTable {child : DeviceKind} :
    child.validParents.contains partitionTable = true ↔ child = partition := by
  cases child <;> decide

end StoragePlan.DeviceKind

namespace StoragePlan.Devicegraph

open Attempt Relation

variable {g : Devicegraph}

theorem isPartition_of_attributes {d : Device} {p : Partition} (h : d.attributes = .partition p) :
    d.kind = .partition := by rw [Device.kind, h]; rfl

/-- A partition is known by its kind. -/
theorem attributes_of_isPartition {d : Device} (h : d.kind = .partition) :
    ∃ p, d.attributes = .partition p := by
  unfold Device.kind at h
  cases ha : d.attributes <;> simp_all [Attributes.kind]

theorem attributes_of_isPartitionTable {d : Device} (h : d.kind = .partitionTable) :
    ∃ t, d.attributes = .partitionTable t := by
  unfold Device.kind at h
  cases ha : d.attributes <;> simp_all [Attributes.kind]

theorem attributes_of_isDisk {d : Device} (h : d.kind = .disk) : ∃ a, d.attributes = .disk a := by
  unfold Device.kind at h
  cases ha : d.attributes <;> simp_all [Attributes.kind]

theorem attributes_of_isFilesystem {d : Device} (h : d.kind = .filesystem) :
    ∃ fs, d.attributes = .filesystem fs := by
  unfold Device.kind at h
  cases ha : d.attributes <;> simp_all [Attributes.kind]

/-! ### Following holders -/

/-- Nothing leaves the worklist or the devices met. -/
theorem discover_grows (seen : List Sid) (work : List Ref) (nodes : List Node) :
    seen ⊆ (discover seen work nodes).1 ∧ work ⊆ (discover seen work nodes).2 := by
  induction nodes generalizing seen work with
  | nil => exact ⟨fun _ h => h, fun _ h => h⟩
  | cons n rest ih =>
    unfold discover
    split
    · exact ih seen work
    · obtain ⟨hs, hw⟩ := ih (n.device.sid :: seen) (n.ref :: work)
      exact ⟨fun _ h => hs (List.mem_cons_of_mem _ h), fun _ h => hw (List.mem_cons_of_mem _ h)⟩

/-- All nodes are met. -/
theorem mem_discover {nodes : List Node} {n : Node} (hn : n ∈ nodes) (seen : List Sid)
    (work : List Ref) : n.device.sid ∈ (discover seen work nodes).1 := by
  induction nodes generalizing seen work with
  | nil => cases hn
  | cons m rest ih =>
    unfold discover
    rcases List.mem_cons.1 hn with rfl | hn
    · split
      · next hs => exact (discover_grows seen work rest).1 hs
      · exact (discover_grows _ _ rest).1 List.mem_cons_self
    · split
      · exact ih hn seen work
      · exact ih hn _ _

/-- What is met for the first time is put onto the worklist. -/
theorem of_mem_discover {nodes : List Node} {sid : Sid} {seen : List Sid} {work : List Ref}
    (h : sid ∈ (discover seen work nodes).1) (hs : sid ∉ seen) :
    ∃ n ∈ nodes, n.device.sid = sid ∧ n.ref ∈ (discover seen work nodes).2 := by
  induction nodes generalizing seen work with
  | nil => exact absurd h hs
  | cons m rest ih =>
    unfold discover at h ⊢
    split at h
    · next hm =>
      rw [if_pos hm]
      obtain ⟨n, hn, rest⟩ := ih h hs
      exact ⟨n, List.mem_cons_of_mem _ hn, rest⟩
    · next hm =>
      rw [if_neg hm]
      by_cases same : m.device.sid = sid
      · exact ⟨m, List.mem_cons_self, same, (discover_grows _ _ rest).2 List.mem_cons_self⟩
      · obtain ⟨n, hn, rest⟩ := ih h (by simp [hs, Ne.symm same])
        exact ⟨n, List.mem_cons_of_mem _ hn, rest⟩

/-- Nothing but the nodes is put onto the worklist. -/
theorem mem_work_of_discover {nodes : List Node} {r : Ref} {seen : List Sid} {work : List Ref}
    (h : r ∈ (discover seen work nodes).2) : r ∈ work ∨ ∃ n ∈ nodes, n.ref = r := by
  induction nodes generalizing seen work with
  | nil => exact .inl h
  | cons m rest ih =>
    unfold discover at h
    split at h
    · rcases ih h with hw | ⟨n, hn, hr⟩
      · exact .inl hw
      · exact .inr ⟨n, List.mem_cons_of_mem _ hn, hr⟩
    · rcases ih h with hw | ⟨n, hn, hr⟩
      · rcases List.mem_cons.1 hw with rfl | hw
        · exact .inr ⟨m, List.mem_cons_self, rfl⟩
        · exact .inl hw
      · exact .inr ⟨n, List.mem_cons_of_mem _ hn, hr⟩

/-- Whatever holds next to the worklist, and next to each device for which it holds, holds for all
devices that are met on the way. -/
theorem of_mem_explore (h : g.Whole) {dir : Direction} {P : Sid → Prop}
    (step : ∀ sid, P sid → ∀ n ∈ g.next dir ⟨sid, 0⟩, P n.device.sid) {seen : List Sid}
    {work : List Ref} (start : ∀ r ∈ work, ∀ n ∈ g.next dir r, P n.device.sid) {sid : Sid}
    (hs : sid ∈ g.explore dir seen work) : sid ∈ seen ∨ P sid := by
  fun_induction explore g dir seen work with
  | case1 seen => exact .inl hs
  | case2 seen r work found ih =>
    have here : ∀ n ∈ g.next dir r, P n.device.sid := start r List.mem_cons_self
    have start' : ∀ r' ∈ found.2, ∀ n ∈ g.next dir r', P n.device.sid := by
      intro r' hr' n hn
      rcases mem_work_of_discover hr' with hr' | ⟨m, hm, rfl⟩
      · exact start r' (List.mem_cons_of_mem _ hr') n hn
      · have ref_eq : m.ref = ⟨m.device.sid, 0⟩ :=
          congrArg (Ref.mk m.device.sid) (h m (mem_nodes_of_mem_next hm))
        exact step m.device.sid (here m hm) n (ref_eq ▸ hn)
    rcases ih start' hs with met | holds
    · by_cases before : sid ∈ seen
      · exact .inl before
      · obtain ⟨n, hn, rfl, _⟩ := of_mem_discover met before
        exact .inr (here n hn)
    · exact .inr holds

/-- Exploring keeps what was met, meets what is next to the worklist, and meets what is next to
anything that it met itself. -/
theorem explore_closed (h : g.Whole) (dir : Direction) (seen : List Sid) (work : List Ref) :
    seen ⊆ g.explore dir seen work ∧
      (∀ r ∈ work, ∀ n ∈ g.next dir r, n.device.sid ∈ g.explore dir seen work) ∧
      ∀ sid ∈ g.explore dir seen work, sid ∉ seen → ∀ n ∈ g.next dir ⟨sid, 0⟩,
        n.device.sid ∈ g.explore dir seen work := by
  fun_induction explore g dir seen work with
  | case1 seen =>
    exact ⟨fun _ hs => hs, fun _ hr => absurd hr List.not_mem_nil, fun _ hs hn => absurd hs hn⟩
  | case2 seen r work found ih =>
    obtain ⟨keeps, nexts, closed⟩ := ih
    have grows := discover_grows seen work (g.next dir r)
    refine ⟨fun _ hs => keeps (grows.1 hs), fun r' hr' n hn => ?_, fun sid hs hn => ?_⟩
    · rcases List.mem_cons.1 hr' with rfl | hr'
      · exact keeps (mem_discover hn seen work)
      · exact nexts r' (grows.2 hr') n hn
    · by_cases met : sid ∈ found.1
      · obtain ⟨m, hm, rfl, hwork⟩ := of_mem_discover met hn
        have hr : m.ref = ⟨m.device.sid, 0⟩ :=
          congrArg (Ref.mk m.device.sid) (h m (mem_nodes_of_mem_next hm))
        exact hr ▸ nexts _ hwork
      · exact closed sid hs met

theorem descendants_total {sid : Sid} {d : Device} (h : g.find? sid = some d) (itself : Bool) :
    ∃ l, g.descendants sid itself = .ok l := by
  simp only [descendants, reachable, find_eq_ok.2 h]
  exact ⟨_, rfl⟩

/-- Descendants are listed by their sids, and without the device. -/
theorem descendants_ascending {sid : Sid} {l : List Sid}
    (hl : g.descendants sid false = .ok l) : l.Pairwise (· < ·) ∧ sid ∉ l := by
  simp only [descendants, reachable, bind_eq_ok, pure_eq_ok] at hl
  obtain ⟨_, _, rfl⟩ := hl
  exact ⟨SidList.pairwise_ofList _, by simp⟩

/-- The device sits on the other one, or on something that rests on it. -/
def RestsOn (g : Devicegraph) : Sid → Sid → Prop :=
  TransGen fun child parent => g.parent? child = some parent

namespace Valid

variable {sid child parent table : Sid}

/-! ### Parents and children -/

theorem child_found (h : g.Valid) (hp : g.parent? child = some parent) :
    ∃ d, g.find? child = some d := (h.sitsOn_iff.2 hp).child_found

theorem parent_found (h : g.Valid) (hp : g.parent? child = some parent) :
    ∃ d, g.find? parent = some d := (h.sitsOn_iff.2 hp).parent_found

/-- The children of a device are those whose parent it is. -/
theorem mem_children (h : g.Valid) {l : List Sid} (hl : g.children sid = .ok l) :
    child ∈ l ↔ g.parent? child = some sid := by
  rw [h.whole.mem_children hl, h.sitsOn_iff]

/-- What sits on a device or on a descendant of it is a descendant. -/
theorem descendants_closed (h : g.Valid) {l : List Sid} (hl : g.descendants sid false = .ok l)
    (hp : g.parent? child = some parent) (hm : parent = sid ∨ parent ∈ l) :
    child = sid ∨ child ∈ l := by
  simp only [descendants, reachable, bind_eq_ok, pure_eq_ok] at hl
  obtain ⟨_, _, rfl⟩ := hl
  obtain ⟨_, nexts, closed⟩ := explore_closed h.whole .down [] [⟨sid, 0⟩]
  obtain ⟨c, hc⟩ := h.child_found hp
  obtain ⟨hn, rfl⟩ := find?_eq_some.1 hc
  have next : (⟨c, 0⟩ : Node) ∈ g.next .down ⟨parent, 0⟩ :=
    h.whole.mem_next_down.2 ⟨hn, h.sitsOn_iff.2 hp⟩
  have met : c.sid ∈ g.explore .down [] [⟨sid, 0⟩] := by
    rcases hm with rfl | hm
    · exact nexts _ List.mem_cons_self _ next
    · refine closed parent ?_ List.not_mem_nil _ next
      simpa using (List.mem_filter.1 (SidList.mem_ofList.1 hm)).1
  by_cases same : c.sid = sid
  · exact .inl same
  · exact .inr (by simp [met, same])

/-- A descendant of a device sits on the device or on another descendant of it. -/
theorem parent_of_mem_descendants (h : g.Valid) {l : List Sid}
    (hl : g.descendants sid false = .ok l) (hc : child ∈ l) :
    ∃ parent, g.parent? child = some parent ∧ (parent = sid ∨ parent ∈ l) := by
  have met : child ∈ g.explore .down [] [⟨sid, 0⟩] := by
    simp only [descendants, reachable, bind_eq_ok, pure_eq_ok] at hl
    obtain ⟨_, _, rfl⟩ := hl
    exact (List.mem_filter.1 (SidList.mem_ofList.1 hc)).1
  have above : ∀ {parent n}, n ∈ g.next .down ⟨parent, 0⟩ →
      g.parent? n.device.sid = some parent := fun hn =>
    h.sitsOn_iff.1 (h.whole.mem_next_down.1 hn).2
  refine (of_mem_explore h.whole (P := fun x => ∃ parent, g.parent? x = some parent ∧
    (parent = sid ∨ parent ∈ l)) ?_ ?_ met).resolve_left List.not_mem_nil
  · rintro x ⟨parent, hx, hp⟩ n hn
    have met := h.descendants_closed hl hx hp
    exact ⟨x, above hn, met⟩
  · intro r hr n hn
    obtain rfl := List.mem_singleton.1 hr
    exact ⟨sid, above hn, .inl rfl⟩

/-- The descendants of a device rest on it. -/
theorem restsOn_of_mem_descendants (h : g.Valid) {x : Sid} {l : List Sid}
    (hl : g.descendants sid false = .ok l) (hx : x ∈ l) : g.RestsOn x sid := by
  have met : x ∈ g.explore .down [] [⟨sid, 0⟩] := by
    simp only [descendants, reachable, bind_eq_ok, pure_eq_ok] at hl
    obtain ⟨_, _, rfl⟩ := hl
    exact (List.mem_filter.1 (SidList.mem_ofList.1 hx)).1
  have above : ∀ {parent n}, n ∈ g.next .down ⟨parent, 0⟩ →
      g.parent? n.device.sid = some parent := fun hn =>
    h.sitsOn_iff.1 (h.whole.mem_next_down.1 hn).2
  refine (of_mem_explore h.whole (P := fun x => g.RestsOn x sid) ?_ ?_ met).resolve_left
    List.not_mem_nil
  · intro parent hp n hn
    exact .head (above hn) hp
  · intro r hr n hn
    obtain rfl := List.mem_singleton.1 hr
    exact .single (above hn)

/-- A device and its descendants are the device and what rests on it. -/
theorem mem_descendants_iff (h : g.Valid) {x : Sid} {l : List Sid}
    (hl : g.descendants sid false = .ok l) : x = sid ∨ x ∈ l ↔ x = sid ∨ g.RestsOn x sid := by
  refine ⟨Or.imp_right (h.restsOn_of_mem_descendants hl), ?_⟩
  rintro (same | rests)
  · exact .inl same
  · induction rests using TransGen.head_induction_on with
    | single hp => exact h.descendants_closed hl hp (.inl rfl)
    | head hp _ ih => exact h.descendants_closed hl hp ih

/-- A device has the one parent or none. -/
theorem parents_eq (h : g.Valid) {d : Device} (hd : g.find? sid = some d) :
    g.parents sid = .ok (g.parent? sid).toList := by
  obtain ⟨l, hl⟩ := parents_total hd
  rw [hl]
  have mem : ∀ p, p ∈ l ↔ g.parent? sid = some p := fun p => by
    rw [h.whole.mem_parents hl, h.sitsOn_iff]
  refine congrArg _ ((parents_ascending hl).eq_of_mem_iff ?_ fun p => ?_)
  · cases g.parent? sid <;> simp
  · rw [mem, Option.mem_toList]

/-- A device on a partition table is a partition. -/
theorem isPartition_of_parent (h : g.Valid) {c p : Device} (hc : g.find? child = some c)
    (hp : g.find? parent = some p) (hs : g.parent? child = some parent)
    (hk : p.kind = .partitionTable) : c.kind = .partition :=
  DeviceKind.on_partitionTable.1 (hk ▸ h.suited hc hp hs)

/-- A partition sits on a partition table. -/
theorem isPartitionTable_of_child (h : g.Valid) {c p : Device} (hc : g.find? child = some c)
    (hp : g.find? parent = some p) (hs : g.parent? child = some parent)
    (hk : c.kind = .partition) : p.kind = .partitionTable :=
  DeviceKind.partition_on.1 (hk ▸ h.suited hc hp hs)

/-- A partition table sits on a disk. -/
theorem isDisk_of_child (h : g.Valid) {c p : Device} (hc : g.find? child = some c)
    (hp : g.find? parent = some p) (hs : g.parent? child = some parent)
    (hk : c.kind = .partitionTable) : p.kind = .disk :=
  DeviceKind.partitionTable_on.1 (hk ▸ h.suited hc hp hs)

/-- A device that is no disk sits on something. -/
theorem exists_parent (h : g.Valid) {d : Device} (hd : g.find? sid = some d) (hk : d.kind ≠ .disk) :
    ∃ parent, g.parent? sid = some parent :=
  Option.ne_none_iff_exists'.1 fun none => hk ((h.rooted hd).1 none)

/-- A partition sits on a partition table. -/
theorem exists_table (h : g.Valid) {d : Device} (hd : g.find? sid = some d)
    (hk : d.kind = .partition) : ∃ table t, g.parent? sid = some table ∧
      g.partitionTable table = .ok t := by
  obtain ⟨table, ht⟩ := h.exists_parent hd (by simp [hk])
  obtain ⟨t, htd⟩ := h.parent_found ht
  obtain ⟨a, ha⟩ := attributes_of_isPartitionTable (h.isPartitionTable_of_child hd htd ht hk)
  exact ⟨table, a, ht, partitionTable_eq_ok.2 ⟨t, htd, ha⟩⟩

/-! ### Partitions of a table -/

theorem partitions_total {t : PartitionTable} (ht : g.partitionTable sid = .ok t) :
    ∃ l, g.partitions sid = .ok l := by
  obtain ⟨d, hd, _⟩ := partitionTable_eq_ok.1 ht
  obtain ⟨l, hl⟩ := children_total hd
  simp only [partitions, ht, hl]
  exact ⟨_, rfl⟩

/-- The partitions of a table are the devices on it. -/
theorem mem_partitions (h : g.Valid) {l : List Sid} (hl : g.partitions sid = .ok l) :
    child ∈ l ↔ g.parent? child = some sid := by
  simp only [partitions, bind_eq_ok, pure_eq_ok] at hl
  obtain ⟨t, ht, all, hall, rfl⟩ := hl
  rw [List.mem_filter, h.mem_children hall, and_iff_left_iff_imp]
  intro hp
  obtain ⟨c, hc⟩ := h.child_found hp
  obtain ⟨d, hd, ha⟩ := partitionTable_eq_ok.1 ht
  have hk : d.kind = .partitionTable := by rw [Device.kind, ha]; rfl
  simp [hc, h.isPartition_of_parent hc hd hp hk]

theorem exists_partition (h : g.Valid) {t : PartitionTable} (ht : g.partitionTable table = .ok t)
    (hp : g.parent? child = some table) : ∃ p, g.partition child = .ok p := by
  obtain ⟨d, hd, ha⟩ := partitionTable_eq_ok.1 ht
  obtain ⟨c, hc⟩ := h.child_found hp
  have hk : d.kind = .partitionTable := by rw [Device.kind, ha]; rfl
  obtain ⟨p, hpa⟩ := attributes_of_isPartition (h.isPartition_of_parent hc hd hp hk)
  exact ⟨p, partition_eq_ok.2 ⟨c, hc, hpa⟩⟩

theorem partitionsWith_total (h : g.Valid) {t : PartitionTable}
    (ht : g.partitionTable table = .ok t) : ∃ l, g.partitionsWith table = .ok l := by
  obtain ⟨all, hall⟩ := partitions_total ht
  simp only [partitionsWith, hall]
  refine mapM_total fun c hc => ?_
  obtain ⟨p, hp⟩ := h.exists_partition ht ((h.mem_partitions hall).1 hc)
  exact ⟨(c, p), by simp only [hp]; rfl⟩

theorem mem_partitionsWith (h : g.Valid) {l : List (Sid × Partition)}
    (hl : g.partitionsWith table = .ok l) {p : Partition} :
    (child, p) ∈ l ↔ g.parent? child = some table ∧ g.partition child = .ok p := by
  simp only [partitionsWith, bind_eq_ok] at hl
  obtain ⟨all, hall, hl⟩ := hl
  simp only [mem_mapM hl, h.mem_partitions hall, bind_eq_ok, pure_eq_ok, Prod.mk.injEq]
  constructor
  · rintro ⟨c, hc, q, hq, rfl, rfl⟩
    exact ⟨hc, hq⟩
  · rintro ⟨hc, hp⟩
    exact ⟨child, hc, p, hp, rfl, rfl⟩

theorem extendedPartition_total (h : g.Valid) {t : PartitionTable}
    (ht : g.partitionTable table = .ok t) : ∃ r, g.extendedPartition table = .ok r := by
  obtain ⟨l, hl⟩ := h.partitionsWith_total ht
  simp only [extendedPartition, hl]
  exact ⟨_, rfl⟩

/-- What a table has as its extended partition is one. -/
theorem of_extendedPartition (h : g.Valid)
    (he : g.extendedPartition table = .ok (some sid)) :
    ∃ p, g.parent? sid = some table ∧ g.partition sid = .ok p ∧ p.type = .extended := by
  simp only [extendedPartition, bind_eq_ok, pure_eq_ok, Option.map_eq_some_iff] at he
  obtain ⟨l, hl, ⟨sid, p⟩, hfind, rfl⟩ := he
  obtain ⟨hparent, hp⟩ := (h.mem_partitionsWith hl).1 (List.mem_of_find?_eq_some hfind)
  exact ⟨p, hparent, hp, by simpa using List.find?_some hfind⟩

theorem logicalPartitionsOf_total (h : g.Valid) {p : Partition} (hp : g.partition sid = .ok p) :
    ∃ l, g.logicalPartitionsOf sid = .ok l := by
  obtain ⟨d, hd, ha⟩ := partition_eq_ok.1 hp
  obtain ⟨table, t, htable, ht⟩ := h.exists_table hd (isPartition_of_attributes ha)
  obtain ⟨l, hl⟩ := h.partitionsWith_total ht
  simp only [logicalPartitionsOf, partitionTableOf, hp, singleParent_eq_ok.2 htable]
  by_cases hk : p.type = .extended
  · simp only [bind, Except.bind, hk, hl]
    exact ⟨_, rfl⟩
  · simp only [bind, Except.bind, ne_eq, hk, not_false_eq_true, if_true]
    exact ⟨_, rfl⟩

/-- The logical partitions of an extended one share its table. -/
theorem mem_logicalPartitionsOf (h : g.Valid) {e : Partition} (he : g.partition sid = .ok e)
    (hk : e.type = .extended) (ht : g.parent? sid = some table) {l : List Sid}
    (hl : g.logicalPartitionsOf sid = .ok l) : child ∈ l ↔
      ∃ p, g.parent? child = some table ∧ g.partition child = .ok p ∧ p.type = .logical := by
  simp only [logicalPartitionsOf, partitionTableOf, he, singleParent_eq_ok.2 ht] at hl
  simp only [bind, Except.bind, hk, ne_eq, not_true_eq_false, if_false] at hl
  change ((g.partitionsWith table) >>= _) = _ at hl
  rw [bind_eq_ok] at hl
  obtain ⟨all, hall, hl⟩ := hl
  rw [pure_eq_ok] at hl
  subst hl
  simp only [List.mem_map, List.mem_filter, beq_iff_eq, Prod.exists, h.mem_partitionsWith hall]
  constructor
  · rintro ⟨c, p, ⟨⟨hc, hp⟩, hpk⟩, rfl⟩
    exact ⟨p, hc, hp, hpk⟩
  · rintro ⟨p, hc, hp, hpk⟩
    exact ⟨child, p, ⟨⟨hc, hp⟩, hpk⟩, rfl⟩

/-- The block device of a filesystem is what it sits on. -/
theorem filesystemBlkDevice_eq_ok {fs : Filesystem} (hfs : g.filesystem sid = .ok fs) :
    g.filesystemBlkDevice sid = .ok parent ↔ g.parent? sid = some parent := by
  simp only [filesystemBlkDevice, hfs]
  exact singleParent_eq_ok

end Valid

end StoragePlan.Devicegraph
