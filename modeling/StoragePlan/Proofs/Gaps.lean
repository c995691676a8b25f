import Mathlib.Data.List.Permutation
import StoragePlan.Devicegraph.Gaps
import StoragePlan.Proofs.Lawful
import StoragePlan.Proofs.Sectors

/-!
# Unused space as a complement

What `unusedRegions` lists of the disk of a partition table is exactly what its primary and extended
partitions leave: every sector of the disk is in one gap or in one such partition, and in one only.

The invariant of the sweep is `Complement`: the gaps from the cursor on are what the regions that
are still to come leave of the sectors up to the stop. It needs regions that follow each other
without a common sector. That is not a matter of the sort, which only compares starts: the sorted
regions are apart because the partitions of a valid devicegraph are (`usedRegions_spec`).
-/

namespace StoragePlan

namespace Region

theorem mem_sectors {r : Region} {x : Nat} :
    x ∈ r.sectors ↔ r.start ≤ x ∧ x < r.start + r.length := Iff.rfl

theorem Regular.start_mem {r : Region} {size : Nat} (h : r.Regular size) : r.start ∈ r.sectors :=
  ⟨Nat.le_refl _, Nat.lt_add_of_pos_right h.nonempty⟩

/-- The gaps are what the regions leave of the sectors from the cursor to the stop. -/
structure Complement (size cursor stop : Nat) (used gaps : List Region) : Prop where
  regular : ∀ r ∈ gaps, r.Regular size
  /-- The gaps ascend, with a used sector between any two of them. -/
  separated : gaps.Pairwise fun a b => a.start + a.length < b.start
  exact : ∀ x, (∃ r ∈ gaps, x ∈ r.sectors) ↔
    (cursor ≤ x ∧ x < stop) ∧ ∀ r ∈ used, x ∉ r.sectors

variable {size cursor stop next : Nat} {used : List Region}

theorem mem_gap {r : Region} :
    r ∈ gap size cursor next ↔ cursor < next ∧ r = ⟨cursor, next - cursor, size⟩ := by
  unfold gap
  split <;> simp_all

/-- One gap holds every sector from the cursor to the next used one. -/
theorem gap_complement (le : cursor ≤ next) (range : next ≤ maxWord) :
    Complement size cursor next [] (gap size cursor next) := by
  refine ⟨fun r hr => ?_, ?_, fun x => ?_⟩
  · obtain ⟨lt, rfl⟩ := mem_gap.1 hr
    exact ⟨Nat.sub_pos_of_lt lt, by simp only; omega, rfl⟩
  · unfold gap
    split <;> simp
  · simp only [mem_gap, List.not_mem_nil, false_implies, implies_true, and_true]
    constructor
    · rintro ⟨r, ⟨lt, rfl⟩, hx⟩
      simp only [mem_sectors] at hx
      omega
    · intro hx
      refine ⟨_, ⟨by omega, rfl⟩, ?_⟩
      simp only [mem_sectors]
      omega

/-- A region that starts at the cursor or later adds the gap before it. -/
theorem Complement.cons {r : Region} {gaps : List Region} (le : cursor ≤ r.start)
    (nonempty : 0 < r.length) (ends : r.start + r.length ≤ stop) (range : stop ≤ maxWord)
    (later : ∀ u ∈ used, r.start + r.length ≤ u.start)
    (h : Complement size (r.start + r.length) stop used gaps) :
    Complement size cursor stop (r :: used) (gap size cursor r.start ++ gaps) := by
  have before : Complement size cursor r.start [] (gap size cursor r.start) :=
    gap_complement le (by omega)
  refine ⟨fun s hs => ?_, ?_, fun x => ?_⟩
  · exact (List.mem_append.1 hs).elim (before.regular s) (h.regular s)
  · refine List.pairwise_append.2 ⟨before.separated, h.separated, fun a ha b hb => ?_⟩
    -- The gap ends where the region starts, and the next one starts after the region at the least.
    obtain ⟨lt, rfl⟩ := mem_gap.1 ha
    have := ((h.exact b.start).1 ⟨b, hb, (h.regular b hb).start_mem⟩).1.1
    simp only
    omega
  · have left := before.exact x
    have right := h.exact x
    simp only [List.not_mem_nil, false_implies, implies_true, and_true] at left
    simp only [List.mem_append, or_and_right, exists_or]
    rw [left, right, List.forall_mem_cons, mem_sectors]
    constructor
    · rintro (hx | ⟨hx, free⟩)
      · refine ⟨by omega, by omega, fun u hu => ?_⟩
        have := later u hu
        rw [mem_sectors]
        omega
      · exact ⟨by omega, by omega, free⟩
    · rintro ⟨hx, outside, free⟩
      by_cases lt : x < r.start
      · exact .inl ⟨hx.1, lt⟩
      · exact .inr ⟨by omega, free⟩

/-- A sector is in one gap only. -/
theorem Complement.unique {gaps : List Region} (h : Complement size cursor stop used gaps)
    {a b : Region} {x : Nat} (ha : a ∈ gaps) (hb : b ∈ gaps) (hxa : x ∈ a.sectors)
    (hxb : x ∈ b.sectors) : a = b := by
  have : Std.Symm fun a b : Region => x ∈ a.sectors → x ∈ b.sectors → a = b :=
    ⟨fun _ _ same hb ha => (same ha hb).symm⟩
  have apart : gaps.Pairwise fun a b => x ∈ a.sectors → x ∈ b.sectors → a = b := by
    refine h.separated.imp fun lt ha hb => ?_
    rw [mem_sectors] at ha hb
    omega
  exact apart.forall_of_forall (fun _ _ _ _ => rfl) ha hb hxa hxb

/-- The sweep succeeds on regions that follow each other up to the stop, and finds what they
leave. -/
theorem gaps_complement (range : stop ≤ maxWord) (nonempty : ∀ r ∈ used, 0 < r.length)
    (ends : ∀ r ∈ used, r.start + r.length ≤ stop)
    (apart : used.Pairwise fun a b => a.start + a.length ≤ b.start)
    (ahead : ∀ r ∈ used, cursor ≤ r.start) (le : cursor ≤ stop) :
    ∃ l, gaps size stop cursor used = .ok l ∧ Complement size cursor stop used l := by
  induction used generalizing cursor with
  | nil => exact ⟨_, rfl, gap_complement le range⟩
  | cons r rest ih =>
    rw [List.forall_mem_cons] at nonempty ends ahead
    obtain ⟨later, apart⟩ := List.pairwise_cons.1 apart
    obtain ⟨l, hl, rest⟩ := ih nonempty.2 ends.2 apart later ends.1
    have stops : r.stop = .ok (r.start + r.length) := stop_eq_ok (ends.1.trans range)
    have moved : max cursor (r.start + r.length) = r.start + r.length :=
      Nat.max_eq_right (by have := ahead.1; omega)
    refine ⟨gap size cursor r.start ++ l, ?_, rest.cons ahead.1 nonempty.1 ends.1 range later⟩
    simp only [gaps, stops, bind, Except.bind, moved, hl]
    rfl

instance : Std.TransCmp order :=
  inferInstanceAs (Std.TransCmp (compareLex (compareOn start)
    (compareLex (compareOn length) (compareOn sectorSize))))

/-- Regions that ascend ascend by their starts. -/
theorem start_le_of_order {a b : Region} (h : (a.order b).isLE = true) : a.start ≤ b.start := by
  by_contra gt
  have greater : compare a.start b.start = .gt := Nat.compare_eq_gt.2 (Nat.not_le.1 gt)
  simp [order, greater, Ordering.then] at h

theorem pairwise_sorted (l : List Region) :
    (l.mergeSort fun a b => (a.order b).isLE).Pairwise fun a b => a.start ≤ b.start := by
  refine (List.pairwise_mergeSort (fun _ _ _ => Std.TransCmp.isLE_trans) (fun a b => ?_) l).imp
    start_le_of_order
  have swap : b.order a = (a.order b).swap := Std.OrientedCmp.eq_swap
  rw [swap]
  cases a.order b <;> rfl

/-- Regions without a common sector that start one after the other end one before the other. -/
theorem Regular.le_of_disjoint {a b : Region} (hb : b.Regular size)
    (le : a.start ≤ b.start) (apart : Disjoint a.sectors b.sectors) :
    a.start + a.length ≤ b.start := by
  by_contra gt
  exact Set.disjoint_left.1 apart ⟨le, Nat.not_le.1 gt⟩ hb.start_mem

end Region

/-- The sectors of a disk are known when its size is, and theirs. -/
theorem Disk.extent?_eq_some {d : Disk} {extent : Region} : d.extent? = some extent ↔
    d.sizeK ≠ 0 ∧ d.sectorSize ≠ 0 ∧ extent = ⟨0, d.numSectors, d.sectorSize⟩ := by
  unfold extent? numSectors
  by_cases h : d.sizeK = 0 ∨ d.sectorSize = 0
  · rw [if_pos h]
    simp only [reduceCtorEq, false_iff]
    exact fun known => h.elim known.1 known.2.1
  · rw [if_neg h, Option.some.injEq, eq_comm]
    rw [not_or] at h
    simp only [h, ne_eq, not_false_eq_true, true_and]

namespace Devicegraph

open Attempt

variable {g : Devicegraph} {table disk : Sid} {t : PartitionTable} {d : Disk}

/-- The partitions of a table are listed by sid. -/
theorem partitionsWith_ascending {l : List (Sid × Partition)}
    (hl : g.partitionsWith table = .ok l) : (l.map Prod.fst).Pairwise (· < ·) := by
  obtain ⟨sids, hsids, hl⟩ := bind_eq_ok.1 hl
  have same : l.map Prod.fst = sids.map id := map_mapM (fun a b hb => by
    obtain ⟨p, _, hb⟩ := bind_eq_ok.1 hb
    rw [← pure_eq_ok.1 hb]
    rfl) hl
  simp only [partitions, bind_eq_ok, pure_eq_ok] at hsids
  obtain ⟨_, _, children, hchildren, rfl⟩ := hsids
  rw [same, List.map_id]
  exact (children_ascending hchildren).filter _

/-- The gaps of a table are between the partitions that are not logical. -/
def Bounds (g : Devicegraph) (table sid : Sid) (p : Partition) : Prop :=
  g.partAt table sid = some p ∧ p.type ≠ .logical

/-- The used regions of a table are those of its primary and extended partitions, one after the
other. -/
theorem usedRegions_spec (valid : g.Valid) (ht : g.partitionTable table = .ok t)
    (partitioned : Partitioned t.ptType d (g.partAt table)) :
    ∃ used, g.usedRegions table = .ok used ∧
      (∀ r, r ∈ used ↔ ∃ sid p, g.Bounds table sid p ∧ p.region = r) ∧
      used.Pairwise fun a b => a.start + a.length ≤ b.start := by
  obtain ⟨all, hall⟩ := valid.partitionsWith_total ht
  have member : ∀ {sid p}, (sid, p) ∈ all ↔ g.partAt table sid = some p := fun {sid p} =>
    (valid.mem_partitionsWith hall).trans partAt_eq_some.symm
  obtain ⟨regions, hregions⟩ : ∃ regions : List Region,
      regions = (all.filter fun x => x.2.type != .logical).map fun x => x.2.region := ⟨_, rfl⟩
  have listed : ∀ r, r ∈ regions ↔ ∃ sid p, g.Bounds table sid p ∧ p.region = r := by
    intro r
    simp [hregions, Bounds, member]
  have apart : regions.Pairwise fun a b => Disjoint a.sectors b.sectors := by
    have distinct : all.Pairwise fun a b => b.1 ≠ a.1 :=
      (List.pairwise_map.1 (partitionsWith_ascending hall)).imp fun lt => Nat.ne_of_gt lt
    rw [hregions]
    refine List.pairwise_map.2 ((distinct.filter _).imp_of_mem fun {a b} ha hb ne => ?_)
    simp only [List.mem_filter, bne_iff_ne, ne_eq] at ha hb
    exact partitioned.apart (member.1 ha.1) (member.1 hb.1) ne (by simp [ha.2, hb.2])
  have order := List.mergeSort_perm regions fun a b => (a.order b).isLE
  refine ⟨_, by simp only [usedRegions, hall, hregions]; rfl,
    fun r => order.mem_iff.trans (listed r), ?_⟩
  have apart := (order.symm.pairwise_iff fun h => Disjoint.symm h).1 apart
  refine ((Region.pairwise_sorted regions).and apart).imp_of_mem fun {a b} _ hb h => ?_
  obtain ⟨_, p, hp, rfl⟩ := (listed b).1 (order.mem_iff.1 hb)
  exact (partitioned.fits hp.1).toRegular.le_of_disjoint h.1 h.2

/-- The gaps of a disk whose sectors are known are what the primary and extended partitions leave
of them. -/
theorem unusedRegions_spec (valid : g.Valid) (ht : g.partitionTable table = .ok t)
    (hp : g.partitionTableDisk table = .ok disk) (hd : g.disk disk = .ok d) {extent : Region}
    (partitioned : Partitioned t.ptType d (g.partAt table)) (known : d.extent? = some extent) :
    ∃ used gaps, g.unusedRegions table = .ok gaps ∧
      (∀ r, r ∈ used ↔ ∃ sid p, g.Bounds table sid p ∧ p.region = r) ∧
      Region.Complement d.sectorSize 0 d.numSectors used gaps := by
  obtain ⟨used, hused, mem, apart⟩ := usedRegions_spec valid ht partitioned
  obtain ⟨size, _, rfl⟩ := Disk.extent?_eq_some.1 known
  have range : d.numSectors ≤ maxWord := Nat.min_le_right _ _
  have fits : ∀ r ∈ used, 0 < r.length ∧ r.start + r.length ≤ d.numSectors := by
    intro r hr
    obtain ⟨_, p, hp, rfl⟩ := (mem r).1 hr
    exact ⟨(partitioned.fits hp.1).nonempty, (partitioned.fits hp.1).onDisk size⟩
  obtain ⟨gaps, hgaps, complement⟩ := Region.gaps_complement range (fun r hr => (fits r hr).1)
    (fun r hr => (fits r hr).2) apart (fun r _ => Nat.zero_le r.start) (Nat.zero_le _)
  refine ⟨used, gaps, ?_, mem, complement⟩
  have stops : (⟨0, d.numSectors, d.sectorSize⟩ : Region).stop = .ok d.numSectors := by
    rw [Region.stop_eq_ok (by simpa using range), Nat.zero_add]
  simp only [unusedRegions, hp, hd, known, hused, stops, bind, Except.bind, hgaps, ofRegion]

/-- What a sector of a disk can be a part of. -/
inductive Space where
  | gap (region : Region)
  | partition (sid : Sid)

/-- The space is one of the gaps, or a primary or extended partition of the table, and has the
sector. -/
def Holds (g : Devicegraph) (table : Sid) (gaps : List Region) (x : Nat) : Space → Prop
  | .gap r => r ∈ gaps ∧ x ∈ r.sectors
  | .partition sid => ∃ p, g.Bounds table sid p ∧ x ∈ p.region.sectors

section

variable {used gaps : List Region} {x : Nat} (partitioned : Partitioned t.ptType d (g.partAt table))
  (mem : ∀ r, r ∈ used ↔ ∃ sid p, g.Bounds table sid p ∧ p.region = r)
  (complement : Region.Complement d.sectorSize 0 d.numSectors used gaps)

include partitioned mem complement

/-- A space that has a sector is the only one. -/
theorem Holds.unique {a b : Space} (ha : g.Holds table gaps x a) (hb : g.Holds table gaps x b) :
    a = b := by
  have free : ∀ {r sid p}, r ∈ gaps → x ∈ r.sectors → g.Bounds table sid p →
      x ∉ p.region.sectors := fun {r sid p} hr hx hp =>
    ((complement.exact x).1 ⟨r, hr, hx⟩).2 p.region ((mem _).2 ⟨sid, p, hp, rfl⟩)
  cases a with
  | gap r =>
    cases b with
    | gap s => rw [complement.unique ha.1 hb.1 ha.2 hb.2]
    | partition =>
      obtain ⟨p, hp, hx⟩ := hb
      exact absurd hx (free ha.1 ha.2 hp)
  | partition sid =>
    obtain ⟨p, hp, hxp⟩ := ha
    cases b with
    | gap r => exact absurd hxp (free hb.1 hb.2 hp)
    | partition other =>
      obtain ⟨q, hq, hxq⟩ := hb
      by_contra ne
      refine Set.disjoint_left.1 (partitioned.apart hp.1 hq.1 ?_ ?_) hxp hxq
      · rintro rfl
        exact ne rfl
      · simp [hp.2, hq.2]

/-- The spaces have the sectors of the disk between them. -/
theorem exists_holds_iff (size : d.sizeK ≠ 0) :
    (∃ space, g.Holds table gaps x space) ↔ x < d.numSectors := by
  constructor
  · rintro ⟨space, h⟩
    cases space with
    | gap r => exact ((complement.exact x).1 ⟨r, h⟩).1.2
    | partition sid =>
      obtain ⟨p, hp, hx⟩ := h
      exact Nat.lt_of_lt_of_le hx.2 ((partitioned.fits hp.1).onDisk size)
  · intro inside
    by_cases free : ∀ r ∈ used, x ∉ r.sectors
    · obtain ⟨r, hr⟩ := (complement.exact x).2 ⟨⟨Nat.zero_le x, inside⟩, free⟩
      exact ⟨.gap r, hr⟩
    · push Not at free
      obtain ⟨r, hr, hx⟩ := free
      obtain ⟨sid, p, hp, rfl⟩ := (mem r).1 hr
      exact ⟨.partition sid, p, hp, hx⟩

end

/-- In a valid devicegraph the unused regions of every partition table can be listed. If the sectors
of its disk are known, they are gaps of the sector size of the disk that ascend without touching
each other, and each sector of the disk is in exactly one of them or in exactly one primary or
extended partition, while no other sector is. -/
theorem unusedRegions_exact (valid : g.check = .ok ()) (ht : g.partitionTable table = .ok t) :
    ∃ disk d gaps, g.partitionTableDisk table = .ok disk ∧ g.disk disk = .ok d ∧
      g.unusedRegions table = .ok gaps ∧ (d.extent? = none → gaps = []) ∧
      ∀ extent, d.extent? = some extent →
        (∀ r ∈ gaps, r.Regular d.sectorSize) ∧
        gaps.Pairwise (fun a b => a.start + a.length < b.start) ∧
        (∀ x ∈ extent.sectors, ∃! space, g.Holds table gaps x space) ∧
        ∀ x ∉ extent.sectors, ∀ space, ¬g.Holds table gaps x space := by
  have valid := (check_eq_ok.1 valid).valid
  obtain ⟨disk, d, hp, hd⟩ := valid.exists_disk ht
  have onDisk : g.partitionTableDisk table = .ok disk := by
    simp only [partitionTableDisk, ht, bind, Except.bind]
    exact singleParent_eq_ok.2 hp
  have arranged := valid.arranged ht hp hd
  refine ⟨disk, d, ?_⟩
  cases known : d.extent? with
  | none => exact ⟨[], onDisk, hd, by
      simp only [unusedRegions, onDisk, hd, known, bind, Except.bind]
      rfl, by simp⟩
  | some extent =>
    obtain ⟨size, sectorSize, rfl⟩ := Disk.extent?_eq_some.1 known
    have partitioned := (arranged_iff sectorSize).1 arranged
    obtain ⟨used, gaps, hgaps, mem, complement⟩ :=
      unusedRegions_spec valid ht onDisk hd partitioned known
    have holds : ∀ x, (∃ space, g.Holds table gaps x space) ↔
        x ∈ (⟨0, d.numSectors, d.sectorSize⟩ : Region).sectors := fun x => by
      rw [exists_holds_iff partitioned mem complement size, Region.mem_sectors]
      simp
    refine ⟨gaps, onDisk, hd, hgaps, by simp, fun _ same => ?_⟩
    obtain rfl := Option.some.inj same
    refine ⟨complement.regular, complement.separated, fun x hx => ?_, fun x hx space h => ?_⟩
    · obtain ⟨space, h⟩ := (holds x).2 hx
      exact ⟨space, h, fun other ho => Holds.unique partitioned mem complement ho h⟩
    · exact hx ((holds x).1 ⟨space, h⟩)

/-- A disk of 2048 sectors with a primary partition and an extended one with a logical one in it. -/
def divided : Devicegraph :=
  let disk : Disk := { name := "/dev/sda", sizeK := 1024 }
  let primary : Partition := { name := "/dev/sda1", region := ⟨100, 100, 512⟩, id := 0x83 }
  let outer : Partition :=
    { name := "/dev/sda2", type := .extended, region := ⟨1000, 1000, 512⟩, id := 0x05 }
  let inner : Partition :=
    { name := "/dev/sda5", type := .logical, region := ⟨1001, 100, 512⟩, id := 0x83 }
  let devices := ((((empty.addDevice ⟨1, .disk disk, []⟩).addDevice
    ⟨2, .partitionTable ⟨.msdos⟩, []⟩).addDevice ⟨3, .partition primary, []⟩).addDevice
    ⟨4, .partition outer, []⟩).addDevice ⟨5, .partition inner, []⟩
  (((devices.addEdge 1 2 .user).addEdge 2 3 .subdevice).addEdge 2 4 .subdevice).addEdge
    2 5 .subdevice

/-- The 2048 sectors of the disk are each in one gap or one partition. -/
theorem unusedRegions_divided : ∃ gaps, divided.unusedRegions 2 = .ok gaps ∧
    (∀ r ∈ gaps, r.Regular 512) ∧ gaps.Pairwise (fun a b => a.start + a.length < b.start) ∧
    (∀ x < 2048, ∃! space, divided.Holds 2 gaps x space) ∧
    ∀ x ≥ 2048, ∀ space, ¬divided.Holds 2 gaps x space := by
  have isTable : divided.partitionTable 2 = .ok ⟨.msdos⟩ := by cbv
  have onDisk : divided.partitionTableDisk 2 = .ok 1 := by cbv
  have isDisk : divided.disk 1 = .ok { name := "/dev/sda", sizeK := 1024 } := by cbv
  obtain ⟨disk, d, gaps, hp, hd, hgaps, _, all⟩ := unusedRegions_exact (by cbv) isTable
  obtain rfl := Except.ok.inj (onDisk.symm.trans hp)
  obtain rfl := Except.ok.inj (isDisk.symm.trans hd)
  obtain ⟨regular, separated, inside, outside⟩ := all ⟨0, 2048, 512⟩ (by decide)
  refine ⟨gaps, hgaps, regular, separated, fun x lt => ?_, fun x le => ?_⟩
  · exact inside x ⟨Nat.zero_le x, by simpa using lt⟩
  · exact outside x fun hx => by simp only [Region.mem_sectors] at hx; omega

/-- The logical partition is no bound of a gap. -/
example : divided.unusedRegions 2 = .ok [⟨0, 100, 512⟩, ⟨200, 800, 512⟩, ⟨2000, 48, 512⟩] := by cbv

end Devicegraph

end StoragePlan
