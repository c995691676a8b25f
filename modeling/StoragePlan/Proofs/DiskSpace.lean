import StoragePlan.Proofs.Gaps
import StoragePlan.Proofs.Operations

/-!
# Space on a disk

Two questions about the sectors of a disk have one answer each, although they are asked in different
ways. Whether a primary partition can be created is a matter of comparing it with every other
partition of its table, and yet it can be told from the gaps alone (`createPartition_iff_gap`):
gaps do not touch each other, so that a region that meets no partition lies in one of them
(`Region.Complement.exists_gap_iff`). Whether a disk can get another size is a matter of whole
sectors, and yet it can be told in bytes (`setDiskSizeK_iff`).
-/

namespace StoragePlan

namespace Region

variable {size cursor stop : Nat} {used gaps : List Region} {r : Region}

/-- No gap begins where another one ends. -/
theorem Complement.stop_notMem (h : Complement size cursor stop used gaps) {a b : Region}
    (ha : a ∈ gaps) (hb : b ∈ gaps) : a.start + a.length ∉ b.sectors := by
  have : Std.Symm fun a b : Region =>
      a.start + a.length ∉ b.sectors ∧ b.start + b.length ∉ a.sectors := ⟨fun _ _ => And.symm⟩
  have separated : gaps.Pairwise fun a b =>
      a.start + a.length ∉ b.sectors ∧ b.start + b.length ∉ a.sectors := by
    refine h.separated.imp fun {a b} lt => ?_
    simp only [mem_sectors]
    omega
  have itself : ∀ a ∈ gaps, a.start + a.length ∉ a.sectors ∧ a.start + a.length ∉ a.sectors := by
    intro a _
    simp only [mem_sectors]
    omega
  exact (separated.forall_of_forall itself ha hb).1

/-- What meets no used region between the bounds lies in one gap. -/
theorem Complement.exists_gap_iff (h : Complement size cursor stop used gaps)
    (nonempty : 0 < r.length) : (∃ gap ∈ gaps, r.sectors ⊆ gap.sectors) ↔
      cursor ≤ r.start ∧ r.start + r.length ≤ stop ∧ ∀ u ∈ used, Disjoint r.sectors u.sectors := by
  constructor
  · rintro ⟨gap, hgap, inside⟩
    have free : ∀ x ∈ r.sectors, (cursor ≤ x ∧ x < stop) ∧ ∀ u ∈ used, x ∉ u.sectors :=
      fun x hx => (h.exact x).1 ⟨gap, hgap, inside hx⟩
    have first := (free r.start ⟨Nat.le_refl _, Nat.lt_add_of_pos_right nonempty⟩).1.1
    have last := (free (r.start + r.length - 1) ⟨by omega, by omega⟩).1.2
    exact ⟨first, by omega, fun u hu => Set.disjoint_left.2 fun x hx => (free x hx).2 u hu⟩
  · rintro ⟨after, before, apart⟩
    have covered : ∀ x ∈ r.sectors, ∃ gap ∈ gaps, x ∈ gap.sectors := by
      intro x hx
      refine (h.exact x).2 ⟨?_, fun u hu => Set.disjoint_left.1 (apart u hu) hx⟩
      rw [mem_sectors] at hx
      omega
    obtain ⟨gap, hgap, first⟩ := covered r.start ⟨Nat.le_refl _, Nat.lt_add_of_pos_right nonempty⟩
    rw [mem_sectors] at first
    -- The gap of the first sector does not end within the region: what is behind its end is in
    -- another gap, and that one would touch it.
    have ends : r.start + r.length ≤ gap.start + gap.length := by
      by_contra short
      obtain ⟨other, hother, next⟩ := covered (gap.start + gap.length) ⟨by omega, by omega⟩
      exact h.stop_notMem hgap hother next
    refine ⟨gap, hgap, fun x hx => ?_⟩
    rw [mem_sectors] at hx ⊢
    omega

end Region

namespace Edit.ChecksFirst

/-- A step succeeds exactly if its verdict does. -/
theorem exists_ok_iff {α : Type} {x : Edit α} {s : Editor} {verdict : Except Failure Unit}
    {done : α → Editor → Prop} (h : ChecksFirst x s verdict done) :
    (∃ a s', x s = .ok a s') ↔ verdict = .ok () := by
  constructor
  · rintro ⟨a, s', performed⟩
    exact (h.of_ok performed).1
  · intro accepted
    obtain ⟨a, s', performed, _⟩ := h.accepted accepted
    exact ⟨a, s', performed⟩

end Edit.ChecksFirst

namespace Devicegraph

open Attempt

variable {g : Devicegraph} {table disk : Sid} {t : PartitionTable} {d : Disk} {p : Partition}

/-- The devices but the altered one are listed as before. -/
theorem Altered.devices_eq {g' : Devicegraph} {c c' : Device} (h : Altered g g' c c') :
    g'.devices = g.devices.map fun b => if b.sid = c.sid then c' else b := by
  have sids : ∀ b, (if b.sid = c.sid then c' else b).sid = b.sid := by
    intro b
    split
    · next same => rw [h.sid, same]
    · rfl
  refine devices_eq_of_mem_iff ?_ fun b => ?_
  · refine List.Pairwise.map _ (fun a b lt => ?_) g.devices_ascending
    rwa [sids, sids]
  · rw [h.find?, List.mem_map]
    constructor
    · rintro ⟨a, ha, rfl⟩
      rw [sids]
      by_cases same : a.sid = c.sid
      · rw [if_pos same, if_pos same]
      · rw [if_neg same, if_neg same, mem_devices.1 ha]
    · intro hb
      by_cases same : b.sid = c.sid
      · rw [if_pos same] at hb
        exact ⟨c, mem_devices.2 h.found, by rw [if_pos rfl, Option.some.inj hb]⟩
      · rw [if_neg same] at hb
        exact ⟨b, mem_devices.2 hb, by rw [if_neg same]⟩

/-! ### New partitions -/

/-- A new primary partition gets along with the others when there is one less than the table can
hold and it shares no sectors with a primary or extended one. What the logical ones need they have
already. -/
theorem Partitioned.checkSiblings_primary {parts : Sid → Option Partition} {sid : Sid}
    {siblings : List Partition} (h : Partitioned t.ptType d parts) (nonzero : d.sectorSize ≠ 0)
    (regular : p.region.Regular d.sectorSize) (primary : p.type = .primary)
    (absent : parts sid = none) (others : Others parts sid siblings) :
    checkSiblings t.ptType p siblings = .ok () ↔
      {x | ∃ q, parts x = some q ∧ q.type ≠ .logical}.encard < t.ptType.maxPrimary ∧
      ∀ {x q}, parts x = some q → q.type ≠ .logical →
        Disjoint p.region.sectors q.region.sectors := by
  have other : ∀ {x q}, parts x = some q → x ≠ sid := by
    rintro _ q hx rfl
    rw [absent] at hx
    cases hx
  have counted : {x | x ≠ sid ∧ ∃ q, parts x = some q ∧ q.type ≠ .logical} =
      {x | ∃ q, parts x = some q ∧ q.type ≠ .logical} := by
    ext x
    exact ⟨And.right, fun ⟨q, hx, hq⟩ => ⟨other hx, q, hx, hq⟩⟩
  have room : (siblings.filter fun q => q.type != .logical).length + 1 ≤ t.ptType.maxPrimary ↔
      {x | ∃ q, parts x = some q ∧ q.type ≠ .logical}.encard < t.ptType.maxPrimary := by
    rw [← counted, ← others.length_nonLogical, Nat.succ_le_iff, Nat.cast_lt]
  have held : ∀ l ∈ siblings, l.type = .logical → ∃ e, e.region.contains l.region = .ok true ∧
      siblings.find? (fun q => q.type == .extended) = some e := by
    intro l hl hk
    obtain ⟨x, _, hx⟩ := others.mem_iff.1 hl
    obtain ⟨y, e, hy, isExtended, inside⟩ := h.inside hx hk
    refine ⟨e, ((h.fits hy).contains_iff (h.fits hx).toRegular).2 inside, ?_⟩
    exact others.find?_extended (other hy) hy isExtended fun z q _ hz hq =>
      h.single hy isExtended hz hq
  rw [checkSiblings_of_nonLogical (by simp [primary]), room]
  simp only [primary, reduceCtorEq, false_implies, if_false, true_and]
  refine and_congr_right fun _ => ⟨fun ⟨apart, _⟩ x q hx hq => ?_, fun apart => ⟨?_, held⟩⟩
  · exact (regular.overlaps_iff (h.fits hx).toRegular nonzero).1
      (apart q (others.mem_iff.2 ⟨x, other hx, hx⟩) hq)
  · intro q hq hk
    obtain ⟨x, _, hx⟩ := others.mem_iff.1 hq
    exact (regular.overlaps_iff (h.fits hx).toRegular nonzero).2 (apart hx hk)

/-- A table takes any number of partitions; whether they get along is another question. -/
theorem Lawful.checkPlacement_partition (law : g.Lawful) (ht : g.partitionTable table = .ok t) :
    g.checkPlacement table .partition = .ok () := by
  obtain ⟨c, hc, ha⟩ := partitionTable_eq_ok.1 ht
  have kind : c.kind = .partitionTable := by rw [Device.kind, ha]; rfl
  rw [law.checkPlacement_eq_ok hc, kind]
  exact ⟨by decide, rfl⟩

/-- A table is no partition of itself, so that all its partitions are others than it. -/
theorem partAt_of_partitionTable (ht : g.partitionTable table = .ok t) :
    g.partAt table table = none := by
  refine Option.eq_none_iff_forall_ne_some.2 fun q hq => ?_
  obtain ⟨c, hc, ha⟩ := partition_eq_ok.1 (partAt_eq_some.1 hq).2
  obtain ⟨c', hc', ha'⟩ := partitionTable_eq_ok.1 ht
  rw [Option.some.inj (hc.symm.trans hc'), ha'] at ha
  cases ha

/-- A region for a primary partition is accepted when the table has room for one more and the region
lies in a gap. -/
theorem Lawful.checkPartitionPlacement_iff_gap (law : g.Lawful)
    (ht : g.partitionTable table = .ok t) (hp : g.parent? table = some disk)
    (hd : g.disk disk = .ok d) {extent : Region} (known : d.extent? = some extent)
    (primary : p.type = .primary) (nonempty : 0 < p.region.length)
    (size : p.region.sectorSize = d.sectorSize) :
    ∃ gaps, g.unusedRegions table = .ok gaps ∧
      (g.checkPartitionPlacement table p none = .ok () ↔
        {x | ∃ q, g.Bounds table x q}.encard < t.ptType.maxPrimary ∧
        ∃ gap ∈ gaps, p.region.sectors ⊆ gap.sectors) := by
  obtain ⟨sizeK, nonzero, rfl⟩ := Disk.extent?_eq_some.1 known
  have partitioned := (arranged_iff nonzero).1 (law.valid.arranged ht hp hd)
  have onDisk : g.partitionTableDisk table = .ok disk := by
    simp only [partitionTableDisk, ht, bind, Except.bind]
    exact singleParent_eq_ok.2 hp
  obtain ⟨used, gaps, hgaps, mem, complement⟩ :=
    unusedRegions_spec law.valid ht onDisk hd partitioned known
  have absent := partAt_of_partitionTable ht
  obtain ⟨siblings, others, accepted⟩ := checkPartitionPlacement_eq_ok table p law.whole
    law.sitsOn_iff (.inr ⟨rfl, absent⟩) ht hp hd fun _ px => law.valid.exists_partition ht px
  have range : d.numSectors ≤ maxWord := Nat.min_le_right _ _
  refine ⟨gaps, hgaps, ?_⟩
  rw [accepted, suits_iff nonzero, complement.exists_gap_iff nonempty]
  have free : (∀ u ∈ used, Disjoint p.region.sectors u.sectors) ↔
      ∀ {x q}, g.partAt table x = some q → q.type ≠ .logical →
        Disjoint p.region.sectors q.region.sectors := by
    constructor
    · intro h x q hx hq
      exact h q.region ((mem _).2 ⟨x, q, ⟨hx, hq⟩, rfl⟩)
    · intro h u hu
      obtain ⟨x, q, ⟨hx, hq⟩, rfl⟩ := (mem u).1 hu
      exact h hx hq
  constructor
  · rintro ⟨fits, get⟩
    obtain ⟨room, apart⟩ :=
      (partitioned.checkSiblings_primary nonzero fits.toRegular primary absent others).1 get
    exact ⟨room, Nat.zero_le _, fits.onDisk sizeK, free.2 apart⟩
  · rintro ⟨room, _, ends, apart⟩
    have regular : p.region.Regular d.sectorSize := ⟨nonempty, by omega, size⟩
    refine ⟨⟨regular, by rw [primary]; rfl, fun _ => ends⟩, ?_⟩
    exact (partitioned.checkSiblings_primary nonzero regular primary absent others).2
      ⟨room, free.1 apart⟩

/-! ### The size of a disk -/

/-- A partition with sectors of the right size fits a disk if it ends before the disk does, counted
in bytes. The last bytes of a disk may be less than a sector. -/
theorem checkFits_iff_bytes (size : p.region.sectorSize = d.sectorSize)
    (ends : p.region.start + p.region.length ≤ maxWord) :
    checkFits p d = .ok () ↔ d.sizeK = 0 ∨
      (p.region.start + p.region.length) * p.region.sectorSize ≤ d.sizeK * 1024 := by
  by_cases zero : d.sectorSize = 0
  · have unknown : d.extent? = none := by simp [Disk.extent?, zero]
    simp only [size, zero, Nat.mul_zero, Nat.zero_le, or_true, iff_true]
    simp only [checkFits, refuse_bind_eq_ok, unknown, size, ne_eq, not_true_eq_false,
      not_false_eq_true, true_and]
    rfl
  · have whole : p.region.start + p.region.length ≤ d.numSectors ↔
        (p.region.start + p.region.length) * d.sectorSize ≤ d.sizeK * 1024 := by
      rw [Disk.numSectors, Nat.le_min, Nat.le_div_iff_mul_le (Nat.pos_of_ne_zero zero)]
      exact and_iff_left ends
    rw [checkFits_eq_ok zero, whole, and_iff_right size, size, ne_eq, ← or_iff_not_imp_left]

/-- What fits a disk has its sector size, whatever the size of the disk. -/
theorem sectorSize_of_checkFits (fits : checkFits p d = .ok ()) :
    p.region.sectorSize = d.sectorSize := by
  simp only [checkFits, refuse_bind_eq_ok, ne_eq, not_not] at fits
  exact fits.1

/-- All partitions fit a disk of another size if each ends before the disk does. -/
theorem Lawful.checkPartitionsFit_iff_bytes (law : g.Lawful) (hd : g.disk disk = .ok d) {d' : Disk}
    (size : d'.sectorSize = d.sectorSize) :
    g.checkPartitionsFit disk d' = .ok () ↔ d'.sizeK = 0 ∨
      ∀ sid p table, g.partition sid = .ok p → g.parent? sid = some table →
        g.parent? table = some disk →
          (p.region.start + p.region.length) * p.region.sectorSize ≤ d'.sizeK * 1024 := by
  have fits_iff : ∀ {table t sid p}, g.partitionTable table = .ok t →
      g.parent? table = some disk → g.partAt table sid = some p → (checkFits p d' = .ok () ↔
        d'.sizeK = 0 ∨
          (p.region.start + p.region.length) * p.region.sectorSize ≤ d'.sizeK * 1024) := by
    intro table t sid p ht hp hx
    have suits := (law.arranged ht hp hd).suits hx
    exact checkFits_iff_bytes ((sectorSize_of_checkFits suits.fits).trans size.symm) suits.ends
  rw [checkPartitionsFit_eq_ok law.valid hd]
  constructor
  · intro all
    refine or_iff_not_imp_left.2 fun known sid p table hp above hdisk => ?_
    obtain ⟨c, hc, isPartition⟩ := partition_eq_ok.1 hp
    obtain ⟨table', t, above', ht⟩ := law.valid.exists_table hc (isPartition_of_attributes isPartition)
    obtain rfl := Option.some.inj (above.symm.trans above')
    have here := partAt_eq_some.2 ⟨above, hp⟩
    exact ((fits_iff ht hdisk here).1 (all ht hdisk here)).resolve_left known
  · intro enough table t sid p ht hdisk here
    obtain ⟨above, hp⟩ := partAt_eq_some.1 here
    exact (fits_iff ht hdisk here).2 (enough.imp_right fun ends => ends sid p table hp above hdisk)

end Devicegraph

namespace Edit

open Devicegraph Attempt

variable {s : Editor} {table disk sid : Sid} {t : PartitionTable} {d : Disk} {region : Region}

/-- A primary partition with an unused name can be created on a disk whose sectors are known exactly
if the table has room for one more and the region lies in one of the gaps that are listed for the
table. -/
theorem createPartition_iff_gap (valid : s.graph.check = .ok ())
    (ht : s.graph.partitionTable table = .ok t)
    (hp : s.graph.partitionTableDisk table = .ok disk) (hd : s.graph.disk disk = .ok d)
    {extent : Region} (known : d.extent? = some extent) {name : String}
    (unused : ∀ x c, s.graph.find? x = some c → c.name? ≠ some name)
    (nonempty : 0 < region.length) (size : region.sectorSize = d.sectorSize) :
    ∃ gaps, s.graph.unusedRegions table = .ok gaps ∧
      ((∃ sid s', createPartition table name .primary region s = .ok sid s') ↔
        {x | ∃ p, s.graph.Bounds table x p}.encard < t.ptType.maxPrimary ∧
        ∃ gap ∈ gaps, region.sectors ⊆ gap.sectors) := by
  have law := Devicegraph.check_eq_ok.1 valid
  have parent : s.graph.parent? table = some disk := by
    simp only [partitionTableDisk, ht, bind, Except.bind] at hp
    exact singleParent_eq_ok.1 hp
  let p : Partition := { name, type := .primary, region, id := PartitionType.primary.defaultId }
  obtain ⟨gaps, hgaps, placed⟩ := law.checkPartitionPlacement_iff_gap (p := p) ht parent hd known rfl
    nonempty size
  have free : s.graph.checkNameUnused name none = .ok () :=
    checkNameUnused_eq_ok.2 fun hx hn => absurd hn (unused _ _ hx)
  refine ⟨gaps, hgaps, ?_⟩
  rw [(createPartition_checksFirst table name .primary region).exists_ok_iff, ← placed, bind_eq_ok]
  simp only [ht, Except.ok.injEq, exists_eq_left', check_bind_eq_ok, free, true_and,
    law.checkPlacement_partition ht, and_true]
  rfl

/-- A free region with a partition on each side of it. -/
theorem createPartition_divided : ∃ gaps, divided.unusedRegions 2 = .ok gaps ∧
    ((∃ sid s', createPartition 2 "/dev/sda3" .primary ⟨200, 800, 512⟩ { graph := divided } =
        .ok sid s') ↔
      {x | ∃ p, divided.Bounds 2 x p}.encard < 4 ∧
      ∃ gap ∈ gaps, (⟨200, 800, 512⟩ : Region).sectors ⊆ gap.sectors) := by
  have free : divided.checkNameUnused "/dev/sda3" none = .ok () := by cbv
  have isDisk : divided.disk 1 = .ok { name := "/dev/sda", sizeK := 1024 } := by cbv
  have known : ({ name := "/dev/sda", sizeK := 1024 } : Disk).extent? = some ⟨0, 2048, 512⟩ := by
    decide
  refine createPartition_iff_gap (s := { graph := divided }) (by cbv) (t := ⟨.msdos⟩) (by cbv)
    (by cbv) isDisk known (fun x c hc hn => ?_) (by decide) rfl
  cases checkNameUnused_eq_ok.1 free hc hn

/-! ### Disks of another size -/

/-- A disk can get a size exactly if the size is unknown or no partition ends behind it. Nothing
but the size of the disk changes. -/
theorem setDiskSizeK_iff (valid : s.graph.check = .ok ()) (hd : s.graph.disk disk = .ok d)
    (sizeK : Nat) :
    ((∃ s', setDiskSizeK disk sizeK s = .ok () s') ↔
      sizeK = 0 ∨ ∀ sid p table, s.graph.partition sid = .ok p →
        s.graph.parent? sid = some table → s.graph.parent? table = some disk →
          (p.region.start + p.region.length) * p.region.sectorSize ≤ sizeK * 1024) ∧
    ∀ s', setDiskSizeK disk sizeK s = .ok () s' →
      s'.graph.devices = s.graph.devices.map (fun c =>
        if c.sid = disk then { c with attributes := .disk { d with sizeK } } else c) ∧
      s'.graph.edges = s.graph.edges ∧ s'.supply = s.supply := by
  have law := Devicegraph.check_eq_ok.1 valid
  have checks := setDiskSizeK_checksFirst (s := s) disk sizeK
  rw [hd] at checks
  constructor
  · have size : ({ d with sizeK } : Disk).sectorSize = d.sectorSize := rfl
    rw [← law.checkPartitionsFit_iff_bytes hd size]
    refine Iff.trans ?_ checks.exists_ok_iff
    exact (Unique.exists_iff (p := fun a => ∃ s', setDiskSizeK disk sizeK s = .ok a s')).symm
  · intro s' performed
    have changed := (checks.of_ok performed).2
    obtain ⟨c, hc, isDisk⟩ := disk_eq_ok.1 hd
    obtain rfl := sid_of_find? hc
    have kind : (Attributes.disk { d with sizeK }).kind = c.kind := by rw [Device.kind, isDisk]; rfl
    have altered := altered_setAttributes hc kind
    rw [changed.graph, withDisk_of_ok hd]
    refine ⟨?_, altered.edges, changed.supply⟩
    rw [altered.devices_eq]
    refine List.map_congr_left fun b hb => ?_
    by_cases same : b.sid = c.sid
    · obtain rfl := Option.some.inj ((mem_devices.1 hb).symm.trans (same ▸ hc))
      rfl
    · rw [if_neg same, if_neg same]

/-- The last partition ends exactly with the new size. -/
theorem setDiskSizeK_divided : (∃ s', setDiskSizeK 1 1000 { graph := divided } = .ok () s') ↔
    1000 = 0 ∨ ∀ sid p table, divided.partition sid = .ok p → divided.parent? sid = some table →
      divided.parent? table = some 1 →
        (p.region.start + p.region.length) * p.region.sectorSize ≤ 1000 * 1024 := by
  have isDisk : divided.disk 1 = .ok { name := "/dev/sda", sizeK := 1024 } := by cbv
  exact (setDiskSizeK_iff (s := { graph := divided }) (by cbv) isDisk 1000).1

end Edit

end StoragePlan
