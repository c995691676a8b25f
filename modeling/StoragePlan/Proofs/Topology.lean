import Mathlib.Logic.Relation
import StoragePlan.Proofs.Documents
import StoragePlan.Proofs.Sectors

/-!
# The rules for documents

What a document has to say for its devicegraph to pass the check, told about its devices and holders
alone: on what devices sit (`Document.Seated`), that names differ, and how the partitions of a table
lie to each other as sets of sectors (`Devicegraph.Partitioned`). Every coherent document whose
disks have sectors with bytes is put into an empty devicegraph, which passes the check exactly if
the document is `Lawful` (`Document.check_fill`).

The check also refuses cycles. No rule is needed for that, because devices that are seated right
never form one.
-/

namespace StoragePlan

namespace DeviceKind

/-- A device of the first kind may sit on one of the second kind, by a holder of the given kind. -/
inductive GoesOn : DeviceKind → DeviceKind → HolderKind → Prop
  | tableOnDisk : GoesOn partitionTable disk .user
  | partitionOnTable : GoesOn partition partitionTable .subdevice
  | filesystemOnDisk : GoesOn filesystem disk .user
  | filesystemOnPartition : GoesOn filesystem partition .user

theorem goesOn_iff {child parent : DeviceKind} {kind : HolderKind} : GoesOn child parent kind ↔
    child.validParents.contains parent = true ∧ kind = child.parentHolderKind := by
  constructor
  · rintro (_ | _ | _ | _) <;> simp [validParents, KindSet.contains, parentHolderKind]
  · rintro ⟨suits, rfl⟩
    cases child <;> cases parent <;> simp [validParents, KindSet.contains] at suits <;> constructor

end DeviceKind

namespace Document

open Devicegraph

variable {d : Document} {c : Device}

/-- The holders into a device. -/
def into (d : Document) (x : Sid) : List Holder := d.holders.filter fun h => h.target == x

/-- The holders from a device. -/
def outOf (d : Document) (x : Sid) : List Holder := d.holders.filter fun h => h.source == x

/-- A holder leads to the one device from the other. -/
def On (d : Document) (child parent : Sid) : Prop :=
  ∃ h ∈ d.holders, h.source = parent ∧ h.target = child

/-- The device sits on what its kind sits on, and no more devices sit on it than there is room
for. -/
structure Seated (d : Document) (c : Device) : Prop where
  rooted : c.kind = .disk → d.into c.sid = []
  seated : c.kind ≠ .disk → ∃ h, d.into c.sid = [h] ∧
    ∃ p ∈ d.devices, p.sid = h.source ∧ c.kind.GoesOn p.kind h.kind
  room : c.kind = .disk ∨ c.kind = .partition → (d.outOf c.sid).length ≤ 1
  leaf : c.kind = .filesystem → d.outOf c.sid = []

/-- The partition with a sid, if it is in the table. -/
def partAt (d : Document) (table x : Sid) : Option Partition :=
  if d.holders.any fun h => h.source == table && h.target == x then
    (d.devices.find? fun c => c.sid == x).bind fun c => c.attributes.partition?
  else none

/-- The document follows the rules. -/
structure Lawful (d : Document) : Prop where
  seated : ∀ c ∈ d.devices, d.Seated c
  named : (d.devices.filterMap Device.name?).Nodup
  partitioned : ∀ t ∈ d.devices, ∀ k ∈ d.devices, ∀ table disk,
    t.attributes = .partitionTable table → k.attributes = .disk disk → d.On t.sid k.sid →
      Partitioned table.ptType disk (d.partAt t.sid)

/-! ### Holders -/

section

variable (coherent : d.Coherent)
include coherent

theorem edgesAt_up_graph (x : Sid) :
    d.graph.edgesAt .up ⟨x, 0⟩ = (d.into x).reverse.map Holder.edge := by
  rw [coherent.filled.edgesAt_eq, into]
  refine congrArg (List.map Holder.edge ·.reverse) (List.filter_congr fun h _ => ?_)
  simp [Holder.edge, Edge.tail]

theorem edgesAt_down_graph (x : Sid) :
    d.graph.edgesAt .down ⟨x, 0⟩ = (d.outOf x).reverse.map Holder.edge := by
  rw [coherent.filled.edgesAt_eq, outOf]
  refine congrArg (List.map Holder.edge ·.reverse) (List.filter_congr fun h _ => ?_)
  simp [Holder.edge, Edge.tail]

/-- The holders at a device of a document, as the check counts and looks at them. -/
theorem joined_graph_iff : d.graph.Joined c ↔
    (∀ h ∈ d.into c.sid, ∃ p ∈ d.devices, p.sid = h.source ∧ c.kind.GoesOn p.kind h.kind) ∧
    c.kind.validParentCount.contains (d.into c.sid).length = true ∧
    c.kind.validChildren.contains (d.outOf c.sid).length = true := by
  have source : ∀ h ∈ d.into c.sid, ∃ p ∈ d.devices, p.sid = h.source ∧
      d.graph.node? ⟨h.source, 0⟩ = some ⟨p, 0⟩ := by
    intro h hh
    obtain ⟨p, hp, same⟩ := List.mem_map.1 (coherent.anchored h (List.mem_of_mem_filter hh)).1
    have found : d.graph.find? h.source = some p := coherent.filled.find?_eq_some.2 ⟨hp, same⟩
    obtain ⟨hn, _⟩ := Devicegraph.find?_eq_some.1 found
    exact ⟨p, hp, same, node?_eq_some.2 ⟨hn, by rw [Node.ref, same]⟩⟩
  constructor
  · intro joined
    refine ⟨fun h hh => ?_, ?_, ?_⟩
    · obtain ⟨p, hp, same, found⟩ := source h hh
      have above : h.edge ∈ d.graph.edgesAt .up ⟨c.sid, 0⟩ := by
        rw [edgesAt_up_graph coherent]
        exact List.mem_map_of_mem (List.mem_reverse.2 hh)
      exact ⟨p, hp, same, DeviceKind.goesOn_iff.2
        ⟨joined.kinds h.edge above _ found, joined.holders h.edge above⟩⟩
    · simpa [edgesAt_up_graph coherent] using joined.above
    · simpa [edgesAt_down_graph coherent] using joined.below
  · rintro ⟨fits, above, below⟩
    have each : ∀ e ∈ d.graph.edgesAt .up ⟨c.sid, 0⟩, ∃ p,
        d.graph.node? e.source = some ⟨p, 0⟩ ∧ c.kind.GoesOn p.kind e.kind := by
      intro e he
      rw [edgesAt_up_graph coherent] at he
      obtain ⟨h, hh, rfl⟩ := List.mem_map.1 he
      have hh := List.mem_reverse.1 hh
      obtain ⟨p, hp, same, found⟩ := source h hh
      obtain ⟨q, hq, same', goes⟩ := fits h hh
      obtain rfl := List.inj_on_of_nodup_map coherent.distinct hp hq (same.trans same'.symm)
      exact ⟨p, found, goes⟩
    refine ⟨⟨fun e he q hq => ?_, ?_, ?_⟩, fun e he => ?_⟩
    · obtain ⟨p, found, goes⟩ := each e he
      obtain rfl := Option.some.inj (found.symm.trans hq)
      exact (DeviceKind.goesOn_iff.1 goes).1
    · simpa [edgesAt_up_graph coherent] using above
    · simpa [edgesAt_down_graph coherent] using below
    · obtain ⟨p, _, goes⟩ := each e he
      exact (DeviceKind.goesOn_iff.1 goes).2

/-- A device is joined right exactly if it is seated right. -/
theorem joined_iff_seated : d.graph.Joined c ↔ d.Seated c := by
  rw [joined_graph_iff coherent]
  constructor
  · rintro ⟨fits, above, below⟩
    refine ⟨fun isDisk => ?_, fun notDisk => ?_, fun room => ?_, fun leaf => ?_⟩
    · simpa [isDisk, DeviceKind.validParentCount, Cardinality.contains, Cardinality.zero,
        Cardinality.exactly] using above
    · have one : (d.into c.sid).length = 1 := by
        cases hk : c.kind <;> simp_all [DeviceKind.validParentCount, Cardinality.contains,
          Cardinality.exactly] <;> omega
      obtain ⟨h, hh⟩ := List.length_eq_one_iff.1 one
      exact ⟨h, hh, fits h (by simp [hh])⟩
    · rcases room with hk | hk <;>
        simpa [hk, DeviceKind.validChildren, Cardinality.contains, Cardinality.atMost] using below
    · simpa [leaf, DeviceKind.validChildren, Cardinality.contains, Cardinality.zero,
        Cardinality.exactly] using below
  · intro seated
    have below : c.kind.validChildren.contains (d.outOf c.sid).length = true := by
      cases hk : c.kind with
      | disk | partition =>
        simpa [DeviceKind.validChildren, Cardinality.contains, Cardinality.atMost] using
          seated.room (by simp [hk])
      | partitionTable => rfl
      | filesystem =>
        rw [seated.leaf hk]
        exact DeviceKind.validChildren_zero _
    by_cases isDisk : c.kind = .disk
    · rw [seated.rooted isDisk]
      exact ⟨by simp, DeviceKind.validParentCount_zero isDisk, below⟩
    · obtain ⟨h, one, fits⟩ := seated.seated isDisk
      rw [one]
      exact ⟨by simpa using fits, DeviceKind.validParentCount_one isDisk, below⟩

/-- The names in the devicegraph differ exactly if those in the document do. -/
theorem named_graph_iff : (∀ {x y b c name}, d.graph.find? x = some b → d.graph.find? y = some c →
    b.name? = some name → c.name? = some name → x = y) ↔
      (d.devices.filterMap Device.name?).Nodup := by
  have distinct : d.devices.Pairwise fun a b => a.sid ≠ b.sid :=
    List.pairwise_map.1 coherent.distinct
  rw [nodup_names_iff distinct]
  simp only [coherent.filled.find?_eq_some]
  constructor
  · intro named b hb c hc name hbn hcn
    exact named ⟨hb, rfl⟩ ⟨hc, rfl⟩ hbn hcn
  · rintro named x y b c name ⟨hb, rfl⟩ ⟨hc, rfl⟩ hbn hcn
    exact named b hb c hc name hbn hcn

theorem on_iff_sitsOn {child parent : Sid} : d.On child parent ↔ d.graph.SitsOn child parent :=
  coherent.filled.sitsOn_iff.symm

/-- The partitions of a table are the same, if devices sit on one other at most. -/
theorem partAt_graph (joined : ∀ {x c}, d.graph.find? x = some c → d.graph.Joined c) (table : Sid) :
    d.graph.partAt table = d.partAt table := by
  funext x
  refine Option.ext fun p => ?_
  have holder : (d.holders.any fun h => h.source == table && h.target == x) = true ↔
      d.graph.parent? x = some table := by
    rw [← sitsOn_iff_of_joined coherent.filled.whole joined, ← on_iff_sitsOn coherent, On]
    simp
  have device : ∀ {c},
      (d.devices.find? fun c => c.sid == x) = some c ↔ d.graph.find? x = some c := by
    intro c
    rw [coherent.filled.find?_eq_some]
    constructor
    · intro found
      exact ⟨List.mem_of_find?_eq_some found, by simpa using List.find?_some found⟩
    · rintro ⟨hc, rfl⟩
      obtain ⟨b, hb⟩ := Option.isSome_iff_exists.1 <|
        (List.find?_isSome (p := fun b : Device => b.sid == c.sid)).2 ⟨c, hc, by simp⟩
      have same : b.sid = c.sid := by simpa using List.find?_some hb
      rw [hb, List.inj_on_of_nodup_map coherent.distinct (List.mem_of_find?_eq_some hb) hc same]
  have isPartition : ∀ {a : Attributes}, a.partition? = some p ↔ a = .partition p := by
    intro a
    cases a <;> simp [Attributes.partition?]
  rw [partAt_eq_some, partition_eq_ok, partAt]
  by_cases held : (d.holders.any fun h => h.source == table && h.target == x) = true
  · rw [if_pos held, and_iff_right (holder.1 held), Option.bind_eq_some_iff]
    simp only [device, isPartition]
  · rw [if_neg held]
    simp only [reduceCtorEq, iff_false, not_and]
    intro onTable
    exact absurd (holder.2 onTable) held

/-- The devicegraph of a document is lawful exactly if the document is. -/
theorem lawful_graph_iff
    (sized : ∀ c ∈ d.devices, ∀ a, c.attributes = .disk a → a.sectorSize ≠ 0) :
    d.graph.Lawful ↔ d.Lawful := by
  have found : ∀ {x c}, d.graph.find? x = some c ↔ c ∈ d.devices ∧ c.sid = x :=
    coherent.filled.find?_eq_some
  constructor
  · intro law
    refine ⟨fun c hc => ?_, (named_graph_iff coherent).1 law.named, ?_⟩
    · exact (joined_iff_seated coherent).1 (law.joined (found.2 ⟨hc, rfl⟩))
    · intro t ht k hk table disk hta hka on
      have layout := law.arranged (partitionTable_eq_ok.2 ⟨t, found.2 ⟨ht, rfl⟩, hta⟩)
        (law.sitsOn_iff.1 ((on_iff_sitsOn coherent).1 on))
        (disk_eq_ok.2 ⟨k, found.2 ⟨hk, rfl⟩, hka⟩)
      rw [← partAt_graph coherent law.joined]
      exact (arranged_iff (sized k hk disk hka)).1 layout
  · intro law
    have joined : ∀ {x c}, d.graph.find? x = some c → d.graph.Joined c := fun hc =>
      (joined_iff_seated coherent).2 (law.seated _ (found.1 hc).1)
    refine ⟨coherent.filled.whole, joined, (named_graph_iff coherent).2 law.named, ?_⟩
    intro table disk t a ht hp ha
    obtain ⟨tc, htc, hta⟩ := partitionTable_eq_ok.1 ht
    obtain ⟨kc, hkc, hka⟩ := disk_eq_ok.1 ha
    obtain ⟨tableThere, rfl⟩ := found.1 htc
    obtain ⟨diskThere, rfl⟩ := found.1 hkc
    have on := (on_iff_sitsOn coherent).2 <|
      (sitsOn_iff_of_joined coherent.filled.whole joined).2 hp
    rw [partAt_graph coherent joined, arranged_iff (sized _ diskThere a hka)]
    exact law.partitioned _ tableThere _ diskThere t a hta hka on

/-- Devices that are seated right sit on devices of lower tiers, directly or not. -/
theorem tier_lt_of_transGen (seated : ∀ c ∈ d.devices, d.Seated c) {child ancestor : Sid}
    (above : Relation.TransGen d.On child ancestor) : ∃ c ∈ d.devices, ∃ p ∈ d.devices,
      c.sid = child ∧ p.sid = ancestor ∧ p.kind.tier < c.kind.tier := by
  have step : ∀ {child parent}, d.On child parent → ∃ c ∈ d.devices, ∃ p ∈ d.devices,
      c.sid = child ∧ p.sid = parent ∧ p.kind.tier < c.kind.tier := by
    rintro child parent ⟨h, hh, rfl, rfl⟩
    obtain ⟨c, hc, hcs⟩ := List.mem_map.1 (coherent.anchored h hh).2
    have held : h ∈ d.into c.sid := List.mem_filter.2 ⟨hh, by simp [hcs]⟩
    obtain ⟨h', one, p, hp, hps, goes⟩ := (seated c hc).seated fun isDisk => by
      rw [(seated c hc).rooted isDisk] at held
      cases held
    rw [one] at held
    obtain rfl := List.mem_singleton.1 held
    exact ⟨c, hc, p, hp, hcs, hps, DeviceKind.tier_lt (DeviceKind.goesOn_iff.1 goes).1⟩
  induction above with
  | single on => exact step on
  | tail _ on ih =>
    obtain ⟨c, hc, m, hm, hcs, hms, lt⟩ := ih
    obtain ⟨m', hm', p, hp, hms', hps, lt'⟩ := step on
    obtain rfl := List.inj_on_of_nodup_map coherent.distinct hm hm' (hms.trans hms'.symm)
    exact ⟨c, hc, p, hp, hcs, hps, lt'.trans lt⟩

/-- No device leads back to itself where every device is seated right. -/
theorem not_transGen_on (seated : ∀ c ∈ d.devices, d.Seated c) (x : Sid) :
    ¬Relation.TransGen d.On x x := by
  intro cycle
  obtain ⟨c, hc, p, hp, hcs, hps, lt⟩ := tier_lt_of_transGen coherent seated cycle
  obtain rfl := List.inj_on_of_nodup_map coherent.distinct hc hp (hcs.trans hps.symm)
  exact lt_irrefl _ lt

end

/-- Every coherent document can be put into an empty devicegraph, which passes the check exactly if
the document follows the rules. The rules on seats already exclude cycles. -/
theorem check_fill (d : Document) (coherent : d.Coherent)
    (sized : ∀ c ∈ d.devices, ∀ a, c.attributes = .disk a → a.sectorSize ≠ 0) {s : Editor}
    (empty : s.graph = .empty) : ∃ s', Edit.fill d s = .ok () s' ∧
      (s'.graph.check = .ok () ↔ d.Lawful) ∧
      ((∀ c ∈ d.devices, d.Seated c) →
        s'.graph.checkAcyclic = .ok () ∧ ∀ x, ¬Relation.TransGen d.On x x) := by
  obtain ⟨possible, effect⟩ := Edit.fill_spec d empty
  obtain ⟨s', filled⟩ := possible.2 coherent
  obtain ⟨graph, _⟩ := effect s' filled
  refine ⟨s', filled, ?_, fun seated => ⟨?_, not_transGen_on coherent seated⟩⟩
  · rw [graph, check_eq_ok, lawful_graph_iff coherent sized]
  · rw [graph]
    refine if_pos (acyclic_of_joined coherent.filled.whole fun hc => ?_)
    exact (joined_iff_seated coherent).2 (seated _ (coherent.filled.find?_eq_some.1 hc).1)

/-- A disk with two primary partitions, of which the first has the sectors from 2048 to 6143. -/
def twoPartitions (second : Region) : Document where
  devices := [⟨1, .disk { name := "/dev/sda", sizeK := 1048576 }, []⟩,
    ⟨2, .partitionTable ⟨.msdos⟩, []⟩,
    ⟨3, .partition { name := "/dev/sda1", region := ⟨2048, 4096, 512⟩, id := 0x83 }, []⟩,
    ⟨4, .partition { name := "/dev/sda2", region := second, id := 0x83 }, []⟩]
  holders := [⟨1, 2, .user⟩, ⟨2, 3, .subdevice⟩, ⟨2, 4, .subdevice⟩]

/-- Where the second partition has the last sector of the first one, the check fails. -/
theorem check_fill_shared_sector : (twoPartitions ⟨6143, 100, 512⟩).Coherent ∧
    ∃ s', Edit.fill (twoPartitions ⟨6143, 100, 512⟩) {} = .ok () s' ∧
      s'.graph.check ≠ .ok () := by
  have coherent : (twoPartitions ⟨6143, 100, 512⟩).Coherent := ⟨by decide, by decide, by decide⟩
  have sized : ∀ c ∈ (twoPartitions ⟨6143, 100, 512⟩).devices, ∀ a, c.attributes = .disk a →
      a.sectorSize ≠ 0 := by
    simp [twoPartitions, defaultSectorSize]
  obtain ⟨s', filled, check, _⟩ := check_fill _ coherent sized (s := {}) rfl
  refine ⟨coherent, s', filled, fun passes => ?_⟩
  have layout := (check.1 passes).partitioned ⟨2, .partitionTable ⟨.msdos⟩, []⟩ (by decide)
    ⟨1, .disk { name := "/dev/sda", sizeK := 1048576 }, []⟩ (by decide) _ _ rfl rfl
    ⟨⟨1, 2, .user⟩, by decide, rfl, rfl⟩
  have apart := layout.apart (x := 3) (y := 4) rfl rfl (by decide) (by decide)
  have first : 6143 ∈ Set.Ico 2048 (2048 + 4096) := ⟨by decide, by decide⟩
  exact Set.disjoint_left.1 apart first ⟨by decide, by decide⟩

end Document

end StoragePlan
