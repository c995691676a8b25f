import StoragePlan.Proofs.Sectors
import StoragePlan.Proofs.Sessions

/-!
# The layouts of documents

A document is checked like any devicegraph when it is read, whichever way it is read. No check asks
whether the sectors of a disk have bytes, though. So a document may have a disk whose sectors have
none, which no edit can make, and the partitions on it never overlap (`Region.overlaps_of_zero`). On
every other disk, partitions that exclude each other share no sector.
-/

namespace StoragePlan

open Session

/-- The ways to get a devicegraph from a document: by itself, in place of a devicegraph of a
session, or by probing. -/
inductive Devicegraph.Read : Devicegraph → Prop
  | text {text : String} {s s' : Editor} (empty : s.graph = .empty)
    (done : Edit.loadText text s = .ok () s') : Read s'.graph
  | loadText {name text : String} {n : Nat} {s s' : Session} {g : Devicegraph}
    (done : Command.loadText name text s = .ok n s') (found : s'.graph name = .ok g) : Read g
  | load {name path : String} {n : Nat} {s s' : Session} {g : Devicegraph}
    (done : Command.load name path s = .ok n s') (found : s'.graph name = .ok g) : Read g
  | probe {prober : Prober} {s s' : Session} (reads : prober.Reads s)
    (done : Command.probe prober s = .ok () s') : Read s'.probed

namespace Devicegraph

variable {g : Devicegraph}

theorem loaded_of_replaceGraph {read : Command Devicegraph} (fetches : Command.Fetches read)
    {name : String} {n : Nat} {s s' : Session} (done : Command.replaceGraph name read s = .ok n s')
    (found : s'.graph name = .ok g) : g.Loaded := by
  obtain ⟨h, s₁, free, _, hread, _, rfl⟩ := Command.replaceGraph_eq_ok.1 done
  rw [graph_setGraph free, if_pos rfl] at found
  exact Except.ok.inj found ▸ (fetches.fetched hread).loaded

/-- Every way leads through the same text. -/
theorem Read.loaded (h : g.Read) : g.Loaded := by
  cases h with
  | text empty done => exact ⟨_, _, _, empty, done, rfl⟩
  | loadText done found => exact loaded_of_replaceGraph (Command.fetches_loadText _) done found
  | load done found => exact loaded_of_replaceGraph (Command.fetches_readGraph _) done found
  | probe reads done =>
    have fetches := Command.fetches_findDevices reads
    obtain ⟨_, _, _, found, _, _, taken⟩ :=
      (Command.probe_spec Quiet.reading _ fetches.reading).2 _ done
    rw [taken.probed]
    exact (fetches.fetched found).loaded

/-- Every coherent document is accepted whose devicegraph passes its check. -/
theorem Read.of_text {text : String} {d : Document} (h : Document.ofText? text = some d)
    (coherent : d.Coherent) (valid : d.graph.check = .ok ()) : d.graph.Read := by
  obtain ⟨possible, effect⟩ := Edit.load_spec d (s := {}) rfl
  obtain ⟨s', loaded⟩ := possible.2 ⟨coherent, valid⟩
  have read := loaded
  rw [← Edit.loadText_of_ofText? h] at read
  exact (effect s' loaded).1 ▸ .text rfl read

/-- On a disk whose sectors have bytes, no two partitions of a document share a sector that are both
logical or both not. -/
theorem disjoint_of_read (read : g.Read) {table : Sid} {t : PartitionTable}
    (ht : g.partitionTable table = .ok t) : ∃ disk a, g.parent? table = some disk ∧
      g.disk disk = .ok a ∧ (a.sectorSize ≠ 0 → ∀ {x y p q}, y ≠ x →
        g.parent? x = some table → g.partition x = .ok p →
        g.parent? y = some table → g.partition y = .ok q →
        (p.type = .logical ↔ q.type = .logical) → Disjoint p.region.sectors q.region.sectors) := by
  have law := read.loaded.lawful
  obtain ⟨disk, a, hdisk, ha⟩ := law.valid.exists_disk ht
  refine ⟨disk, a, hdisk, ha, fun nonzero {x y p q} ne hx hp hy hq same => ?_⟩
  have layout := (arranged_iff nonzero).1 (law.arranged ht hdisk ha)
  exact layout.apart (partAt_eq_some.2 ⟨hx, hp⟩) (partAt_eq_some.2 ⟨hy, hq⟩) ne same

end Devicegraph

/-! ### Two partitions -/

namespace Document

/-- A disk with two primary partitions. -/
def pair (sectorSize : Nat) (first second : Region) : Document where
  devices := [⟨1, .disk { name := "a", sectorSize }, []⟩, ⟨2, .partitionTable ⟨.gpt⟩, []⟩,
    ⟨3, .partition { name := "b", region := first, id := 131 }, []⟩,
    ⟨4, .partition { name := "c", region := second, id := 131 }, []⟩]
  holders := [⟨1, 2, .user⟩, ⟨2, 3, .subdevice⟩, ⟨2, 4, .subdevice⟩]

/-- The characters of a text for it, with what is written for the numbers. -/
def pairChars (sectorSize first second : String) : List Char :=
  List.flatMap String.toList [
    "devices:\n- sid: 1\n  kind: disk\n  name: a\n  sector-size: ", sectorSize, "\n",
    "- sid: 2\n  kind: partition-table\n  pt-type: gpt\n",
    "- sid: 3\n  kind: partition\n  name: b\n  id: 131\n  region: ", first, "\n",
    "- sid: 4\n  kind: partition\n  name: c\n  id: 131\n  region: ", second, "\n",
    "holders:\n- source: 1\n  target: 2\n  kind: user\n",
    "- source: 2\n  target: 3\n  kind: subdevice\n",
    "- source: 2\n  target: 4\n  kind: subdevice\n"]

set_option maxRecDepth 100000 in
theorem ofText?_sideBySide :
    ofText? (String.ofList (pairChars "512" "[0, 9]" "[9, 9]")) =
      some (pair 512 ⟨0, 9, 512⟩ ⟨9, 9, 512⟩) := by
  rw [ofText?, Yaml.Tree.ofText?, Yaml.Written.ofText?, Yaml.Token.ofText?, String.toList_ofList]
  decide +kernel

set_option maxRecDepth 100000 in
theorem ofText?_onePlace :
    ofText? (String.ofList (pairChars "0" "[0, 9, 0]" "[0, 9, 0]")) =
      some (pair 0 ⟨0, 9, 0⟩ ⟨0, 9, 0⟩) := by
  rw [ofText?, Yaml.Tree.ofText?, Yaml.Written.ofText?, Yaml.Token.ofText?, String.toList_ofList]
  decide +kernel

end Document

namespace Devicegraph

open Document

/-- The sectors up to 8 and the sectors from 9 on. -/
theorem disjoint_of_read_sideBySide :
    (pair 512 ⟨0, 9, 512⟩ ⟨9, 9, 512⟩).graph.Read ∧
      (pair 512 ⟨0, 9, 512⟩ ⟨9, 9, 512⟩).graph.partitionTable 2 = .ok ⟨.gpt⟩ ∧
      Disjoint (Region.sectors ⟨0, 9, 512⟩) (Region.sectors ⟨9, 9, 512⟩) := by
  let d := pair 512 ⟨0, 9, 512⟩ ⟨9, 9, 512⟩
  have read : d.graph.Read := .of_text ofText?_sideBySide ⟨by decide, by decide, by decide⟩ (by cbv)
  have table : d.graph.partitionTable 2 = .ok ⟨.gpt⟩ := by cbv
  obtain ⟨disk, a, hdisk, ha, apart⟩ := disjoint_of_read read table
  have disk_eq : d.graph.parent? 2 = some 1 := by cbv
  obtain rfl := Option.some.inj (disk_eq.symm.trans hdisk)
  have a_eq : d.graph.disk 1 = .ok { name := "a", sectorSize := 512 } := by cbv
  obtain rfl := Except.ok.inj (a_eq.symm.trans ha)
  let p : Partition := { name := "b", region := ⟨0, 9, 512⟩, id := 131 }
  let q : Partition := { name := "c", region := ⟨9, 9, 512⟩, id := 131 }
  have hp : d.graph.partition 3 = .ok p := by cbv
  have hq : d.graph.partition 4 = .ok q := by cbv
  exact ⟨read, table, apart (by decide) (by decide) (by cbv) hp (by cbv) hq Iff.rfl⟩

/-- A document is accepted whose disk has no bytes in a sector and two partitions in one place. -/
theorem read_onePlace : ∃ g : Devicegraph, g.Read ∧ (∃ a, g.disk 1 = .ok a ∧ a.sectorSize = 0) ∧
    ∃ p q, g.parent? 3 = some 2 ∧ g.parent? 4 = some 2 ∧ g.partition 3 = .ok p ∧
      g.partition 4 = .ok q ∧ p.type = .primary ∧ q.type = .primary ∧
      ¬Disjoint p.region.sectors q.region.sectors := by
  let d := pair 0 ⟨0, 9, 0⟩ ⟨0, 9, 0⟩
  have read : d.graph.Read := .of_text ofText?_onePlace ⟨by decide, by decide, by decide⟩ (by cbv)
  refine ⟨d.graph, read, ⟨_, by cbv, rfl⟩, _, _, by cbv, by cbv, by cbv, by cbv, rfl, rfl, ?_⟩
  exact Set.not_disjoint_iff.2 ⟨0, ⟨by decide, by decide⟩, ⟨by decide, by decide⟩⟩

end Devicegraph

end StoragePlan
