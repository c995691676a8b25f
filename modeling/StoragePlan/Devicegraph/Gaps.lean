import StoragePlan.Devicegraph.Navigation

/-!
# Unused space

The regions of a disk that no primary or extended partition of its table takes, by start. A cursor
sweeps over the disk from partition to partition, and every part that it skips is a gap.
-/

namespace StoragePlan

namespace Region

/-- The gap from the cursor to a later sector, if there is one. -/
def gap (sectorSize cursor next : Nat) : List Region :=
  if cursor < next then [⟨cursor, next - cursor, sectorSize⟩] else []

/-- The gaps between regions in ascending order, from the cursor to the stop. -/
def gaps (sectorSize stop cursor : Nat) : List Region → Except Overflow (List Region)
  | [] => .ok (gap sectorSize cursor stop)
  | r :: rest => do
    let others ← gaps sectorSize stop (max cursor (← r.stop)) rest
    return gap sectorSize cursor r.start ++ others

end Region

namespace Devicegraph

/-- The regions of the primary and extended partitions of a table, in ascending order. -/
def usedRegions (g : Devicegraph) (table : Sid) : Except Failure (List Region) := do
  let used := (← g.partitionsWith table).filter fun (_, p) => p.type != .logical
  return (used.map fun (_, p) => p.region).mergeSort fun a b => (a.order b).isLE

/-- The regions of the disk of a table that no primary or extended partition takes; none if the size
of the disk is unknown. -/
def unusedRegions (g : Devicegraph) (table : Sid) : Except Failure (List Region) := do
  match (← g.disk (← g.partitionTableDisk table)).extent? with
  | none => return []
  | some extent =>
    let used ← g.usedRegions table
    ofRegion do Region.gaps extent.sectorSize (← extent.stop) extent.start used

end Devicegraph

end StoragePlan
