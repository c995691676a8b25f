/-!
# Regions of sectors

A region is a span of sectors on a block device: where it starts, how many sectors it has and how
large they are. Storing a region never fails; only its end and its size in bytes can leave the
64-bit range, and then the region at fault is reported (`Overflow`).

`contains` compares regions of one sector size, `overlaps` compares any two regions in bytes.
-/

namespace StoragePlan

/-- The largest number that a sid, a size or a sector number can be: `2 ^ 64 - 1`. -/
def maxWord : Nat := 18446744073709551615

/-- The largest number that the id or the number of a partition can be: `2 ^ 32 - 1`. -/
def maxHalfWord : Nat := 4294967295

/-- The sector size of a disk or a region that names none. -/
def defaultSectorSize : Nat := 512

/-- A span of `length` sectors of `sectorSize` bytes from sector `start` on. -/
structure Region where
  /-- The first sector. -/
  start : Nat
  /-- The number of sectors. -/
  length : Nat
  /-- The bytes in a sector. -/
  sectorSize : Nat := defaultSectorSize
  deriving DecidableEq, Repr, Inhabited

/-- The end or the size of `region` is not a 64-bit number. -/
structure Overflow where
  /-- The region at fault. -/
  region : Region
  deriving DecidableEq, Repr

namespace Region

/-- A region without sectors. -/
def isEmpty (r : Region) : Bool := r.length == 0

/-- The first sector after the region. -/
def stop (r : Region) : Except Overflow Nat :=
  if r.start + r.length ≤ maxWord then .ok (r.start + r.length) else .error ⟨r⟩

/-- The size of the region in bytes. -/
def sizeBytes (r : Region) : Except Overflow Nat :=
  if r.length * r.sectorSize ≤ maxWord then .ok (r.length * r.sectorSize) else .error ⟨r⟩

/-- Whether `inner` lies completely within `outer`. Regions of different sector sizes never contain
each other, and a region that starts too early is outside whatever its end. -/
def contains (outer inner : Region) : Except Overflow Bool :=
  if outer.sectorSize ≠ inner.sectorSize then .ok false
  else if inner.start < outer.start then .ok false
  else do
    let innerStop ← inner.stop
    let outerStop ← outer.stop
    return innerStop ≤ outerStop

/-- The bytes of the region, from the first to the one after the last. -/
def byteSpan (r : Region) : Except Overflow (Nat × Nat) := do
  let stop ← r.stop
  return (r.start * r.sectorSize, stop * r.sectorSize)

/-- Whether the regions share a byte. An empty region shares none, whatever its end. -/
def overlaps (a b : Region) : Except Overflow Bool :=
  if a.isEmpty || b.isEmpty then .ok false
  else do
    let (aStart, aStop) ← a.byteSpan
    let (bStart, bStop) ← b.byteSpan
    return aStart < bStop && bStart < aStop

/-- Regions are ordered by start, then length, then sector size. -/
def order (a b : Region) : Ordering :=
  (compare a.start b.start).then
    ((compare a.length b.length).then (compare a.sectorSize b.sectorSize))

/-- The region as messages show it. -/
def text (r : Region) : String := s!"[{r.start}, {r.length} x {r.sectorSize} B]"

/-- A region that ends inside the range has its end there. -/
theorem stop_eq_ok {r : Region} (h : r.start + r.length ≤ maxWord) :
    r.stop = .ok (r.start + r.length) := if_pos h

/-- A region that ends beyond the range is reported. -/
theorem stop_eq_error {r : Region} (h : maxWord < r.start + r.length) : r.stop = .error ⟨r⟩ :=
  if_neg (Nat.not_le.2 h)

end Region

end StoragePlan
