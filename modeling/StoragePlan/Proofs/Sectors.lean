import StoragePlan.Proofs.Layout
import Mathlib.Order.CompletePartialOrder
import Mathlib.Order.Interval.Set.Disjoint

/-!
# Regions as sets of sectors

The checks compare regions in bytes and by their ends. Here a region is the set of its sectors, and
the checks say of such sets what one expects: two regions that pass the check for overlaps share no
sector, and a region that is contained in another one has no sector outside of it. This needs that
both regions are `Regular`: not empty, in the range and with sectors of one size.

It also needs that the size is not 0. Where a sector has no bytes, two regions never overlap
(`Region.overlaps_of_zero`).
-/

namespace StoragePlan

namespace Region

/-- The sectors of the region. -/
def sectors (r : Region) : Set Nat := Set.Ico r.start (r.start + r.length)

/-- The region has sectors, all in the range and of the given size. -/
structure Regular (r : Region) (size : Nat) : Prop where
  nonempty : 0 < r.length
  ends : r.start + r.length ≤ maxWord
  sectorSize : r.sectorSize = size

variable {a b : Region} {size : Nat}

/-- Regions overlap exactly if they share a sector. -/
theorem Regular.overlaps_iff (ha : a.Regular size) (hb : b.Regular size) (nonzero : size ≠ 0) :
    a.overlaps b = .ok false ↔ Disjoint a.sectors b.sectors := by
  have := ha.nonempty
  have := hb.nonempty
  have bytes : ∀ m n : Nat, m * size ≤ n * size ↔ m ≤ n := fun m n =>
    Nat.mul_le_mul_right_iff (Nat.pos_of_ne_zero nonzero)
  rw [overlaps_eq_false, sectors, sectors, Set.Ico_disjoint_Ico, ha.sectorSize, hb.sectorSize,
    bytes, bytes]
  have := ha.ends
  have := hb.ends
  omega

/-- A region contains another one exactly if it has all its sectors. -/
theorem Regular.contains_iff (ha : a.Regular size) (hb : b.Regular size) :
    a.contains b = .ok true ↔ b.sectors ⊆ a.sectors := by
  have nonempty := hb.nonempty
  rw [contains_eq_true, sectors, sectors, Set.Ico_subset_Ico_iff (by omega), ha.sectorSize,
    hb.sectorSize]
  have := ha.ends
  omega

/-- Regions whose sectors have no bytes never overlap. -/
theorem overlaps_of_zero (ha : a.Regular 0) (hb : b.Regular 0) : a.overlaps b = .ok false :=
  overlaps_eq_false.2 <| .inr <| .inr
    ⟨ha.ends, hb.ends, .inl (by simp [ha.sectorSize, hb.sectorSize])⟩

end Region

/-- The number of sectors of a disk of a known size, as far as a region can reach. -/
def Disk.numSectors (d : Disk) : Nat := min (d.sizeK * 1024 / d.sectorSize) maxWord

namespace Devicegraph

open Attempt

/-- A partition that a table on a disk can hold, whatever else is in the table. -/
structure Fits (table : PtType) (disk : Disk) (p : Partition) : Prop
    extends p.region.Regular disk.sectorSize where
  supported : table.supports p.type = true
  /-- The partition ends on the disk. -/
  onDisk : disk.sizeK ≠ 0 → p.region.start + p.region.length ≤ disk.numSectors

variable {table : PtType} {disk : Disk}

theorem checkFits_eq_ok {p : Partition} (nonzero : disk.sectorSize ≠ 0) :
    checkFits p disk = .ok () ↔ p.region.sectorSize = disk.sectorSize ∧
      (disk.sizeK ≠ 0 → p.region.start + p.region.length ≤ disk.numSectors) := by
  unfold checkFits Disk.extent?
  by_cases known : disk.sizeK = 0
  · simp only [known, true_or, if_true, refuse_bind_eq_ok, ne_eq, not_not, not_true_eq_false,
      false_implies, and_true]
    exact and_iff_left rfl
  · have reach : disk.numSectors ≤ maxWord := Nat.min_le_right _ _
    simp only [known, nonzero, or_self, if_false, refuse_bind_eq_ok, bind_eq_ok, ofRegion_eq_ok,
      ne_eq, not_not, not_false_eq_true, forall_const]
    refine and_congr_right fun size => ?_
    have inside : (⟨0, disk.numSectors, disk.sectorSize⟩ : Region).contains p.region = .ok true ↔
        p.region.start + p.region.length ≤ disk.numSectors := by
      rw [Region.contains_eq_true]
      simp [size, reach]
    rw [← inside]
    constructor
    · rintro ⟨inside, h, passed⟩
      cases inside with
      | true => exact h
      | false => cases passed
    · intro h
      exact ⟨true, h, rfl⟩

/-- Where sectors have bytes, the checks of one partition are these rules. -/
theorem suits_iff {p : Partition} (nonzero : disk.sectorSize ≠ 0) :
    Suits table disk p ↔ Fits table disk p := by
  constructor
  · intro h
    obtain ⟨size, onDisk⟩ := (checkFits_eq_ok nonzero).1 h.fits
    have nonempty : 0 < p.region.length := by
      have := h.nonempty
      simp only [Region.isEmpty, beq_eq_false_iff_ne, ne_eq] at this
      exact Nat.pos_of_ne_zero this
    exact ⟨⟨nonempty, h.ends, size⟩, h.supported, onDisk⟩
  · intro h
    refine ⟨?_, h.ends, h.supported, (checkFits_eq_ok nonzero).2 ⟨h.sectorSize, h.onDisk⟩⟩
    simpa [Region.isEmpty] using Nat.ne_of_gt h.nonempty

/-- The rules for the partitions of a table, said about sets of sectors. -/
structure Partitioned (table : PtType) (disk : Disk) (parts : Sid → Option Partition) : Prop where
  fits : ∀ {x p}, parts x = some p → Fits table disk p
  /-- Two logical partitions share no sector, and neither do two others. -/
  apart : ∀ {x y p q}, parts x = some p → parts y = some q → y ≠ x →
    (p.type = .logical ↔ q.type = .logical) → Disjoint p.region.sectors q.region.sectors
  room : {x | ∃ p, parts x = some p ∧ p.type ≠ .logical}.encard ≤ table.maxPrimary
  single : ∀ {x y p q}, parts x = some p → p.type = .extended → parts y = some q →
    q.type = .extended → y = x
  inside : ∀ {x p}, parts x = some p → p.type = .logical → ∃ y q, parts y = some q ∧
    q.type = .extended ∧ p.region.sectors ⊆ q.region.sectors

/-- Where sectors have bytes, the checks of all partitions are these rules. -/
theorem arranged_iff {parts : Sid → Option Partition} (nonzero : disk.sectorSize ≠ 0) :
    Arranged table disk parts ↔ Partitioned table disk parts := by
  constructor
  · intro h
    have fits : ∀ {x p}, parts x = some p → Fits table disk p := fun hx =>
      (suits_iff nonzero).1 (h.suits hx)
    refine ⟨fits, fun {x y p q} hx hy ne same => ?_, h.room, h.single, fun hx hk => ?_⟩
    · exact ((fits hx).overlaps_iff (fits hy).toRegular nonzero).1 (h.apart hx hy ne same)
    · obtain ⟨y, q, hy, isExtended, inside⟩ := h.inside hx hk
      exact ⟨y, q, hy, isExtended, ((fits hy).contains_iff (fits hx).toRegular).1 inside⟩
  · intro h
    refine ⟨fun hx => (suits_iff nonzero).2 (h.fits hx), fun {x y p q} hx hy ne same => ?_, h.room,
      h.single, fun hx hk => ?_⟩
    · exact ((h.fits hx).overlaps_iff (h.fits hy).toRegular nonzero).2 (h.apart hx hy ne same)
    · obtain ⟨y, q, hy, isExtended, inside⟩ := h.inside hx hk
      exact ⟨y, q, hy, isExtended, ((h.fits hy).contains_iff (h.fits hx).toRegular).2 inside⟩

end Devicegraph

end StoragePlan
