import Mathlib.Data.Set.Card
import StoragePlan.Proofs.Navigation

/-!
# Partitions of a valid table

What `checkPartitionPlacement` makes sure of about the partitions of one table: their regions end in
the range, two of one class share no sector, there is room for those that are not logical, and at
most one is extended. All of it stays true of regions that only lose sectors at their end
(`Region.FitsIn`), which is what a plan makes of them on the way.
-/

namespace StoragePlan

namespace Region

/-- The region is the other one without some sectors at its end. -/
structure FitsIn (inner outer : Region) : Prop where
  start : inner.start = outer.start
  sectorSize : inner.sectorSize = outer.sectorSize
  length : inner.length ≤ outer.length

theorem FitsIn.refl (r : Region) : r.FitsIn r := ⟨rfl, rfl, Nat.le_refl _⟩

/-- Two regions share no byte when one is empty, or when both end in the range and one ends before
the other starts. -/
theorem overlaps_eq_false {a b : Region} : a.overlaps b = .ok false ↔
    a.length = 0 ∨ b.length = 0 ∨
      (a.start + a.length ≤ maxWord ∧ b.start + b.length ≤ maxWord ∧
        ((b.start + b.length) * b.sectorSize ≤ a.start * a.sectorSize ∨
          (a.start + a.length) * a.sectorSize ≤ b.start * b.sectorSize)) := by
  unfold overlaps isEmpty
  by_cases ha : a.length = 0
  · simp [ha]
  by_cases hb : b.length = 0
  · simp [hb]
  have nonempty : (a.length == 0 || b.length == 0) = false := by simp [ha, hb]
  simp only [nonempty, Bool.false_eq_true, if_false, ha, hb, false_or, byteSpan, stop]
  by_cases hsa : a.start + a.length ≤ maxWord
  · by_cases hsb : b.start + b.length ≤ maxWord
    · simp [hsa, hsb, bind, Except.bind, pure, Except.pure]
      omega
    · simp [hsa, hsb, bind, Except.bind, pure, Except.pure]
  · simp [hsa, bind, Except.bind]

/-- Regions that share no byte share none when they lose sectors. -/
theorem overlaps_of_fitsIn {a b a' b' : Region} (h : a.overlaps b = .ok false) (ha : a'.FitsIn a)
    (hb : b'.FitsIn b) : a'.overlaps b' = .ok false := by
  rw [overlaps_eq_false] at h ⊢
  obtain ⟨hsa, hza, hla⟩ := ha
  obtain ⟨hsb, hzb, hlb⟩ := hb
  rcases h with h | h | ⟨hea, heb, h | h⟩
  · exact .inl (by omega)
  · exact .inr (.inl (by omega))
  · refine .inr (.inr ⟨by omega, by omega, .inl ?_⟩)
    rw [hsa, hza, hzb]
    exact Nat.le_trans (Nat.mul_le_mul_right _ (by omega)) h
  · refine .inr (.inr ⟨by omega, by omega, .inr ?_⟩)
    rw [hsb, hza, hzb]
    exact Nat.le_trans (Nat.mul_le_mul_right _ (by omega)) h

end Region

namespace Devicegraph

open Attempt

variable {g : Devicegraph}

theorem ofRegion_eq_ok {α : Type} {x : Except Overflow α} {a : α} :
    ofRegion x = .ok a ↔ x = .ok a := by
  cases x <;> simp [ofRegion]

/-! ### One partition among the others -/

theorem checkNoOverlap_eq_ok {candidate : Partition} {others : List Partition} :
    checkNoOverlap candidate others = .ok () ↔
      ∀ other ∈ others, candidate.region.overlaps other.region = .ok false := by
  simp only [checkNoOverlap, forM_eq_ok, bind_eq_ok, ofRegion_eq_ok]
  refine forall₂_congr fun other _ => ?_
  constructor
  · rintro ⟨shared, h, hs⟩
    cases shared with
    | false => exact h
    | true => cases hs
  · exact fun h => ⟨false, h, rfl⟩

/-- A candidate that is not logical finds room for it, no other extended partition if it is one, and
no sector that another one has. -/
theorem of_checkSiblings {table : PtType} {candidate : Partition} {siblings : List Partition}
    (h : checkSiblings table candidate siblings = .ok ()) (hk : candidate.type ≠ .logical) :
    (siblings.filter fun p => p.type != .logical).length + 1 ≤ table.maxPrimary ∧
      (candidate.type = .extended → ∀ p ∈ siblings, p.type ≠ .extended) ∧
      checkNoOverlap candidate (siblings.filter fun p => p.type != .logical) = .ok () := by
  unfold checkSiblings at h
  cases hp : candidate.type with
  | logical => exact absurd hp hk
  | primary =>
    simp only [hp, reduceCtorEq, if_false, refuse_bind_eq_ok, bind_eq_ok] at h
    obtain ⟨room, _, apart, _⟩ := h
    exact ⟨Nat.not_lt.1 room, by simp, apart⟩
  | extended =>
    simp only [hp, if_true, refuse_bind_eq_ok] at h
    obtain ⟨room, h⟩ := h
    split at h
    · cases h
    · next none =>
      obtain ⟨_, apart, _⟩ := bind_eq_ok.1 h
      refine ⟨Nat.not_lt.1 room, fun _ p hp isExtended => ?_, apart⟩
      have some := List.find?_isSome (p := fun p => p.type == .extended) |>.2
        ⟨p, hp, by simp [isExtended]⟩
      obtain ⟨e, he⟩ := Option.isSome_iff_exists.1 some
      exact none e he

/-- The candidate shares no sector with the others of its class. -/
theorem apart_of_checkSiblings {table : PtType} {candidate : Partition} {siblings : List Partition}
    (h : checkSiblings table candidate siblings = .ok ()) {other : Partition}
    (ho : other ∈ siblings) (same : candidate.type = .logical ↔ other.type = .logical) :
    candidate.region.overlaps other.region = .ok false := by
  by_cases hk : candidate.type = .logical
  · unfold checkSiblings at h
    simp only [hk, bind_eq_ok] at h
    obtain ⟨_, _, apart⟩ := h
    exact checkNoOverlap_eq_ok.1 apart other (List.mem_filter.2 ⟨ho, by simp [same.1 hk]⟩)
  · obtain ⟨_, _, apart⟩ := of_checkSiblings h hk
    refine checkNoOverlap_eq_ok.1 apart other (List.mem_filter.2 ⟨ho, ?_⟩)
    simpa using fun isLogical => hk (same.2 isLogical)

/-- The partition `sid` is an extended one. -/
def IsExtended (g : Devicegraph) (sid : Sid) : Prop :=
  ∃ p, g.partition sid = .ok p ∧ p.type = .extended

/-- The partition `logical` is a logical one in the table of the extended one `extended`. -/
structure LogicalIn (g : Devicegraph) (logical extended : Sid) : Prop where
  isExtended : g.IsExtended extended
  isLogical : ∃ p, g.partition logical = .ok p ∧ p.type = .logical
  together : ∃ table, g.parent? extended = some table ∧ g.parent? logical = some table

/-- The primary and extended partitions of a table. -/
def nonLogical (g : Devicegraph) (table : Sid) : Set Sid :=
  {x | ∃ p, g.parent? x = some table ∧ g.partition x = .ok p ∧ p.type ≠ .logical}

namespace Valid

variable {sid other table : Sid} {p q : Partition} {t : PartitionTable}

/-! ### The partitions of a table -/

/-- A partition was checked against the other partitions of its table. -/
theorem siblings_of_placed (h : g.Valid) (hs : g.parent? sid = some table)
    (hp : g.partition sid = .ok p) (ht : g.partitionTable table = .ok t) :
    ∃ all siblings, g.children table = .ok all ∧
      (all.filter fun x => some x != some sid).mapM g.partition = .ok siblings ∧
      checkSiblings t.ptType p siblings = .ok () := by
  obtain ⟨d, hd, ha⟩ := partition_eq_ok.1 hp
  have placed := h.placed hd ha hs
  simp only [checkPartitionPlacement, refuse_bind_eq_ok, bind_eq_ok, ht, Except.ok.injEq,
    exists_eq_left'] at placed
  obtain ⟨_, _, _, _, _, _, _, _, _, _, all, hall, siblings, hsiblings, fit⟩ := placed
  exact ⟨all, siblings, hall, hsiblings, fit⟩

/-- The siblings of a partition are the other devices on its table. -/
theorem mem_siblings (h : g.Valid) {all : List Sid} {siblings : List Partition}
    (hall : g.children table = .ok all)
    (hsiblings : (all.filter fun x => some x != some sid).mapM g.partition = .ok siblings) :
    q ∈ siblings ↔ ∃ other, other ≠ sid ∧ g.parent? other = some table ∧
      g.partition other = .ok q := by
  simp only [mem_mapM hsiblings, List.mem_filter, h.mem_children hall, bne_iff_ne, ne_eq,
    Option.some.injEq]
  refine exists_congr fun other => ?_
  rw [and_right_comm, and_comm]

/-- Two logical partitions of a table share no sector, and neither do two others. -/
theorem apart (h : g.Valid) (ht : g.partitionTable table = .ok t)
    (hs : g.parent? sid = some table) (hp : g.partition sid = .ok p)
    (ho : g.parent? other = some table) (hq : g.partition other = .ok q) (ne : other ≠ sid)
    (same : p.type = .logical ↔ q.type = .logical) : p.region.overlaps q.region = .ok false := by
  obtain ⟨all, siblings, hall, hsiblings, fit⟩ := h.siblings_of_placed hs hp ht
  exact apart_of_checkSiblings fit ((h.mem_siblings hall hsiblings).2 ⟨other, ne, ho, hq⟩) same

/-- A table has at most one extended partition. -/
theorem extended_unique (h : g.Valid) (ht : g.partitionTable table = .ok t)
    (hs : g.parent? sid = some table) (hp : g.partition sid = .ok p) (hpe : p.type = .extended)
    (ho : g.parent? other = some table) (hq : g.partition other = .ok q)
    (hqe : q.type = .extended) : other = sid := by
  by_contra ne
  obtain ⟨all, siblings, hall, hsiblings, fit⟩ := h.siblings_of_placed hs hp ht
  obtain ⟨_, only, _⟩ := of_checkSiblings fit (by simp [hpe])
  exact only hpe q ((h.mem_siblings hall hsiblings).2 ⟨other, ne, ho, hq⟩) hqe

/-- What a table has as its extended partition. -/
theorem extendedPartition_eq_ok (h : g.Valid) (ht : g.partitionTable table = .ok t) :
    g.extendedPartition table = .ok (some sid) ↔
      ∃ p, g.parent? sid = some table ∧ g.partition sid = .ok p ∧ p.type = .extended := by
  refine ⟨h.of_extendedPartition, fun ⟨p, hs, hp, hpe⟩ => ?_⟩
  obtain ⟨l, hl⟩ := h.partitionsWith_total ht
  have listed : (sid, p) ∈ l := (h.mem_partitionsWith hl).2 ⟨hs, hp⟩
  obtain ⟨⟨other, q⟩, hfind⟩ := Option.isSome_iff_exists.1 <|
    (List.find?_isSome (p := fun x : Sid × Partition => x.2.type == .extended)).2
      ⟨(sid, p), listed, by simp [hpe]⟩
  obtain ⟨ho, hq⟩ := (h.mem_partitionsWith hl).1 (List.mem_of_find?_eq_some hfind)
  have hqe : q.type = .extended := by simpa using List.find?_some hfind
  obtain rfl := h.extended_unique ht hs hp hpe ho hq hqe
  simp only [extendedPartition, hl, bind, Except.bind, pure, Except.pure, hfind, Option.map_some]

/-- The logical partitions of an extended one, as they are looked up. -/
theorem logicalPartitionsOf_spec (h : g.Valid) (he : g.IsExtended sid) :
    ∃ l, g.logicalPartitionsOf sid = .ok l ∧ ∀ x, x ∈ l ↔ g.LogicalIn x sid := by
  obtain ⟨e, hp, hk⟩ := id he
  obtain ⟨d, hd, ha⟩ := partition_eq_ok.1 hp
  obtain ⟨table, t, ht, _⟩ := h.exists_table hd (isPartition_of_attributes ha)
  obtain ⟨l, hl⟩ := h.logicalPartitionsOf_total hp
  refine ⟨l, hl, fun x => (h.mem_logicalPartitionsOf hp hk ht hl).trans ?_⟩
  constructor
  · rintro ⟨p, hx, hxp, hpk⟩
    exact ⟨he, ⟨p, hxp, hpk⟩, table, ht, hx⟩
  · rintro ⟨_, ⟨p, hxp, hpk⟩, table', ht', hx⟩
    obtain rfl := Option.some.inj (ht.symm.trans ht')
    exact ⟨p, hx, hxp, hpk⟩

/-- A table has room for its primary and extended partitions. -/
theorem encard_nonLogical_le (h : g.Valid) (ht : g.partitionTable table = .ok t) :
    (g.nonLogical table).encard ≤ t.ptType.maxPrimary := by
  rcases (g.nonLogical table).eq_empty_or_nonempty with none | ⟨sid, p, hs, hp, hk⟩
  · simp [none]
  · obtain ⟨all, siblings, hall, hsiblings, fit⟩ := h.siblings_of_placed hs hp ht
    obtain ⟨room, _⟩ := of_checkSiblings fit hk
    let others := (all.filter fun x => some x != some sid).filter fun x =>
      match g.partition x with
      | .ok q => q.type != .logical
      | .error _ => false
    have count : others.length + 1 ≤ t.ptType.maxPrimary := by
      rw [← List.countP_eq_length_filter] at room
      rw [← List.countP_eq_length_filter, ← countP_mapM (fun x q hq => ?_) hsiblings]
      · exact room
      · simp [hq]
    have covered : g.nonLogical table ⊆ ↑(sid :: others).toFinset := by
      rintro x ⟨q, hx, hq, hqk⟩
      by_cases same : x = sid
      · simp [same]
      · have member : x ∈ others := by
          simp [others, h.mem_children hall, hx, same, hq, hqk]
        simp [member]
    calc (g.nonLogical table).encard
        ≤ (↑(sid :: others).toFinset : Set Sid).encard := Set.encard_le_encard covered
      _ = ((sid :: others).toFinset.card : ENat) := Set.encard_coe_eq_coe_finsetCard _
      _ ≤ ((others.length + 1 : ℕ) : ENat) := by
        exact_mod_cast List.toFinset_card_le (sid :: others)
      _ ≤ t.ptType.maxPrimary := by exact_mod_cast count

end Valid

end Devicegraph

end StoragePlan
