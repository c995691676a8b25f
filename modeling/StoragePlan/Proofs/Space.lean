import StoragePlan.Proofs.Partitioning
import StoragePlan.Proofs.Standing

/-!
# Partitions never share space

At each moment of a plan, the partitions of a table fit in those of one valid devicegraph (`Within`):
in those of `lhs` as long as no space was used on the table, and in those of `rhs` once all space
that is to be freed was freed. The rules put everything that frees space on a table before
everything that uses any, so one of the two is always the case. What is known of a valid table
(`Devicegraph.Valid.apart`, `Devicegraph.Valid.encard_nonLogical_le`) then holds at the moment.
-/

namespace StoragePlan

namespace Machine

/-- The partition is on the table. -/
def Holds (machine : Machine) (table sid : Sid) (p : Partition) : Prop :=
  machine sid = some ⟨some table, .partition p⟩

/-- Two logical partitions of the table share no sector, neither do two others, and there are no
more of the others than the table can hold. -/
structure Spaced (machine : Machine) (table : Sid) (t : PartitionTable) : Prop where
  apart : ∀ {x y p q}, machine.Holds table x p → machine.Holds table y q → y ≠ x →
    (p.type = .logical ↔ q.type = .logical) → p.region.overlaps q.region = .ok false
  bounded : {x | ∃ p, machine.Holds table x p ∧ p.type ≠ .logical}.encard ≤ t.ptType.maxPrimary

/-- The partitions on the table are those of a devicegraph, or what is left of them. -/
structure Within (g : Devicegraph) (machine : Machine) (table : Sid) (t : PartitionTable) :
    Prop where
  isTable : ∃ t', g.partitionTable table = .ok t' ∧ t'.ptType = t.ptType
  inside : ∀ {x p}, machine.Holds table x p → ∃ q, g.parent? x = some table ∧
    g.partition x = .ok q ∧ q.type = p.type ∧ p.region.FitsIn q.region

theorem Within.spaced {g : Devicegraph} {machine : Machine} {table : Sid} {t : PartitionTable}
    (h : Within g machine table t) (valid : g.Valid) : machine.Spaced table t := by
  obtain ⟨t', ht, type_eq⟩ := h.isTable
  refine ⟨fun hx hy ne same => ?_, ?_⟩
  · obtain ⟨p', px, hp, ptype, pfits⟩ := h.inside hx
    obtain ⟨q', py, hq, qtype, qfits⟩ := h.inside hy
    rw [← ptype, ← qtype] at same
    exact Region.overlaps_of_fitsIn (valid.apart ht px hp py hq ne same) pfits qfits
  · have covered : {x | ∃ p, machine.Holds table x p ∧ p.type ≠ .logical} ⊆
        g.nonLogical table := by
      rintro x ⟨p, hx, hk⟩
      obtain ⟨q, px, hq, type_eq, _⟩ := h.inside hx
      exact ⟨q, px, hq, type_eq ▸ hk⟩
    rw [← type_eq]
    exact (Set.encard_le_encard covered).trans (valid.encard_nonLogical_le ht)

end Machine

namespace Plan

open Machine Setting

/-- How a partition stands that is on a table at a moment. -/
inductive Held (s : Setting) (replaced : List Sid) (done : List Nat) (table sid : Sid)
    (p : Partition) : Prop
  /-- It goes and is still there. -/
  | old {q : Partition} {c : Chain} (parent : s.lhs.parent? sid = some table)
      (found : s.lhs.partition sid = .ok q) (type : q.type = p.type) (region : p.region = q.region)
      (hc : s.deletes? sid = some c) (pending : c.last ∉ done)
  /-- It has come. -/
  | new {q : Partition} {c : Chain} (parent : s.rhs.parent? sid = some table)
      (found : s.rhs.partition sid = .ok q) (type : q.type = p.type) (region : p.region = q.region)
      (hc : s.creates? sid = some c) (created : c.first ∈ done)
  /-- It stays, and is no larger than before until it grows, and than after once it has shrunk. -/
  | kept {o n : Partition} (before : s.lhs.parent? sid = some table)
      (after : s.rhs.parent? sid = some table) (found : s.lhs.partition sid = .ok o)
      (found' : s.rhs.partition sid = .ok n) (type : o.type = p.type) (type' : n.type = p.type)
      (ungrown : (∀ i, s.Resizing i sid .grow → i ∉ done) → p.region.FitsIn o.region)
      (shrunk : (∀ i, s.Resizing i sid .shrink → i ∈ done) → p.region.FitsIn n.region)

namespace Run

variable {s : Setting} {replaced : List Sid} {done : List Nat} {table sid : Sid} {p : Partition}
  {t : PartitionTable}

/-- The region of a partition that stays, before and after it is resized. -/
theorem fitsIn_of_stays (h : Run s replaced done) {old new : Device} {o n : Partition}
    (stays : Stays s.lhs s.rhs replaced sid old new) (ho : old.attributes = .partition o)
    (hn : new.attributes = .partition n) {r : Region}
    (region : (∃ i mode, s.Resizing i sid mode ∧ i ∈ done ∧ r = n.region) ∨
      (∀ i mode, s.Resizing i sid mode → i ∉ done) ∧ r = o.region) :
    ((∀ i, s.Resizing i sid .grow → i ∉ done) → r.FitsIn o.region) ∧
      ((∀ i, s.Resizing i sid .shrink → i ∈ done) → r.FitsIn n.region) := by
  have inPlace := h.sound.settled.inPlace stays
  rw [ho, hn] at inPlace
  obtain ⟨_, _, start, sectorSize⟩ := inPlace
  have resizing : ∀ mode, (∃ i, s.Resizing i sid mode) ↔
      ResizeMode.between? o.region.length n.region.length = some mode := fun _ =>
    h.sound.exists_resizing_iff stays ho hn
  rcases region with ⟨i, mode, hi, hd, rfl⟩ | ⟨unresized, rfl⟩
  · refine ⟨fun ungrown => ?_, fun _ => .refl _⟩
    have between := (resizing mode).1 ⟨i, hi⟩
    cases mode with
    | grow => exact absurd hd (ungrown i hi)
    | shrink =>
      exact ⟨start.symm, sectorSize.symm, Nat.le_of_lt (between?_eq_shrink.1 between)⟩
  · refine ⟨fun _ => .refl _, fun shrunk => ⟨start, sectorSize, Nat.le_of_not_lt fun lt => ?_⟩⟩
    obtain ⟨i, hi⟩ := (resizing .shrink).2 (between?_eq_shrink.2 lt)
    exact unresized i _ hi (shrunk i hi)

theorem held (h : Run s replaced done) (hp : (s.machine done).Holds table sid p) :
    Held s replaced done table sid p := by
  have st := h.standing sid
  unfold Holds at hp
  rw [hp] at st
  generalize hparent : some table = parent at st
  cases st with
  | @old d _ goes pending like region =>
    obtain ⟨q, hq, type⟩ := like.isPartition
    obtain ⟨c, hc, _⟩ := h.sound.exists_deletes? goes
    rw [hq] at region
    exact .old hparent.symm (Devicegraph.partition_eq_ok.2 ⟨d, goes.before, hq⟩) type
      (Option.some.inj region) hc (pending c hc)
  | @new d _ comes created like region =>
    obtain ⟨q, hq, type⟩ := like.isPartition
    obtain ⟨c, hc, _⟩ := h.sound.exists_creates? comes
    rw [hq] at region
    exact .new hparent.symm (Devicegraph.partition_eq_ok.2 ⟨d, comes.after, hq⟩) type
      (Option.some.inj region) hc (created c hc)
  | @kept old new _ stays like region =>
    obtain ⟨o, ho, type⟩ := like.isPartition
    obtain ⟨n, hn, type'⟩ := (ho ▸ h.sound.settled.inPlace stays).isPartition
    simp only [ho, hn, Attributes.region?, Option.some.injEq] at region
    obtain ⟨ungrown, shrunk⟩ := h.fitsIn_of_stays stays ho hn region
    exact .kept hparent.symm ((h.sound.settled.parent stays).symm.trans hparent.symm)
      (Devicegraph.partition_eq_ok.2 ⟨old, stays.before, ho⟩)
      (Devicegraph.partition_eq_ok.2 ⟨new, stays.after, hn⟩) type (type'.trans type) ungrown shrunk

/-- As long as nothing used space on the table, its partitions are those of `lhs`. -/
theorem within_lhs (h : Run s replaced done)
    (isTable : ∃ t', s.lhs.partitionTable table = .ok t' ∧ t'.ptType = t.ptType)
    (unused : ∀ y j, s.rhs.parent? y = some table → j ∈ s.uses y → j ∉ done) :
    Within s.lhs (s.machine done) table t := by
  refine ⟨isTable, fun {x p} hx => ?_⟩
  cases h.held hx with
  | old parent found type region => exact ⟨_, parent, found, type, region ▸ .refl _⟩
  | new parent _ _ _ hc created =>
    exact absurd created (unused x _ parent (h.sound.mem_uses.2 (.inl ⟨_, hc, rfl⟩)))
  | kept before after found _ type _ ungrown =>
    refine ⟨_, before, found, type, ungrown fun i hi => ?_⟩
    exact unused x i after (h.sound.mem_uses.2 (.inr hi))

/-- Once all space was freed on the table, its partitions are those of `rhs`. -/
theorem within_rhs (h : Run s replaced done)
    (isTable : ∃ t', s.rhs.partitionTable table = .ok t' ∧ t'.ptType = t.ptType)
    (freed : ∀ x i, s.lhs.parent? x = some table → i ∈ s.frees x → i ∈ done) :
    Within s.rhs (s.machine done) table t := by
  refine ⟨isTable, fun {x p} hx => ?_⟩
  cases h.held hx with
  | old parent _ _ _ hc pending =>
    exact absurd (freed x _ parent (h.sound.mem_frees.2 (.inl ⟨_, hc, rfl⟩))) pending
  | new parent found type region => exact ⟨_, parent, found, type, region ▸ .refl _⟩
  | kept before after _ found' _ type' _ shrunk =>
    refine ⟨_, after, found', type', shrunk fun i hi => ?_⟩
    exact freed x i before (h.sound.mem_frees.2 (.inr hi))

/-- No table is ever crowded. -/
theorem spaced (h : Run s replaced done) {parent : Option Sid}
    (ht : s.machine done table = some ⟨parent, .partitionTable t⟩) :
    (s.machine done).Spaced table t := by
  have st := h.standing table
  rw [ht] at st
  cases st with
  | @old d _ goes pending like =>
    -- Nothing uses space on a table that is still to be deleted.
    obtain ⟨c, hc, _⟩ := h.sound.exists_deletes? goes
    have isTable := Devicegraph.partitionTable_eq_ok.2 ⟨d, goes.before, like.isTable⟩
    refine (h.within_lhs ⟨t, isTable, rfl⟩ fun y j py hj hd => ?_).spaced h.sound.lhs
    rcases h.sound.mem_uses.1 hj with ⟨c', hc', rfl⟩ | resizing
    · exact pending c hc (h.deleted_of_created_on goes hc py hc' hd)
    · obtain ⟨_, _, _, _, stays, _⟩ := resizing.stays h.sound
      have px := (h.sound.settled.parent stays).trans py
      exact stays.not_goes (h.sound.settled.goes_of_parent stays.before px goes)
  | @new d _ comes created like =>
    -- All space was freed on a table that was just created.
    obtain ⟨c, hc, _⟩ := h.sound.exists_creates? comes
    have isTable := Devicegraph.partitionTable_eq_ok.2 ⟨d, comes.after, like.isTable⟩
    refine (h.within_rhs ⟨t, isTable, rfl⟩ fun x i px hi => ?_).spaced h.sound.rhs
    rcases h.sound.mem_frees.1 hi with ⟨c', hc', rfl⟩ | resizing
    · exact h.deleted_on_of_created comes hc (created c hc) px hc'
    · obtain ⟨_, _, _, _, stays, _⟩ := resizing.stays h.sound
      have py := (h.sound.settled.parent stays).symm.trans px
      exact absurd (h.sound.settled.comes_of_parent stays.after py comes) stays.not_comes
  | @kept o n _ stays like =>
    have isTable := like.isTable
    obtain ⟨t', ht', type_eq⟩ := (isTable ▸ h.sound.settled.inPlace stays).isTable
    by_cases used : ∃ y j, s.rhs.parent? y = some table ∧ j ∈ s.uses y ∧ j ∈ done
    · obtain ⟨y, j, py, hj, hd⟩ := used
      have isTable' := Devicegraph.partitionTable_eq_ok.2 ⟨n, stays.after, ht'⟩
      refine (h.within_rhs ⟨t', isTable', type_eq⟩ fun x i px hi => ?_).spaced h.sound.rhs
      exact h.follows.mem_of_mem (.space px py hi hj) hd
    · have isTable' := Devicegraph.partitionTable_eq_ok.2 ⟨o, stays.before, isTable⟩
      refine (h.within_lhs ⟨t, isTable', rfl⟩ fun y j py hj hd => ?_).spaced h.sound.lhs
      exact used ⟨y, j, py, hj, hd⟩

end Run

/-- At each moment of a plan between checked devicegraphs, on each partition table that is there,
two logical partitions share no sector, neither do two primary or extended ones, and there are no
more of the latter than the table can hold. -/
theorem space_between {lhs rhs : Devicegraph} (hl : lhs.check = .ok ()) (hr : rhs.check = .ok ()) :
    ∃ p, between lhs rhs = .ok p ∧ ∀ earlier later, p.actions = earlier ++ later →
      ∀ table parent t, (Machine.of lhs).replay rhs earlier table =
        some ⟨parent, .partitionTable t⟩ →
          ((Machine.of lhs).replay rhs earlier).Spaced table t := by
  obtain ⟨p, s, replaced, hp, rfl, rfl, realizes⟩ := between_spec hl hr
  refine ⟨p, hp, fun earlier later cut table parent t ht => ?_⟩
  obtain ⟨done, rest, _, run, machine_eq⟩ := realizes.prefix_spec cut
  rw [machine_eq] at ht ⊢
  exact run.spaced ht

/-- A partition that moves onto sectors that it had before. -/
theorem space_move : ∃ p,
    between (onePartition ⟨2048, 4096, 512⟩) (onePartition ⟨4096, 4096, 512⟩) = .ok p ∧
      ∀ earlier later, p.actions = earlier ++ later → ∀ table parent t,
        (Machine.of (onePartition ⟨2048, 4096, 512⟩)).replay (onePartition ⟨4096, 4096, 512⟩)
          earlier table = some ⟨parent, .partitionTable t⟩ →
        ((Machine.of (onePartition ⟨2048, 4096, 512⟩)).replay (onePartition ⟨4096, 4096, 512⟩)
          earlier).Spaced table t :=
  space_between (by cbv) (by cbv)

end Plan

end StoragePlan
