import StoragePlan.Proofs.Hierarchy
import StoragePlan.Proofs.Layout
import StoragePlan.Proofs.Space

/-!
# Logical partitions and their extended partition

A logical partition lies inside the extended partition of its table, but sits on the table beside
it. That it does so at each moment of a plan too (`Machine.Encloses`) is up to the rules for
extended partitions: logical ones go and shrink before the extended one does, and come and grow
after it.

The rules order actions, they do not ask for any. A logical partition that stays keeps no order with
an extended one that goes, so it matters that it does not stay. When the extended partition is
replaced, its logical partitions are replaced with it (`stays_extended`). When it is gone for good
and another one takes its place, they are not: such a logical partition is `Stranded`, and there is
a moment when it lies in no extended partition. `encloses_between` says that nothing else can
happen.
-/

namespace StoragePlan

namespace Machine

/-- A logical partition at the sid lies inside an extended one of its table. -/
def Encloses (machine : Machine) (sid : Sid) : Prop :=
  ∀ table p, machine.Holds table sid p → p.type = .logical → ∃ e q, machine.Holds table e q ∧
    q.type = .extended ∧ q.region.contains p.region = .ok true

end Machine

theorem Attributes.Like.of_partition {a : Attributes} {p : Partition}
    (h : Attributes.Like (.partition p) a) : ∃ q, a = .partition q ∧ q.type = p.type := by
  cases a with
  | partition q => exact ⟨q, rfl, h.1.symm⟩
  | disk => cases h
  | partitionTable => cases h
  | filesystem => cases h

namespace Devicegraph.Valid

variable {g : Devicegraph} {x table : Sid} {p : Partition}

/-- A logical partition lies inside the extended one of its table. -/
theorem enclosing (h : g.Valid) (hx : g.parent? x = some table) (hp : g.partition x = .ok p)
    (hk : p.type = .logical) : ∃ e q, g.LogicalIn x e ∧ g.parent? e = some table ∧
      g.partition e = .ok q ∧ q.type = .extended ∧ q.region.contains p.region = .ok true := by
  obtain ⟨d, hd, ha⟩ := partition_eq_ok.1 hp
  obtain ⟨table', t, hx', ht⟩ := h.exists_table hd (isPartition_of_attributes ha)
  obtain rfl := Option.some.inj (hx.symm.trans hx')
  obtain ⟨disk, dd, hdisk, hdd⟩ := h.exists_disk ht
  have arranged := h.arranged ht hdisk hdd
  obtain ⟨e, q, he, isExtended, inside⟩ := arranged.inside (partAt_eq_some.2 ⟨hx, hp⟩) hk
  obtain ⟨pe, hq⟩ := partAt_eq_some.1 he
  exact ⟨e, q, ⟨⟨q, hq, isExtended⟩, ⟨p, hp, hk⟩, table, pe, hx⟩, pe, hq, isExtended, inside⟩

/-- A partition ends in the range. -/
theorem ends (h : g.Valid) (hp : g.partition x = .ok p) :
    p.region.start + p.region.length ≤ maxWord := by
  obtain ⟨d, hd, ha⟩ := partition_eq_ok.1 hp
  obtain ⟨table, t, hx, ht⟩ := h.exists_table hd (isPartition_of_attributes ha)
  obtain ⟨disk, dd, hdisk, hdd⟩ := h.exists_disk ht
  exact ((h.arranged ht hdisk hdd).suits (partAt_eq_some.2 ⟨hx, hp⟩)).ends

/-- The extended partition that a logical one lies in is the only one of the table. -/
theorem eq_of_logicalIn (h : g.Valid) {e e' : Sid} {q : Partition} (hx : g.LogicalIn x e)
    (hp : g.parent? x = some table) (he' : g.parent? e' = some table) (hq : g.partition e' = .ok q)
    (isExtended : q.type = .extended) : e' = e := by
  obtain ⟨⟨p, hp', hpe⟩, ⟨l, hl, _⟩, table', pe, px⟩ := hx
  obtain rfl := Option.some.inj (hp.symm.trans px)
  obtain ⟨d, hd, ha⟩ := partition_eq_ok.1 hl
  obtain ⟨table', t, hx', ht⟩ := h.exists_table hd (isPartition_of_attributes ha)
  obtain rfl := Option.some.inj (px.symm.trans hx')
  exact h.extended_unique ht pe hp' hpe he' hq isExtended

end Devicegraph.Valid

namespace Plan

open Machine Setting Attempt

/-! ### Logical partitions that stay -/

/-- With a device go the logical partitions that lie in it. -/
theorem mem_dependentLogicals {lhs : Devicegraph} (hl : lhs.Valid) {sid x : Sid} {l : List Sid}
    (h : dependentLogicals lhs sid = .ok l) : x ∈ l ↔ lhs.LogicalIn x sid := by
  simp only [dependentLogicals, bind_eq_ok] at h
  obtain ⟨d, hd, h⟩ := h
  rw [Devicegraph.find_eq_ok] at hd
  have nothing : ¬lhs.IsExtended sid → (x ∈ ([] : List Sid) ↔ lhs.LogicalIn x sid) := fun none =>
    iff_of_false List.not_mem_nil fun hx => none hx.isExtended
  by_cases isExtended : lhs.IsExtended sid
  · obtain ⟨p, hp, hk⟩ := id isExtended
    obtain ⟨d', hd', ha⟩ := Devicegraph.partition_eq_ok.1 hp
    obtain rfl := Option.some.inj (hd.symm.trans hd')
    rw [if_pos (Devicegraph.isPartition_of_attributes ha)] at h
    obtain ⟨l', hl', mem⟩ := hl.logicalPartitionsOf_spec isExtended
    obtain rfl := Except.ok.inj (h.symm.trans hl')
    exact mem x
  · split at h
    · next isPartition =>
      obtain ⟨p, ha⟩ := Devicegraph.attributes_of_isPartition isPartition
      have hp := Devicegraph.partition_eq_ok.2 ⟨d, hd, ha⟩
      simp only [Devicegraph.logicalPartitionsOf, hp, bind, Except.bind] at h
      rw [if_pos fun hk => isExtended ⟨p, hp, hk⟩] at h
      obtain rfl := Except.ok.inj h
      exact nothing isExtended
    · obtain rfl := pure_eq_ok.1 h
      exact nothing isExtended

/-- A device that was found on another one takes its parent along. -/
theorem mem_dependents_parent {lhs rhs : Devicegraph} (hl : lhs.Valid) (hr : rhs.Valid)
    {sid child parent : Sid} {l : List Sid} (h : dependents lhs rhs sid = .ok l)
    (hlp : lhs.parent? child = some parent) (hrp : rhs.parent? child = some parent)
    (hc : child ∈ l) : parent = sid ∨ parent ∈ l := by
  simp only [dependents, bind_eq_ok, pure_eq_ok] at h
  obtain ⟨up, hup, down, hdown, rfl⟩ := h
  rcases List.mem_append.1 hc with hc | hc
  · obtain ⟨above, ha, hm⟩ := hr.parent_of_mem_descendants hup hc
    obtain rfl := Option.some.inj (hrp.symm.trans ha)
    exact hm.imp_right (List.mem_append_left _)
  · obtain ⟨above, ha, hm⟩ := hl.parent_of_mem_descendants hdown hc
    obtain rfl := Option.some.inj (hlp.symm.trans ha)
    exact hm.imp_right (List.mem_append_right _)

/-- A logical partition that stays takes care that its extended one is not replaced. -/
theorem stays_extended {lhs rhs : Devicegraph} (hl : lhs.Valid) (hr : rhs.Valid)
    {replaced : List Sid} (h : Plan.replaced lhs rhs = .ok replaced) {x e : Sid} {o n new : Device}
    (stays : Stays lhs rhs replaced x o n) (hx : lhs.LogicalIn x e)
    (he : rhs.find? e = some new) : ∃ old, Stays lhs rhs replaced e old new := by
  obtain ⟨⟨pe, hpe, isExtended⟩, _, table, te, tx⟩ := id hx
  obtain ⟨old, ho, hoe⟩ := Devicegraph.partition_eq_ok.1 hpe
  refine ⟨old, ho, he, fun mem => ?_⟩
  obtain ⟨oldTable, newTable, below⟩ := (settled_of_replaced hl hr h).stays_parent stays tx
  obtain ⟨found, logicals, outer, hf, hlog, houter, rfl⟩ := replaced_eq_ok.1 h
  have common : ∀ {sid o n}, lhs.find? sid = some o → rhs.find? sid = some n →
      (lhs.contains sid && rhs.contains sid) = true := fun ho hn => by
    rw [Devicegraph.contains_iff.2 ⟨_, ho⟩, Devicegraph.contains_iff.2 ⟨_, hn⟩]
    rfl
  -- If there was an obstacle, the logical partition would be replaced too.
  have direct : e ∉ found.map fun d => d.1.sid := by
    intro direct
    obtain ⟨l, hdep⟩ := dependentLogicals_total hl ho
    refine stays.kept (SidList.mem_union.2 (.inl (SidList.mem_union.2 (.inr ?_))))
    refine List.mem_filter.2 ⟨List.mem_flatten.2 ⟨l, ?_, ?_⟩, common stays.before stays.after⟩
    · exact (mem_mapM hlog).2 ⟨e, direct, hdep⟩
    · exact (mem_dependentLogicals hl hdep).2 hx
  have unmoved : rhs.parent? e = some table := by
    obtain ⟨obstacle, hob⟩ := obstacle?_total hl hr ho he
    cases obstacle with
    | none => exact (of_obstacle?_none hl hr ho he hob).1 ▸ te
    | some ob =>
      obtain rfl := Devicegraph.sid_of_find? he
      exact absurd (List.mem_map.2 ⟨(new, ob), (mem_hindered hf).2 ⟨he, old, ho, hob⟩, rfl⟩) direct
  rcases SidList.mem_union.1 mem with inner | mem
  · rcases SidList.mem_union.1 inner with mem | mem
    · exact direct mem
    · -- What is replaced as a logical partition is not extended.
      obtain ⟨l, hlmem, hel⟩ := List.mem_flatten.1 (List.mem_filter.1 mem).1
      obtain ⟨top, _, hdep⟩ := (mem_mapM hlog).1 hlmem
      obtain ⟨_, ⟨p, hp, hk⟩, _⟩ := (mem_dependentLogicals hl hdep).1 hel
      obtain rfl := Except.ok.inj (hpe.symm.trans hp)
      simp [isExtended] at hk
  · -- With anything else that is replaced below it, the table would be replaced.
    obtain ⟨l, hlmem, hel⟩ := List.mem_flatten.1 (List.mem_filter.1 mem).1
    obtain ⟨top, htop, hdep⟩ := (mem_mapM houter).1 hlmem
    refine below.kept (SidList.mem_union.2 ?_)
    rcases mem_dependents_parent hl hr hdep te unmoved hel with rfl | above
    · exact .inl htop
    · refine .inr (List.mem_filter.2 ⟨List.mem_flatten.2 ⟨l, hlmem, above⟩, ?_⟩)
      exact common below.before below.after

/-- A logical partition that stays although its extended one goes for good. -/
def Stranded (lhs rhs : Devicegraph) (sid : Sid) : Prop :=
  ∃ replaced o n extended, Plan.replaced lhs rhs = .ok replaced ∧ Stays lhs rhs replaced sid o n ∧
    lhs.LogicalIn sid extended ∧ rhs.find? extended = none

/-! ### Partitions at a moment -/

namespace Run

variable {s : Setting} {replaced : List Sid} {done : List Nat} {table sid x e : Sid}
  {p : Partition} {i : Nat}

/-- A partition that is still to be deleted is as before. -/
theorem holds_of_pending (h : Run s replaced done) {d : Device}
    (goes : Goes s.lhs s.rhs replaced sid d) (hd : d.attributes = .partition p) {c : Chain}
    (hc : s.deletes? sid = some c) (pending : c.last ∉ done)
    (hp : s.lhs.parent? sid = some table) :
    ∃ q, (s.machine done).Holds table sid q ∧ q.type = p.type ∧ q.region = p.region := by
  have st := h.standing sid
  generalize hm : s.machine done sid = there at st
  cases st with
  | old goes' _ like region =>
    obtain rfl := Option.some.inj (goes.before.symm.trans goes'.before)
    rw [hd] at like region
    obtain ⟨q, rfl, type⟩ := like.of_partition
    exact ⟨q, by rw [Holds, hm, hp], type, Option.some.inj region⟩
  | gone _ deleted => exact absurd (deleted c hc) pending
  | new comes created =>
    obtain ⟨c', hc', _⟩ := h.sound.exists_creates? comes
    exact absurd (h.follows.mem_of_mem (.again hc hc') (created c' hc')) pending
  | kept stays => exact absurd goes stays.not_goes

/-- A partition that was created is as after. -/
theorem holds_of_created (h : Run s replaced done) {d : Device}
    (comes : Comes s.lhs s.rhs replaced sid d) (hd : d.attributes = .partition p) {c : Chain}
    (hc : s.creates? sid = some c) (created : c.first ∈ done)
    (hp : s.rhs.parent? sid = some table) :
    ∃ q, (s.machine done).Holds table sid q ∧ q.type = p.type ∧ q.region = p.region := by
  have st := h.standing sid
  generalize hm : s.machine done sid = there at st
  cases st with
  | old goes pending =>
    obtain ⟨c', hc', _⟩ := h.sound.exists_deletes? goes
    exact absurd (h.follows.mem_of_mem (.again hc' hc) created) (pending c' hc')
  | gone _ _ pending => exact absurd created (pending c hc)
  | new comes' _ like region =>
    obtain rfl := Option.some.inj (comes.after.symm.trans comes'.after)
    rw [hd] at like region
    obtain ⟨q, rfl, type⟩ := like.of_partition
    exact ⟨q, by rw [Holds, hm, hp], type, Option.some.inj region⟩
  | kept stays => exact absurd comes stays.not_comes

/-- A partition that stays is no smaller than before until it shrinks, and than after once it has
grown. -/
theorem holds_of_stays (h : Run s replaced done) {old new : Device} {o n : Partition}
    (stays : Stays s.lhs s.rhs replaced sid old new) (ho : old.attributes = .partition o)
    (hn : new.attributes = .partition n) (hp : s.lhs.parent? sid = some table) :
    ∃ q, (s.machine done).Holds table sid q ∧ q.type = o.type ∧
      (q.region = o.region ∨ q.region = n.region) ∧
      ((∀ i, s.Resizing i sid .shrink → i ∉ done) → o.region.FitsIn q.region) ∧
      ((∀ i, s.Resizing i sid .grow → i ∈ done) → n.region.FitsIn q.region) := by
  have inPlace := h.sound.settled.inPlace stays
  rw [ho, hn] at inPlace
  obtain ⟨_, _, start, sectorSize⟩ := inPlace
  have resizing : ∀ mode, (∃ i, s.Resizing i sid mode) ↔
      ResizeMode.between? o.region.length n.region.length = some mode := fun _ =>
    h.sound.exists_resizing_iff stays ho hn
  have st := h.standing sid
  generalize hm : s.machine done sid = there at st
  cases st with
  | old goes => exact absurd goes stays.not_goes
  | gone leaves => exact absurd stays (leaves old new)
  | new comes => exact absurd comes stays.not_comes
  | kept stays' like region =>
    obtain rfl := Option.some.inj (stays.before.symm.trans stays'.before)
    obtain rfl := Option.some.inj (stays.after.symm.trans stays'.after)
    rw [ho] at like
    obtain ⟨q, rfl, type⟩ := like.of_partition
    simp only [ho, hn, Attributes.region?, Option.some.injEq] at region
    refine ⟨q, by rw [Holds, hm, hp], type, ?_⟩
    rcases region with ⟨i, mode, hi, hd, same⟩ | ⟨unresized, same⟩
    · refine ⟨.inr same, fun unshrunk => ?_, fun _ => same ▸ .refl _⟩
      have between := (resizing mode).1 ⟨i, hi⟩
      cases mode with
      | grow =>
        exact same ▸ ⟨start, sectorSize, Nat.le_of_lt (between?_eq_grow.1 between)⟩
      | shrink => exact absurd hd (unshrunk i hi)
    · refine ⟨.inl same, fun _ => same ▸ .refl _, fun grown => ?_⟩
      refine same ▸ ⟨start.symm, sectorSize.symm, Nat.le_of_not_lt fun lt => ?_⟩
      obtain ⟨i, hi⟩ := (resizing .grow).2 (between?_eq_grow.2 lt)
      exact unresized i _ hi (grown i hi)

/-! ### Inside the extended partition -/

/-- A logical partition that is still to be deleted lies in the extended one of `lhs`. -/
theorem enclosed_of_pending (h : Run s replaced done) {c : Chain} {q : Partition}
    (hc : s.deletes? x = some c) (pending : c.last ∉ done) (hx : s.lhs.parent? x = some table)
    (hq : s.lhs.partition x = .ok q) (hk : q.type = .logical) (region : p.region = q.region) :
    ∃ e r, (s.machine done).Holds table e r ∧ r.type = .extended ∧
      r.region.contains p.region = .ok true := by
  obtain ⟨e, qe, inE, pe, hqe, isExtended, inside⟩ := h.sound.lhs.enclosing hx hq hk
  obtain ⟨d, hd, ha⟩ := Devicegraph.partition_eq_ok.1 hqe
  have frees := h.sound.mem_frees.2 (.inl ⟨c, hc, rfl⟩)
  rw [region]
  rcases Settled.stays_or_goes s.rhs replaced hd with ⟨n, stays⟩ | goes
  · obtain ⟨qn, hn, _⟩ := (ha ▸ h.sound.settled.inPlace stays).isPartition
    obtain ⟨r, hr, type, regions, unshrunk, _⟩ := h.holds_of_stays stays ha hn pe
    have fits := unshrunk fun i hi hd =>
      pending (h.follows.mem_of_mem (.beforeExtended inE frees (.inr hi)) hd)
    refine ⟨e, r, hr, type.trans isExtended, ?_⟩
    refine Region.contains_of_fitsIn inside (.refl _) fits ?_
    rcases regions with same | same
    · exact same ▸ h.sound.lhs.ends hqe
    · exact same ▸ h.sound.rhs.ends (Devicegraph.partition_eq_ok.2 ⟨n, stays.after, hn⟩)
  · obtain ⟨ce, hce, _⟩ := h.sound.exists_deletes? goes
    have still : ce.last ∉ done := fun ended => by
      have begun := h.first_of_last (h.sound.find?_chains.1 hce).1 ended
      exact pending (h.follows.mem_of_mem (.beforeExtended inE frees (.inl ⟨ce, hce, rfl⟩)) begun)
    obtain ⟨r, hr, type, same⟩ := h.holds_of_pending goes ha hce still pe
    exact ⟨e, r, hr, type.trans isExtended, same ▸ inside⟩

/-- A logical partition that was created lies in the extended one of `rhs`. -/
theorem enclosed_of_created (h : Run s replaced done) {c : Chain} {q : Partition}
    (hc : s.creates? x = some c) (created : c.first ∈ done) (hx : s.rhs.parent? x = some table)
    (hq : s.rhs.partition x = .ok q) (hk : q.type = .logical) (region : p.region = q.region) :
    ∃ e r, (s.machine done).Holds table e r ∧ r.type = .extended ∧
      r.region.contains p.region = .ok true := by
  obtain ⟨e, qe, inE, pe, hqe, isExtended, inside⟩ := h.sound.rhs.enclosing hx hq hk
  obtain ⟨d, hd, ha⟩ := Devicegraph.partition_eq_ok.1 hqe
  have uses := h.sound.mem_uses.2 (.inl ⟨c, hc, rfl⟩)
  rw [region]
  rcases Settled.stays_or_comes s.lhs replaced hd with ⟨o, stays⟩ | comes
  · obtain ⟨od, hod⟩ : ∃ q, o.attributes = .partition q := by
      refine Devicegraph.attributes_of_isPartition ?_
      rw [Device.kind, ← (h.sound.settled.inPlace stays).kind_eq, ha]
      rfl
    have type_eq := (hod ▸ ha ▸ h.sound.settled.inPlace stays :
      Attributes.InPlace (.partition od) (.partition qe)).1
    obtain ⟨r, hr, type, regions, _, grown⟩ := h.holds_of_stays stays hod ha
      ((h.sound.settled.parent stays).trans pe)
    have fits := grown fun i hi =>
      h.follows.mem_of_mem (.afterExtended inE (.inr hi) uses) created
    refine ⟨e, r, hr, type.trans (type_eq.trans isExtended), ?_⟩
    refine Region.contains_of_fitsIn inside (.refl _) fits ?_
    rcases regions with same | same
    · exact same ▸ h.sound.lhs.ends (Devicegraph.partition_eq_ok.2 ⟨o, stays.before, hod⟩)
    · exact same ▸ h.sound.rhs.ends hqe
  · obtain ⟨ce, hce, _⟩ := h.sound.exists_creates? comes
    have ended := h.follows.mem_of_mem (.afterExtended inE (.inl ⟨ce, hce, rfl⟩) uses) created
    have begun := h.first_of_last (h.sound.find?_chains.1 hce).1 ended
    obtain ⟨r, hr, type, same⟩ := h.holds_of_created comes ha hce begun pe
    exact ⟨e, r, hr, type.trans isExtended, same ▸ inside⟩

/-- A logical partition lies in its extended one while both stay. -/
theorem enclosed_of_stays (h : Run s replaced done) {eo en : Device} {o n : Partition}
    (hx : s.lhs.parent? x = some table) (hx' : s.rhs.parent? x = some table)
    (ho : s.lhs.partition x = .ok o) (hn : s.rhs.partition x = .ok n) (hk : o.type = .logical)
    (hk' : n.type = .logical) (inE : s.lhs.LogicalIn x e) (stays : Stays s.lhs s.rhs replaced e eo en)
    (ungrown : (∀ i, s.Resizing i x .grow → i ∉ done) → p.region.FitsIn o.region)
    (shrunk : (∀ i, s.Resizing i x .shrink → i ∈ done) → p.region.FitsIn n.region) :
    ∃ e r, (s.machine done).Holds table e r ∧ r.type = .extended ∧
      r.region.contains p.region = .ok true := by
  have settled := h.sound.settled
  -- The extended partition is the same before and after.
  obtain ⟨e₁, qo, _, pe, hqo, isExtended, inside⟩ := h.sound.lhs.enclosing hx ho hk
  obtain rfl := h.sound.lhs.eq_of_logicalIn inE hx pe hqo isExtended
  obtain ⟨_, heo, hao⟩ := Devicegraph.partition_eq_ok.1 hqo
  obtain rfl := Option.some.inj (stays.before.symm.trans heo)
  obtain ⟨qn, han, type_eq⟩ := (hao ▸ settled.inPlace stays).isPartition
  have pe' : s.rhs.parent? e₁ = some table := (settled.parent stays).symm.trans pe
  have hqn := Devicegraph.partition_eq_ok.2 ⟨en, stays.after, han⟩
  obtain ⟨e₂, q₂, inE', pe₂, hq₂, isExtended₂, inside'⟩ := h.sound.rhs.enclosing hx' hn hk'
  obtain rfl := h.sound.rhs.eq_of_logicalIn inE' hx' pe' hqn (type_eq.trans isExtended)
  obtain rfl := Except.ok.inj (hqn.symm.trans hq₂)
  obtain ⟨r, hr, type, regions, unshrunk, grown⟩ := h.holds_of_stays stays hao han pe
  refine ⟨e₁, r, hr, type.trans isExtended, ?_⟩
  have ends : r.region.start + r.region.length ≤ maxWord := by
    rcases regions with same | same
    · exact same ▸ h.sound.lhs.ends hqo
    · exact same ▸ h.sound.rhs.ends hqn
  -- Both are compared as they are before, or both as they are after.
  by_cases shrinks : ∃ i, s.Resizing i e₁ .shrink ∧ i ∈ done
  · obtain ⟨i, hi, hd⟩ := shrinks
    refine Region.contains_of_fitsIn inside' (shrunk fun j hj => ?_) (grown fun j hj => ?_) ends
    · have frees := h.sound.mem_frees.2 (.inr hj)
      exact h.follows.mem_of_mem (.beforeExtended inE frees (.inr hi)) hd
    · cases (Resizing.unique h.sound hi hj).2
  · have unshrunk := unshrunk fun i hi hd => shrinks ⟨i, hi, hd⟩
    by_cases grows : ∃ i, s.Resizing i x .grow ∧ i ∈ done
    · obtain ⟨i, hi, hd⟩ := grows
      refine Region.contains_of_fitsIn inside' (shrunk fun j hj => ?_) (grown fun j hj => ?_) ends
      · cases (Resizing.unique h.sound hi hj).2
      · have uses := h.sound.mem_uses.2 (.inr hi)
        exact h.follows.mem_of_mem (.afterExtended inE' (.inr hj) uses) hd
    · refine Region.contains_of_fitsIn inside (ungrown fun i hi hd => ?_) unshrunk ends
      exact grows ⟨i, hi, hd⟩

/-- A logical partition that is not stranded always lies in an extended one. -/
theorem encloses (h : Run s replaced done) (unstranded : ¬Stranded s.lhs s.rhs x) :
    (s.machine done).Encloses x := by
  intro table p hp hk
  have st := h.standing x
  rw [hp] at st
  generalize hparent : some table = parent at st
  cases st with
  | @old d _ goes pending like region =>
    obtain ⟨q, hq, type⟩ := like.isPartition
    obtain ⟨c, hc, _⟩ := h.sound.exists_deletes? goes
    rw [hq] at region
    have found := Devicegraph.partition_eq_ok.2 ⟨d, goes.before, hq⟩
    exact h.enclosed_of_pending hc (pending c hc) hparent.symm found (type.trans hk)
      (Option.some.inj region)
  | @new d _ comes created like region =>
    obtain ⟨q, hq, type⟩ := like.isPartition
    obtain ⟨c, hc, _⟩ := h.sound.exists_creates? comes
    rw [hq] at region
    have found := Devicegraph.partition_eq_ok.2 ⟨d, comes.after, hq⟩
    exact h.enclosed_of_created hc (created c hc) hparent.symm found (type.trans hk)
      (Option.some.inj region)
  | @kept old new _ stays like region =>
    obtain ⟨o, ho, type⟩ := like.isPartition
    obtain ⟨n, hn, type'⟩ := (ho ▸ h.sound.settled.inPlace stays).isPartition
    simp only [ho, hn, Attributes.region?, Option.some.injEq] at region
    obtain ⟨ungrown, shrunk⟩ := h.fitsIn_of_stays stays ho hn region
    have before := Devicegraph.partition_eq_ok.2 ⟨old, stays.before, ho⟩
    have after := Devicegraph.partition_eq_ok.2 ⟨new, stays.after, hn⟩
    have hk' := type.trans hk
    obtain ⟨e, _, inE, _⟩ := h.sound.lhs.enclosing hparent.symm before hk'
    cases he : s.rhs.find? e with
    | none =>
      exact absurd ⟨replaced, old, new, e, h.sound.replaced_eq, stays, inE, he⟩ unstranded
    | some en =>
      obtain ⟨eo, staysE⟩ :=
        stays_extended h.sound.lhs h.sound.rhs h.sound.replaced_eq stays inE he
      exact h.enclosed_of_stays hparent.symm
        ((h.sound.settled.parent stays).symm.trans hparent.symm) before after hk'
        (type'.trans hk') inE staysE ungrown shrunk

/-- Just after its extended partition is deleted, a stranded logical partition lies in none. -/
theorem not_encloses (h : Run s replaced (done ++ [i])) {c : Chain} {o n : Device}
    (hc : s.deletes? e = some c) (last : i = c.last) (stays : Stays s.lhs s.rhs replaced x o n)
    (inE : s.lhs.LogicalIn x e) (he : s.rhs.find? e = none) :
    ¬(s.machine (done ++ [i])).Encloses x := by
  intro encloses
  obtain ⟨_, ⟨p, hp, hk⟩, table, pe, px⟩ := id inE
  obtain ⟨_, ho, ha⟩ := Devicegraph.partition_eq_ok.1 hp
  obtain rfl := Option.some.inj (stays.before.symm.trans ho)
  obtain ⟨a, there, like⟩ := h.present_of_stays stays
  rw [ha] at like
  obtain ⟨q, rfl, type⟩ := like.of_partition
  rw [px] at there
  obtain ⟨e', r, hr, isExtended, _⟩ := encloses table q there (type.trans hk)
  have ended : i ∈ done ++ [i] := List.mem_append_right _ (List.mem_singleton_self i)
  cases h.held hr with
  | old parent found rtype _ hc' pending =>
    obtain rfl := h.sound.lhs.eq_of_logicalIn inE px parent found (rtype.trans isExtended)
    obtain rfl := Option.some.inj (hc.symm.trans hc')
    exact pending (last ▸ ended)
  | new parent _ _ _ hc' created =>
    -- A new extended partition waits until the space of the old one is free.
    have frees := h.sound.mem_frees.2 (.inl ⟨c, hc, rfl⟩)
    have uses := h.sound.mem_uses.2 (.inl ⟨_, hc', rfl⟩)
    exact h.next_notMem (last ▸ h.mem_of_precedes (.space pe parent frees uses) created)
  | kept parent _ found found' rtype =>
    obtain rfl := h.sound.lhs.eq_of_logicalIn inE px parent found (rtype.trans isExtended)
    obtain ⟨d, hd, _⟩ := Devicegraph.partition_eq_ok.1 found'
    rw [he] at hd
    cases hd

end Run

/-- A stranded logical partition lies in no extended one at some moment. -/
theorem Realizes.exposed {p : Plan} {s : Setting} {replaced : List Sid}
    (h : Realizes p s replaced) {sid : Sid} (stranded : Stranded s.lhs s.rhs sid) :
    ∃ earlier later, p.actions = earlier ++ later ∧
      ¬((Machine.of s.lhs).replay s.rhs earlier).Encloses sid := by
  have sound := h.run.sound
  obtain ⟨replaced', o, n, e, hreplaced, stays, inE, he⟩ := stranded
  obtain rfl := Except.ok.inj (sound.replaced_eq.symm.trans hreplaced)
  obtain ⟨pe, hpe, _⟩ := inE.isExtended
  obtain ⟨d, hd, _⟩ := Devicegraph.partition_eq_ok.1 hpe
  obtain ⟨c, hc, _⟩ := sound.exists_deletes? ⟨hd, .inl he⟩
  have inside := sound.lt_length_of_taken ⟨c, _, _, sound.occurs_removal hc hd⟩
  obtain ⟨done, rest, order_eq⟩ := List.append_of_mem (h.complete c.last inside)
  have run := h.run
  rw [order_eq, List.append_cons] at run
  refine ⟨_, rest.filterMap fun i => s.actions[i]?, ?_,
    run.initial.not_encloses hc rfl stays inE he⟩
  rw [Plan.actions, h.actions_eq, order_eq, ← List.filterMap_append, ← List.append_cons]

/-- In a plan between checked devicegraphs a logical partition lies in an extended partition of its
table at each moment that it is there, unless it is stranded, and then there is a moment when it does
not. The others are deleted before their extended partition is. -/
theorem encloses_between {lhs rhs : Devicegraph} (hl : lhs.check = .ok ())
    (hr : rhs.check = .ok ()) : ∃ p, between lhs rhs = .ok p ∧
      (∀ sid, (∀ earlier later, p.actions = earlier ++ later →
        ((Machine.of lhs).replay rhs earlier).Encloses sid) ↔ ¬Stranded lhs rhs sid) ∧
      ∀ sid extended, lhs.LogicalIn sid extended → ¬Stranded lhs rhs sid →
        ∀ earlier a later, p.actions = earlier ++ a :: later → a.sid = extended →
          a.kind = .deletePartition → ∃ b ∈ earlier, b.sid = sid ∧ b.kind = .deletePartition := by
  obtain ⟨p, s, replaced, hp, rfl, rfl, realizes⟩ := between_spec hl hr
  have sound := realizes.run.sound
  refine ⟨p, hp, fun sid => ⟨fun always stranded => ?_, fun unstranded earlier later cut => ?_⟩, ?_⟩
  · obtain ⟨earlier, later, cut, exposed⟩ := realizes.exposed stranded
    exact exposed (always earlier later cut)
  · obtain ⟨done, rest, _, run, machine_eq⟩ := realizes.prefix_spec cut
    rw [machine_eq]
    exact run.encloses unstranded
  · rintro sid extended inE unstranded earlier a later cut rfl hk
    obtain ⟨done, i, run, ha, rfl⟩ := realizes.exists_next cut
    obtain ⟨c, k, kind, occurs, rfl⟩ := sound.getElem?_actions.1 ha
    obtain rfl : kind = .deletePartition := hk
    obtain ⟨hc, rfl⟩ := occurs.deletion sound rfl
    obtain ⟨_, goes, _⟩ := sound.of_deletes? hc
    obtain ⟨_, ⟨px, hpx, hkx⟩, _⟩ := id inE
    obtain ⟨old, ho, hax⟩ := Devicegraph.partition_eq_ok.1 hpx
    rcases Settled.stays_or_goes s.rhs replaced ho with ⟨n, stays⟩ | goesX
    · -- The extended partition would stay with it.
      cases he : s.rhs.find? c.sid with
      | none =>
        exact absurd ⟨replaced, old, n, c.sid, sound.replaced_eq, stays, inE, he⟩ unstranded
      | some en =>
        obtain ⟨_, staysE⟩ := stays_extended sound.lhs sound.rhs sound.replaced_eq stays inE he
        exact absurd goes staysE.not_goes
    · obtain ⟨cx, hcx, _⟩ := sound.exists_deletes? goesX
      have begun := run.first_of_last occurs.mem
        (List.mem_append_right _ (List.mem_singleton_self _))
      have frees := sound.mem_frees.2 (.inl ⟨cx, hcx, rfl⟩)
      have gone := run.mem_of_precedes (.beforeExtended inE frees (.inl ⟨c, hc, rfl⟩)) begun
      have deletion := sound.occurs_removal hcx ho
      refine ⟨_, List.mem_filterMap.2 ⟨_, gone, sound.getElem?_actions.2 ⟨cx, _, _, deletion, rfl⟩⟩,
        (sound.find?_chains.1 hcx).2.2, ?_⟩
      rw [hax]
      rfl

/-- A disk with a logical partition in the extended one. -/
def logicalIn (extended : Sid) : Devicegraph :=
  let disk : Disk := { name := "/dev/sda", sizeK := 1048576 }
  let outer : Partition :=
    { name := "/dev/sda1", type := .extended, region := ⟨2048, 100000, 512⟩, id := 0x05 }
  let inner : Partition :=
    { name := "/dev/sda5", type := .logical, region := ⟨4096, 8192, 512⟩, id := 0x83 }
  let devices := (((Devicegraph.empty.addDevice ⟨1, .disk disk, []⟩).addDevice
    ⟨2, .partitionTable ⟨.msdos⟩, []⟩).addDevice ⟨extended, .partition outer, []⟩).addDevice
    ⟨5, .partition inner, []⟩
  ((devices.addEdge 1 2 .user).addEdge 2 extended .subdevice).addEdge 2 5 .subdevice

/-- Another extended partition takes the place of the one that a logical partition lies in. -/
theorem encloses_swap : ∃ p, between (logicalIn 3) (logicalIn 4) = .ok p ∧
    (∀ sid, (∀ earlier later, p.actions = earlier ++ later →
      ((Machine.of (logicalIn 3)).replay (logicalIn 4) earlier).Encloses sid) ↔
        ¬Stranded (logicalIn 3) (logicalIn 4) sid) ∧
    ∀ sid extended, (logicalIn 3).LogicalIn sid extended →
      ¬Stranded (logicalIn 3) (logicalIn 4) sid →
      ∀ earlier a later, p.actions = earlier ++ a :: later → a.sid = extended →
        a.kind = .deletePartition → ∃ b ∈ earlier, b.sid = sid ∧ b.kind = .deletePartition :=
  encloses_between (by cbv) (by cbv)

/-- Then there is a moment when the logical partition lies in no extended one. -/
theorem exposed_by_swap : ∃ p, between (logicalIn 3) (logicalIn 4) = .ok p ∧
    ∃ earlier later, p.actions = earlier ++ later ∧
      ¬((Machine.of (logicalIn 3)).replay (logicalIn 4) earlier).Encloses 5 := by
  have hl : (logicalIn 3).check = .ok () := by cbv
  have hr : (logicalIn 4).check = .ok () := by cbv
  obtain ⟨p, s, replaced, hp, lhs_eq, rhs_eq, realizes⟩ := between_spec hl hr
  have stranded : Stranded (logicalIn 3) (logicalIn 4) 5 := by
    refine ⟨[], _, _, 3, by cbv, ⟨by cbv, by cbv, List.not_mem_nil⟩, ⟨⟨_, by cbv, by cbv⟩,
      ⟨_, by cbv, by cbv⟩, 2, by cbv, by cbv⟩, by cbv⟩
  rw [← lhs_eq, ← rhs_eq] at stranded
  obtain ⟨earlier, later, cut, exposed⟩ := realizes.exposed stranded
  exact ⟨p, hp, earlier, later, cut, lhs_eq ▸ rhs_eq ▸ exposed⟩

end Plan

end StoragePlan
