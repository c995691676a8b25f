import StoragePlan.Plan.Replacement
import StoragePlan.Proofs.Navigation

/-!
# Which devices stay

A device of two valid devicegraphs stays (`Stays`), goes (`Goes`) or comes (`Comes`); one that is
replaced goes and comes. `Settled` says what the set of replaced devices guarantees about those that
stay: they keep their parent, their attributes can be changed in place, and the device they sit on
stays too. The last is where the search for replaced devices has to be complete. It takes one step
from a replaced device to everything on it, in one devicegraph or the other, and that is enough,
since a device that moved is replaced for that reason alone.
-/

namespace StoragePlan

/-- Attributes that can be changed into others without replacing the device. -/
def Attributes.InPlace : Attributes → Attributes → Prop
  | .disk _, .disk _ => True
  | .partitionTable a, .partitionTable b => a.ptType = b.ptType
  | .partition a, .partition b => a.type = b.type ∧ a.name = b.name ∧
      a.region.start = b.region.start ∧ a.region.sectorSize = b.region.sectorSize
  | .filesystem a, .filesystem b => a.fsType = b.fsType
  | _, _ => False

theorem Attributes.InPlace.kind_eq {a b : Attributes} (h : a.InPlace b) : b.kind = a.kind := by
  cases a <;> cases b <;> first | rfl | cases h

theorem Attributes.InPlace.isDisk {o : Disk} {a : Attributes}
    (h : Attributes.InPlace (.disk o) a) : ∃ n, a = .disk n := by
  cases a with
  | disk n => exact ⟨n, rfl⟩
  | partitionTable => cases h
  | partition => cases h
  | filesystem => cases h

theorem Attributes.InPlace.isTable {t : PartitionTable} {a : Attributes}
    (h : Attributes.InPlace (.partitionTable t) a) : ∃ t', a = .partitionTable t' ∧
      t'.ptType = t.ptType := by
  cases a with
  | partitionTable t' => exact ⟨t', rfl, h.symm⟩
  | disk => cases h
  | partition => cases h
  | filesystem => cases h

theorem Attributes.InPlace.isPartition {o : Partition} {a : Attributes}
    (h : Attributes.InPlace (.partition o) a) : ∃ n, a = .partition n ∧ n.type = o.type := by
  cases a with
  | partition n => exact ⟨n, rfl, h.1.symm⟩
  | disk => cases h
  | partitionTable => cases h
  | filesystem => cases h

theorem Attributes.InPlace.isFilesystem {o : Filesystem} {a : Attributes}
    (h : Attributes.InPlace (.filesystem o) a) :
    ∃ n, a = .filesystem n ∧ n.fsType = o.fsType := by
  cases a with
  | filesystem n => exact ⟨n, rfl, h.symm⟩
  | disk => cases h
  | partitionTable => cases h
  | partition => cases h

namespace Plan

open Attempt

/-- The device is `old` before and `new` after, and is not replaced. -/
structure Stays (lhs rhs : Devicegraph) (replaced : List Sid) (sid : Sid) (old new : Device) :
    Prop where
  before : lhs.find? sid = some old
  after : rhs.find? sid = some new
  kept : sid ∉ replaced

/-- The device is `old` before, and is gone after or replaced. -/
structure Goes (lhs rhs : Devicegraph) (replaced : List Sid) (sid : Sid) (old : Device) : Prop where
  before : lhs.find? sid = some old
  fate : rhs.find? sid = none ∨ sid ∈ replaced

/-- The device is `new` after, and is not there before or replaced. -/
structure Comes (lhs rhs : Devicegraph) (replaced : List Sid) (sid : Sid) (new : Device) :
    Prop where
  after : rhs.find? sid = some new
  fate : lhs.find? sid = none ∨ sid ∈ replaced

theorem Stays.not_goes {lhs rhs : Devicegraph} {replaced : List Sid} {sid : Sid}
    {old new d : Device} (stays : Stays lhs rhs replaced sid old new) :
    ¬Goes lhs rhs replaced sid d := by
  rintro ⟨_, none | mem⟩
  · simp [stays.after] at none
  · exact stays.kept mem

theorem Stays.not_comes {lhs rhs : Devicegraph} {replaced : List Sid} {sid : Sid}
    {old new d : Device} (stays : Stays lhs rhs replaced sid old new) :
    ¬Comes lhs rhs replaced sid d := by
  rintro ⟨_, none | mem⟩
  · simp [stays.before] at none
  · exact stays.kept mem

theorem not_goes_of_not_found {lhs rhs : Devicegraph} {replaced : List Sid} {sid : Sid}
    (h : lhs.find? sid = none) (d : Device) : ¬Goes lhs rhs replaced sid d := by
  rintro ⟨before, _⟩
  simp [h] at before

theorem not_comes_of_not_found {lhs rhs : Devicegraph} {replaced : List Sid} {sid : Sid}
    (h : rhs.find? sid = none) (d : Device) : ¬Comes lhs rhs replaced sid d := by
  rintro ⟨after, _⟩
  simp [h] at after

/-- What the replaced devices guarantee about the others. -/
structure Settled (lhs rhs : Devicegraph) (replaced : List Sid) : Prop where
  /-- Replaced devices are in both devicegraphs. -/
  common : ∀ sid ∈ replaced, lhs.contains sid = true ∧ rhs.contains sid = true
  /-- A device that stays does not move. -/
  parent : ∀ {sid old new}, Stays lhs rhs replaced sid old new → lhs.parent? sid = rhs.parent? sid
  /-- A device that stays can be changed in place. -/
  inPlace : ∀ {sid old new}, Stays lhs rhs replaced sid old new →
    old.attributes.InPlace new.attributes
  /-- A device that stays sits on one that stays. -/
  stays_parent : ∀ {child parent old new}, Stays lhs rhs replaced child old new →
    lhs.parent? child = some parent → ∃ o n, Stays lhs rhs replaced parent o n

variable {lhs rhs : Devicegraph}

/-! ### Obstacles -/

theorem filesystemResize?_total (lhs : Devicegraph) (hr : rhs.Valid) {sid : Sid} {fs : Filesystem}
    (hfs : rhs.filesystem sid = .ok fs) : ∃ mode, filesystemResize? lhs rhs sid = .ok mode := by
  obtain ⟨d, hd, ha⟩ := Devicegraph.filesystem_eq_ok.1 hfs
  have notDisk : d.kind ≠ .disk := by rw [Device.kind, ha]; simp [Attributes.kind]
  obtain ⟨parent, hp⟩ := hr.exists_parent hd notDisk
  simp only [filesystemResize?, (Devicegraph.Valid.filesystemBlkDevice_eq_ok hfs).2 hp]
  exact ⟨_, rfl⟩

theorem obstacle?_total (hl : lhs.Valid) (hr : rhs.Valid) {sid : Sid} {old new : Device}
    (ho : lhs.find? sid = some old) (hn : rhs.find? sid = some new) :
    ∃ o, obstacle? lhs rhs old new = .ok o := by
  obtain rfl := Devicegraph.sid_of_find? hn
  simp only [obstacle?, hl.parents_eq ho, hr.parents_eq hn]
  simp only [bind, Except.bind]
  split
  · exact ⟨_, rfl⟩
  · split
    any_goals exact ⟨_, rfl⟩
    next o n _ ha =>
      split
      · exact ⟨_, rfl⟩
      · obtain ⟨mode, hmode⟩ := filesystemResize?_total lhs hr
          (Devicegraph.filesystem_eq_ok.2 ⟨new, hn, ha⟩)
        simp only [hmode]
        exact ⟨_, rfl⟩

theorem inPlace_of_ofPartition? {o n : Partition} (h : Obstacle.ofPartition? o n = none) :
    Attributes.InPlace (.partition o) (.partition n) := by
  unfold Obstacle.ofPartition? at h
  split_ifs at h with htype hname hstart
  simp only [ne_eq, not_not, not_or] at htype hname hstart
  exact ⟨htype, hname, hstart⟩

/-- Where there is no obstacle, the device stays where it is and can be changed in place. -/
theorem of_obstacle?_none (hl : lhs.Valid) (hr : rhs.Valid) {sid : Sid} {old new : Device}
    (ho : lhs.find? sid = some old) (hn : rhs.find? sid = some new)
    (h : obstacle? lhs rhs old new = .ok none) :
    lhs.parent? sid = rhs.parent? sid ∧ old.attributes.InPlace new.attributes := by
  obtain rfl := Devicegraph.sid_of_find? hn
  simp only [obstacle?, hl.parents_eq ho, hr.parents_eq hn] at h
  simp only [bind, Except.bind] at h
  split at h
  · cases h
  · next same =>
    have sameParent : (lhs.parent? new.sid).toList = (rhs.parent? new.sid).toList := not_not.1 same
    refine ⟨by simpa using congrArg List.head? sameParent, ?_⟩
    split at h
    · next ha ha' => rw [ha, ha']; trivial
    · next ha ha' =>
      rw [ha, ha']
      simpa [pure, Except.pure, Attributes.InPlace] using h
    · next ha ha' =>
      rw [ha, ha']
      exact inPlace_of_ofPartition? (pure_eq_ok.1 h)
    · next o n ha ha' =>
      rw [ha, ha']
      by_cases type : o.fsType = n.fsType
      · exact type
      · rw [if_pos type] at h
        cases h
    · cases h

theorem hindered_total (hl : lhs.Valid) (hr : rhs.Valid) : ∃ l, hindered lhs rhs = .ok l := by
  refine bind_total (mapM_total fun new hnew => ?_) fun _ _ => ⟨_, rfl⟩
  split
  · exact ⟨none, rfl⟩
  · next old ho =>
    exact bind_total (obstacle?_total hl hr ho (Devicegraph.mem_devices.1 hnew)) fun _ _ => ⟨_, rfl⟩

/-- Every obstacle is found. -/
theorem mem_hindered {l : List (Device × Obstacle)} (h : hindered lhs rhs = .ok l) {new : Device}
    {o : Obstacle} : (new, o) ∈ l ↔ rhs.find? new.sid = some new ∧
      ∃ old, lhs.find? new.sid = some old ∧ obstacle? lhs rhs old new = .ok (some o) := by
  simp only [hindered, bind_eq_ok, pure_eq_ok] at h
  obtain ⟨found, hfound, rfl⟩ := h
  simp only [List.mem_filterMap, id, exists_eq_right, mem_mapM hfound, Devicegraph.mem_devices]
  constructor
  · rintro ⟨new', hnew, hm⟩
    split at hm
    · cases hm
    · next old ho =>
      simp only [bind_eq_ok, pure_eq_ok, Option.map_eq_some_iff, Prod.mk.injEq] at hm
      obtain ⟨_, hobs, _, rfl, rfl, rfl⟩ := hm
      exact ⟨hnew, old, ho, hobs⟩
  · rintro ⟨hnew, old, ho, hobs⟩
    refine ⟨new, hnew, ?_⟩
    simp only [ho, hobs]
    rfl

/-! ### The replaced devices -/

theorem dependentLogicals_total (hl : lhs.Valid) {sid : Sid} {d : Device}
    (hd : lhs.find? sid = some d) : ∃ l, dependentLogicals lhs sid = .ok l := by
  simp only [dependentLogicals, Devicegraph.find_eq_ok.2 hd, bind, Except.bind]
  split
  · next hk =>
    obtain ⟨p, hp⟩ := Devicegraph.attributes_of_isPartition hk
    exact hl.logicalPartitionsOf_total (Devicegraph.partition_eq_ok.2 ⟨d, hd, hp⟩)
  · exact ⟨[], rfl⟩

theorem dependents_total {sid : Sid} {old new : Device} (ho : lhs.find? sid = some old)
    (hn : rhs.find? sid = some new) : ∃ l, dependents lhs rhs sid = .ok l := by
  obtain ⟨above, ha⟩ := Devicegraph.descendants_total hn false
  obtain ⟨below, hb⟩ := Devicegraph.descendants_total ho false
  simp only [dependents, ha, hb]
  exact ⟨_, rfl⟩

/-- What the search for replaced devices goes through: the devices with an obstacle, those and the
logical partitions that go with them, and everything on these. -/
theorem replaced_eq_ok {replaced : List Sid} : Plan.replaced lhs rhs = .ok replaced ↔
    ∃ found logicals outer, hindered lhs rhs = .ok found ∧
      (found.map fun x => x.1.sid).mapM (dependentLogicals lhs) = .ok logicals ∧
      (SidList.union (found.map fun x => x.1.sid) (logicals.flatten.filter
        fun sid => lhs.contains sid && rhs.contains sid)).mapM (dependents lhs rhs) = .ok outer ∧
      replaced = SidList.union (SidList.union (found.map fun x => x.1.sid)
        (logicals.flatten.filter fun sid => lhs.contains sid && rhs.contains sid))
        (outer.flatten.filter fun sid => lhs.contains sid && rhs.contains sid) := by
  simp only [Plan.replaced, bind_eq_ok, pure_eq_ok]
  constructor
  · rintro ⟨found, hf, logicals, hlog, outer, ho, rfl⟩
    exact ⟨found, logicals, outer, hf, hlog, ho, rfl⟩
  · rintro ⟨found, logicals, outer, hf, hlog, ho, rfl⟩
    exact ⟨found, hf, logicals, hlog, outer, ho, rfl⟩

/-- Devices with an obstacle are in both devicegraphs. -/
theorem common_of_hindered {found : List (Device × Obstacle)} (hf : hindered lhs rhs = .ok found) :
    ∀ sid ∈ found.map fun x => x.1.sid, lhs.contains sid = true ∧ rhs.contains sid = true := by
  intro sid hs
  obtain ⟨⟨new, o⟩, hmem, rfl⟩ := List.mem_map.1 hs
  obtain ⟨hn, old, ho, _⟩ := (mem_hindered hf).1 hmem
  exact ⟨Devicegraph.contains_iff.2 ⟨old, ho⟩, Devicegraph.contains_iff.2 ⟨new, hn⟩⟩

/-- The search only goes on with devices that are in both devicegraphs. -/
theorem common_of_union {a b : List Sid}
    (h : ∀ sid ∈ a, lhs.contains sid = true ∧ rhs.contains sid = true) :
    ∀ sid ∈ SidList.union a (b.filter fun sid => lhs.contains sid && rhs.contains sid),
      lhs.contains sid = true ∧ rhs.contains sid = true := by
  intro sid hs
  rcases SidList.mem_union.1 hs with hs | hs
  · exact h sid hs
  · simpa using (List.mem_filter.1 hs).2

theorem replaced_total (hl : lhs.Valid) (hr : rhs.Valid) :
    ∃ replaced, Plan.replaced lhs rhs = .ok replaced := by
  obtain ⟨found, hf⟩ := hindered_total hl hr
  obtain ⟨logicals, hlog⟩ := mapM_total fun sid hs => by
    obtain ⟨d, hd⟩ := Devicegraph.contains_iff.1 (common_of_hindered hf sid hs).1
    exact dependentLogicals_total hl hd
  obtain ⟨outer, ho⟩ : ∃ outer, (SidList.union (found.map fun x => x.1.sid)
      (logicals.flatten.filter fun sid => lhs.contains sid && rhs.contains sid)).mapM
        (dependents lhs rhs) = .ok outer := by
    refine mapM_total fun sid hs => ?_
    have common := common_of_union (common_of_hindered hf) sid hs
    obtain ⟨old, hold⟩ := Devicegraph.contains_iff.1 common.1
    obtain ⟨new, hnew⟩ := Devicegraph.contains_iff.1 common.2
    exact dependents_total hold hnew
  exact ⟨_, replaced_eq_ok.2 ⟨found, logicals, outer, hf, hlog, ho, rfl⟩⟩

/-- Everything on a device, as `dependents` finds it, with what sits on that. -/
theorem mem_dependents_of_parent (hl : lhs.Valid) (hr : rhs.Valid) {sid child parent : Sid}
    {l : List Sid} (h : dependents lhs rhs sid = .ok l) (hlp : lhs.parent? child = some parent)
    (hrp : rhs.parent? child = some parent) (hm : parent = sid ∨ parent ∈ l) :
    child = sid ∨ child ∈ l := by
  simp only [dependents, bind_eq_ok, pure_eq_ok] at h
  obtain ⟨above, ha, below, hb, rfl⟩ := h
  simp only [List.mem_append] at hm ⊢
  rcases hm with rfl | hm | hm
  · exact (hl.descendants_closed hb hlp (.inl rfl)).imp_right .inr
  · exact (hr.descendants_closed ha hrp (.inr hm)).imp_right .inl
  · exact (hl.descendants_closed hb hlp (.inr hm)).imp_right .inr

/-- With a device the search finds what sits on it in both devicegraphs. -/
theorem mem_of_parent_mem (hl : lhs.Valid) (hr : rhs.Valid) {inner : List Sid}
    {outer : List (List Sid)} (houter : inner.mapM (dependents lhs rhs) = .ok outer)
    {child parent : Sid} (hlp : lhs.parent? child = some parent)
    (hrp : rhs.parent? child = some parent)
    (hp : parent ∈ SidList.union inner
      (outer.flatten.filter fun sid => lhs.contains sid && rhs.contains sid)) :
    child ∈ SidList.union inner
      (outer.flatten.filter fun sid => lhs.contains sid && rhs.contains sid) := by
  obtain ⟨o, ho⟩ := hl.parent_found hlp
  obtain ⟨n, hn⟩ := hr.parent_found hrp
  -- The parent was found as something on a device of the inner search, or is one itself.
  obtain ⟨top, htop, l, hdep, hm⟩ : ∃ top ∈ inner, ∃ l, dependents lhs rhs top = .ok l ∧
      (parent = top ∨ parent ∈ l) := by
    rcases SidList.mem_union.1 hp with hp | hp
    · obtain ⟨l, hdep⟩ := dependents_total ho hn
      exact ⟨parent, hp, l, hdep, .inl rfl⟩
    · obtain ⟨l, hlmem, hpl⟩ := List.mem_flatten.1 (List.mem_filter.1 hp).1
      obtain ⟨top, htop, hdep⟩ := (mem_mapM houter).1 hlmem
      exact ⟨top, htop, l, hdep, .inr hpl⟩
  rcases mem_dependents_of_parent hl hr hdep hlp hrp hm with rfl | hc
  · exact SidList.mem_union.2 (.inl htop)
  · refine SidList.mem_union.2 (.inr (List.mem_filter.2 ⟨?_, ?_⟩))
    · exact List.mem_flatten.2 ⟨l, (mem_mapM houter).2 ⟨top, htop, hdep⟩, hc⟩
    · rw [Bool.and_eq_true]
      exact ⟨Devicegraph.contains_iff.2 (hl.child_found hlp),
        Devicegraph.contains_iff.2 (hr.child_found hrp)⟩

/-- Where there is an obstacle, the device does not stay. -/
theorem obstacle?_of_stays (hl : lhs.Valid) (hr : rhs.Valid) {replaced : List Sid}
    (h : Plan.replaced lhs rhs = .ok replaced) {sid : Sid} {old new : Device}
    (stays : Stays lhs rhs replaced sid old new) : obstacle? lhs rhs old new = .ok none := by
  obtain ⟨found, logicals, outer, hf, _, _, rfl⟩ := replaced_eq_ok.1 h
  obtain ⟨o, ho⟩ := obstacle?_total hl hr stays.before stays.after
  cases o with
  | none => exact ho
  | some o =>
    obtain rfl := Devicegraph.sid_of_find? stays.after
    have member := (mem_hindered hf).2 ⟨stays.after, old, stays.before, ho⟩
    refine absurd ?_ stays.kept
    refine SidList.mem_union.2 (.inl (SidList.mem_union.2 (.inl ?_)))
    exact List.mem_map.2 ⟨(new, o), member, rfl⟩

/-- The search finds enough devices to replace. -/
theorem settled_of_replaced (hl : lhs.Valid) (hr : rhs.Valid) {replaced : List Sid}
    (h : Plan.replaced lhs rhs = .ok replaced) : Settled lhs rhs replaced := by
  have unhindered : ∀ {sid old new}, Stays lhs rhs replaced sid old new →
      lhs.parent? sid = rhs.parent? sid ∧ old.attributes.InPlace new.attributes := by
    intro sid old new stays
    exact of_obstacle?_none hl hr stays.before stays.after (obstacle?_of_stays hl hr h stays)
  obtain ⟨found, logicals, outer, hf, _, houter, hreplaced⟩ := replaced_eq_ok.1 h
  have common := common_of_union (b := outer.flatten)
    (common_of_union (b := logicals.flatten) (common_of_hindered hf))
  refine ⟨hreplaced ▸ common, fun stays => (unhindered stays).1,
    fun stays => (unhindered stays).2, ?_⟩
  intro child parent old new stays hlp
  have hrp := (unhindered stays).1 ▸ hlp
  obtain ⟨o, ho⟩ := hl.parent_found hlp
  obtain ⟨n, hn⟩ := hr.parent_found hrp
  refine ⟨o, n, ho, hn, fun hp => stays.kept ?_⟩
  rw [hreplaced] at hp ⊢
  exact mem_of_parent_mem hl hr houter hlp hrp hp

/-! ### The fates of a device -/

namespace Settled

variable {replaced : List Sid}

/-- What is there before stays or goes. -/
theorem stays_or_goes (rhs : Devicegraph) (replaced : List Sid) {sid : Sid} {old : Device}
    (ho : lhs.find? sid = some old) :
    (∃ new, Stays lhs rhs replaced sid old new) ∨ Goes lhs rhs replaced sid old := by
  by_cases hs : sid ∈ replaced
  · exact .inr ⟨ho, .inr hs⟩
  · cases hn : rhs.find? sid with
    | none => exact .inr ⟨ho, .inl hn⟩
    | some new => exact .inl ⟨new, ho, hn, hs⟩

/-- What is there after stays or comes. -/
theorem stays_or_comes (lhs : Devicegraph) (replaced : List Sid) {sid : Sid} {new : Device}
    (hn : rhs.find? sid = some new) :
    (∃ old, Stays lhs rhs replaced sid old new) ∨ Comes lhs rhs replaced sid new := by
  by_cases hs : sid ∈ replaced
  · exact .inr ⟨hn, .inr hs⟩
  · cases ho : lhs.find? sid with
    | none => exact .inr ⟨hn, .inl ho⟩
    | some old => exact .inl ⟨old, ho, hn, hs⟩

theorem goes_of_not_stays {replaced : List Sid} {sid : Sid} {old : Device}
    (ho : lhs.find? sid = some old) (leaves : ∀ o n, ¬Stays lhs rhs replaced sid o n) :
    Goes lhs rhs replaced sid old := by
  rcases stays_or_goes rhs replaced ho with ⟨new, stays⟩ | goes
  · exact absurd stays (leaves old new)
  · exact goes

theorem comes_of_not_stays {replaced : List Sid} {sid : Sid} {new : Device}
    (hn : rhs.find? sid = some new) (leaves : ∀ o n, ¬Stays lhs rhs replaced sid o n) :
    Comes lhs rhs replaced sid new := by
  rcases stays_or_comes lhs replaced hn with ⟨old, stays⟩ | comes
  · exact absurd stays (leaves old new)
  · exact comes

/-- What sits on a device that goes, goes. -/
theorem goes_of_parent (h : Settled lhs rhs replaced) {child parent : Sid} {old p : Device}
    (hc : lhs.find? child = some old) (hp : lhs.parent? child = some parent)
    (goes : Goes lhs rhs replaced parent p) : Goes lhs rhs replaced child old := by
  rcases stays_or_goes rhs replaced hc with ⟨new, stays⟩ | goes'
  · obtain ⟨o, n, sp⟩ := h.stays_parent stays hp
    exact absurd goes sp.not_goes
  · exact goes'

/-- What sits on a device that comes, comes. -/
theorem comes_of_parent (h : Settled lhs rhs replaced) {child parent : Sid} {new p : Device}
    (hc : rhs.find? child = some new) (hp : rhs.parent? child = some parent)
    (comes : Comes lhs rhs replaced parent p) : Comes lhs rhs replaced child new := by
  rcases stays_or_comes lhs replaced hc with ⟨old, stays⟩ | comes'
  · obtain ⟨o, n, sp⟩ := h.stays_parent stays (h.parent stays ▸ hp)
    exact absurd comes sp.not_comes
  · exact comes'

end Settled

end Plan

end StoragePlan
