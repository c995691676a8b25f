import StoragePlan.Proofs.Chains
import StoragePlan.Proofs.Partitioning

/-!
# What the rules say

`Precedes` lists, rule by rule, which place comes before which, in terms of the chains of the
devices and of who sits on whom. `Setting.Sound.dependencies_spec` says that these are the pairs
that the plan collects, and that the collection never fails for two valid devicegraphs.
-/

namespace StoragePlan.Plan

open Attempt

namespace Setting

variable {s : Setting} {replaced : List Sid}

/-! ### Resizes among the actions -/

theorem mem_filterMap_zipIdx {β : Type} {actions : List Action} {f : Action × Nat → Option β}
    {b : β} : b ∈ actions.zipIdx.filterMap f ↔ ∃ a i, actions[i]? = some a ∧ f (a, i) = some b := by
  simp only [List.mem_filterMap, Prod.exists, List.mem_zipIdx_iff_getElem?]

namespace Sound

theorem mem_partitionResizes (h : s.Sound replaced) {r : Resize} :
    r ∈ partitionResizes s.actions ↔
      ∃ c k, s.Occurs r.place c k (.resizePartition r.mode) ∧ c.sid = r.sid := by
  simp only [partitionResizes, mem_filterMap_zipIdx, h.getElem?_actions]
  constructor
  · rintro ⟨_, i, ⟨c, k, kind, occurs, rfl⟩, hr⟩
    split at hr
    · next mode hk =>
      obtain rfl := Option.some.inj hr
      obtain rfl : kind = .resizePartition mode := hk
      exact ⟨c, k, occurs, rfl⟩
    · cases hr
  · rintro ⟨c, k, occurs, sid⟩
    exact ⟨_, r.place, ⟨c, k, _, occurs, rfl⟩, by simp [sid]⟩

theorem mem_filesystemResizes (h : s.Sound replaced) {r : Resize} :
    r ∈ filesystemResizes s.actions ↔
      ∃ c k, s.Occurs r.place c k (.resizeFilesystem r.mode) ∧ c.sid = r.sid := by
  simp only [filesystemResizes, mem_filterMap_zipIdx, h.getElem?_actions]
  constructor
  · rintro ⟨_, i, ⟨c, k, kind, occurs, rfl⟩, hr⟩
    split at hr
    · next mode hk =>
      obtain rfl := Option.some.inj hr
      obtain rfl : kind = .resizeFilesystem mode := hk
      exact ⟨c, k, occurs, rfl⟩
    · cases hr
  · rintro ⟨c, k, occurs, sid⟩
    exact ⟨_, r.place, ⟨c, k, _, occurs, rfl⟩, by simp [sid]⟩

end Sound

theorem between?_eq_shrink {old new : Nat} :
    ResizeMode.between? old new = some .shrink ↔ new < old := by
  unfold ResizeMode.between?
  split_ifs <;> simp <;> omega

theorem between?_eq_grow {old new : Nat} :
    ResizeMode.between? old new = some .grow ↔ old < new := by
  unfold ResizeMode.between?
  split_ifs <;> simp <;> omega

theorem between?_of_ne {old new : Nat} (h : old ≠ new) :
    ∃ mode, ResizeMode.between? old new = some mode := by
  unfold ResizeMode.between?
  split_ifs
  · exact ⟨.grow, rfl⟩
  · exact ⟨.shrink, rfl⟩
  · omega

theorem getElem?_partitionChanges {o n : Partition} {k : Nat} {mode : ResizeMode} :
    (partitionChanges o n)[k]? = some (.resizePartition mode) ↔
      k = 0 ∧ ResizeMode.between? o.region.length n.region.length = some mode := by
  unfold partitionChanges
  cases hm : ResizeMode.between? o.region.length n.region.length with
  | none =>
    simp only [reduceCtorEq, and_false, iff_false]
    intro hk
    have := List.mem_of_getElem? hk
    split_ifs at this <;> simp at this
  | some m =>
    cases k with
    | zero => simp
    | succ k =>
      simp only [Nat.succ_ne_zero, false_and, iff_false]
      intro hk
      simp only [Option.toList_some, List.map_cons, List.map_nil, List.cons_append, List.nil_append,
        List.getElem?_cons_succ] at hk
      have := List.mem_of_getElem? hk
      split_ifs at this <;> simp at this

/-- The resize of a partition is the first thing that is done to one that stays. -/
theorem Occurs.resizePartition (h : s.Sound replaced) {i k : Nat} {c : Chain} {mode : ResizeMode}
    (occurs : s.Occurs i c k (.resizePartition mode)) : c.phase = .change ∧ k = 0 ∧
      ∃ old new o n, Stays s.lhs s.rhs replaced c.sid old new ∧ old.attributes = .partition o ∧
        new.attributes = .partition n ∧
        ResizeMode.between? o.region.length n.region.length = some mode := by
  have mem := List.mem_of_getElem? occurs.kind_eq
  cases h.shape occurs.mem with
  | delete phase goes hk => exact absurd (hk ▸ mem) (resizePartition_notMem_deleteKinds _ _)
  | create phase comes hk => exact absurd (hk ▸ mem) (resizePartition_notMem_createKinds _ _)
  | filesystem phase stays ho hn resize hk =>
    rw [hk] at mem
    simp [filesystemChanges] at mem
  | partition phase stays ho hn hk =>
    obtain ⟨first, mode⟩ := getElem?_partitionChanges.1 (hk ▸ occurs.kind_eq)
    exact ⟨phase, first, _, _, _, _, stays, ho, hn, mode⟩

/-- A filesystem is resized when it stays. -/
theorem Occurs.resizeFilesystem (h : s.Sound replaced) {i k : Nat} {c : Chain} {mode : ResizeMode}
    (occurs : s.Occurs i c k (.resizeFilesystem mode)) : c.phase = .change ∧
      ∃ old new o n, Stays s.lhs s.rhs replaced c.sid old new ∧ old.attributes = .filesystem o ∧
        new.attributes = .filesystem n ∧
        filesystemResize? s.lhs s.rhs c.sid = .ok (some mode) := by
  have mem := List.mem_of_getElem? occurs.kind_eq
  cases h.shape occurs.mem with
  | @delete old phase goes hk =>
    rw [hk] at mem
    cases ha : old.attributes <;> simp [ha, deleteKinds, fstabKinds] at mem
  | @create new phase comes hk =>
    rw [hk] at mem
    cases ha : new.attributes <;> simp [ha, createKinds, fstabKinds] at mem
  | partition phase stays ho hn hk =>
    rw [hk] at mem
    simp [partitionChanges] at mem
  | filesystem phase stays ho hn resize hk =>
    rw [hk] at mem
    obtain rfl := by simpa [filesystemChanges] using mem
    exact ⟨phase, _, _, _, _, stays, ho, hn, resize⟩

/-- The place `i` resizes the partition `sid`. -/
def Resizing (s : Setting) (i : Nat) (sid : Sid) (mode : ResizeMode) : Prop :=
  ∃ c k, s.Occurs i c k (.resizePartition mode) ∧ c.sid = sid

/-- The place `i` resizes the filesystem `sid`. -/
def Following (s : Setting) (i : Nat) (sid : Sid) (mode : ResizeMode) : Prop :=
  ∃ c k, s.Occurs i c k (.resizeFilesystem mode) ∧ c.sid = sid

/-- What is resized is a partition that stays. -/
theorem Resizing.stays (h : s.Sound replaced) {i : Nat} {sid : Sid} {mode : ResizeMode}
    (hi : s.Resizing i sid mode) : ∃ old new o n, Stays s.lhs s.rhs replaced sid old new ∧
      old.attributes = .partition o ∧ new.attributes = .partition n ∧
      ResizeMode.between? o.region.length n.region.length = some mode := by
  obtain ⟨c, k, occurs, rfl⟩ := hi
  exact (occurs.resizePartition h).2.2

/-- A partition is resized at most once. -/
theorem Resizing.unique (h : s.Sound replaced) {i j : Nat} {sid : Sid} {mode mode' : ResizeMode}
    (hi : s.Resizing i sid mode) (hj : s.Resizing j sid mode') : i = j ∧ mode = mode' := by
  obtain ⟨c, k, occurs, rfl⟩ := hi
  obtain ⟨c', k', occurs', same⟩ := hj
  obtain ⟨phase, rfl, _⟩ := occurs.resizePartition h
  obtain ⟨phase', rfl, _⟩ := occurs'.resizePartition h
  obtain rfl := h.chain_unique occurs.mem occurs'.mem (phase.trans phase'.symm) same.symm
  refine ⟨occurs.place.trans occurs'.place.symm, ?_⟩
  simpa using occurs.kind_eq.symm.trans occurs'.kind_eq

namespace Sound

theorem find?_partitionResizes (h : s.Sound replaced) {test : Resize → Bool} {r : Resize}
    (hr : s.Resizing r.place r.sid r.mode) (ht : test r = true)
    (only : ∀ r', test r' = true → r'.sid = r.sid) :
    (partitionResizes s.actions).find? test = some r := by
  obtain ⟨r', hr'⟩ := Option.isSome_iff_exists.1 <|
    List.find?_isSome.2 ⟨r, h.mem_partitionResizes.2 hr, ht⟩
  have found := h.mem_partitionResizes.1 (List.mem_of_find?_eq_some hr')
  rw [only r' (List.find?_some hr')] at found
  obtain ⟨place, mode⟩ := Resizing.unique h hr found
  have sid := only r' (List.find?_some hr')
  rw [hr']
  cases r
  cases r'
  simp_all

/-- A partition that stays is resized exactly if its length changes. -/
theorem exists_resizing_iff (h : s.Sound replaced) {sid : Sid} {mode : ResizeMode}
    {old new : Device} {o n : Partition} (stays : Stays s.lhs s.rhs replaced sid old new)
    (ho : old.attributes = .partition o) (hn : new.attributes = .partition n) :
    (∃ i, s.Resizing i sid mode) ↔
      ResizeMode.between? o.region.length n.region.length = some mode := by
  constructor
  · rintro ⟨i, hi⟩
    obtain ⟨old', new', o', n', stays', ho', hn', between⟩ := hi.stays h
    obtain rfl := Option.some.inj (stays.before.symm.trans stays'.before)
    obtain rfl := Option.some.inj (stays.after.symm.trans stays'.after)
    rw [ho] at ho'
    rw [hn] at hn'
    cases ho'
    cases hn'
    exact between
  · intro between
    have first := getElem?_partitionChanges.2 ⟨rfl, between⟩
    have serves : Serves s.lhs s.rhs replaced (.change, sid, partitionChanges o n) :=
      ⟨old, new, stays, by rw [changeKinds, ho, hn]⟩
    obtain ⟨c, hc, kinds_eq⟩ := h.exists_chain serves (List.ne_nil_of_mem (List.mem_of_getElem? first))
    obtain ⟨mem, _, rfl⟩ := h.find?_chains.1 hc
    exact ⟨_, c, 0, ⟨mem, kinds_eq ▸ first, rfl⟩, rfl⟩

theorem resizes?_eq_some (h : s.Sound replaced) {sid : Sid} {mode : ResizeMode} {i : Nat} :
    s.resizes? sid mode = some i ↔ s.Resizing i sid mode := by
  unfold resizes?
  rw [Option.map_eq_some_iff]
  constructor
  · rintro ⟨r, hr, rfl⟩
    have found := h.mem_partitionResizes.1 (List.mem_of_find?_eq_some hr)
    obtain ⟨rfl, rfl⟩ : r.sid = sid ∧ r.mode = mode := by simpa using List.find?_some hr
    exact found
  · intro hr
    refine ⟨⟨sid, mode, i⟩, h.find?_partitionResizes hr (by simp) fun r' ht => ?_, rfl⟩
    exact (by simpa using ht : r'.sid = sid ∧ r'.mode = mode).1

theorem mem_frees (h : s.Sound replaced) {sid : Sid} {i : Nat} : i ∈ s.frees sid ↔
    (∃ c, s.deletes? sid = some c ∧ c.last = i) ∨ s.Resizing i sid .shrink := by
  simp only [frees, List.mem_append, Option.mem_toList, Option.map_eq_some_iff, h.resizes?_eq_some]

theorem mem_uses (h : s.Sound replaced) {sid : Sid} {i : Nat} : i ∈ s.uses sid ↔
    (∃ c, s.creates? sid = some c ∧ c.first = i) ∨ s.Resizing i sid .grow := by
  simp only [uses, List.mem_append, Option.mem_toList, Option.map_eq_some_iff, h.resizes?_eq_some]

end Sound

theorem mem_allBefore {before after : List Nat} {i j : Nat} :
    (i, j) ∈ allBefore before after ↔ i ∈ before ∧ j ∈ after := by
  simp [allBefore]

/-- Every extended partition is found. -/
theorem extendedPartitions_spec {g : Devicegraph} (h : g.Valid) :
    ∃ l, extendedPartitions g = .ok l ∧ ∀ sid, sid ∈ l ↔ g.IsExtended sid := by
  have isTable : ∀ {table}, table ∈ g.allOfKind .partitionTable →
      ∃ t, g.partitionTable table = .ok t := by
    intro table hm
    obtain ⟨d, hd, hk⟩ := Devicegraph.mem_allOfKind.1 hm
    obtain ⟨t, ha⟩ := Devicegraph.attributes_of_isPartitionTable hk
    exact ⟨t, Devicegraph.partitionTable_eq_ok.2 ⟨d, hd, ha⟩⟩
  obtain ⟨l, hl⟩ := mapM_total fun table hm => h.extendedPartition_total (isTable hm).choose_spec
  refine ⟨l.filterMap id, by simp only [extendedPartitions, hl]; rfl, fun sid => ?_⟩
  simp only [List.mem_filterMap, id, exists_eq_right, mem_mapM hl]
  constructor
  · rintro ⟨table, _, he⟩
    obtain ⟨p, _, hp, hk⟩ := h.of_extendedPartition he
    exact ⟨p, hp, hk⟩
  · rintro ⟨p, hp, hk⟩
    obtain ⟨d, hd, ha⟩ := Devicegraph.partition_eq_ok.1 hp
    obtain ⟨table, t, ht, htable⟩ := h.exists_table hd (Devicegraph.isPartition_of_attributes ha)
    obtain ⟨td, htd, hta⟩ := Devicegraph.partitionTable_eq_ok.1 htable
    refine ⟨table, Devicegraph.mem_allOfKind.2 ⟨td, htd, by rw [Device.kind, hta]; rfl⟩, ?_⟩
    exact (h.extendedPartition_eq_ok htable).2 ⟨p, ht, hp, hk⟩

/-! ### The rules -/

namespace Sound

theorem creationOrder_spec (h : s.Sound replaced) : ∃ l, s.creationOrder = .ok l ∧
    ∀ d, d ∈ l ↔ ∃ c ∈ s.chains.filter fun c => c.phase == .create, ∃ parent above,
      s.rhs.parent? c.sid = some parent ∧ s.creates? parent = some above ∧
        (above.last, c.first) = d := by
  refine flatMapM_spec fun c hc => ?_
  obtain ⟨mem, phase⟩ := List.mem_filter.1 hc
  obtain ⟨new, comes, _⟩ := h.of_creates? (h.find?_chains.2 ⟨mem, by simpa using phase, rfl⟩)
  rw [h.rhs.parents_eq comes.after]
  refine ⟨_, rfl, fun d => ?_⟩
  simp [List.mem_filterMap]

theorem deletionOrder_spec (h : s.Sound replaced) : ∃ l, s.deletionOrder = .ok l ∧
    ∀ d, d ∈ l ↔ ∃ c ∈ s.chains.filter fun c => c.phase == .delete,
      (∃ parent above, s.lhs.parent? c.sid = some parent ∧ s.deletes? parent = some above ∧
        (c.last, above.first) = d) ∨
      ∃ again, s.creates? c.sid = some again ∧ (c.last, again.first) = d := by
  refine flatMapM_spec fun c hc => ?_
  obtain ⟨mem, phase⟩ := List.mem_filter.1 hc
  obtain ⟨old, goes, _⟩ := h.of_deletes? (h.find?_chains.2 ⟨mem, by simpa using phase, rfl⟩)
  rw [h.lhs.parents_eq goes.before]
  refine ⟨_, rfl, fun d => ?_⟩
  simp [List.mem_filterMap]

theorem spaceOrder_spec (h : s.Sound replaced) : ∃ l, s.spaceOrder = .ok l ∧
    ∀ d, d ∈ l ↔ ∃ parent ∈ s.lhs.devices.filter fun d => s.rhs.contains d.sid,
      (∃ x, s.lhs.parent? x = some parent.sid ∧ d.1 ∈ s.frees x) ∧
        ∃ y, s.rhs.parent? y = some parent.sid ∧ d.2 ∈ s.uses y := by
  refine flatMapM_spec fun parent hp => ?_
  obtain ⟨hl, hr⟩ := List.mem_filter.1 hp
  obtain ⟨new, hn⟩ := Devicegraph.contains_iff.1 hr
  obtain ⟨before, hb⟩ := Devicegraph.children_total (Devicegraph.mem_devices.1 hl)
  obtain ⟨after, ha⟩ := Devicegraph.children_total hn
  rw [hb, ha]
  refine ⟨_, rfl, fun ⟨i, j⟩ => ?_⟩
  simp only [mem_allBefore, List.mem_flatMap, h.lhs.mem_children hb, h.rhs.mem_children ha]

theorem followOrder_spec (h : s.Sound replaced) : ∃ l, s.followOrder = .ok l ∧
    ∀ d, d ∈ l ↔ ∃ fs ∈ filesystemResizes s.actions, ∃ device mode place,
      s.rhs.parent? fs.sid = some device ∧ s.Resizing place device mode ∧
        (fs.mode = .grow ∧ d = (place, fs.place) ∨ fs.mode = .shrink ∧ d = (fs.place, place)) := by
  refine flatMapM_spec fun fs hfs => ?_
  obtain ⟨c, k, occurs, sid⟩ := h.mem_filesystemResizes.1 hfs
  obtain ⟨_, old, new, o, n, stays, _, hn, _⟩ := occurs.resizeFilesystem h
  rw [sid] at stays
  obtain ⟨device, hd⟩ := h.rhs.exists_parent stays.after (by rw [Device.kind, hn]; simp [Attributes.kind])
  have found := Devicegraph.filesystem_eq_ok.2 ⟨new, stays.after, hn⟩
  rw [(Devicegraph.Valid.filesystemBlkDevice_eq_ok found).2 hd]
  refine ⟨_, rfl, fun d => ?_⟩
  simp only [hd, Option.some.injEq, ↓existsAndEq, true_and]
  split
  · next none =>
    simp only [List.not_mem_nil, false_iff, not_exists, not_and]
    intro mode place resizing
    have found : (partitionResizes s.actions).find? (fun p => p.sid == device) =
        some ⟨device, mode, place⟩ := h.find?_partitionResizes resizing (by simp) (by simp)
    rw [none] at found
    cases found
  · next p some =>
    have resizing := h.mem_partitionResizes.1 (List.mem_of_find?_eq_some some)
    obtain rfl : p.sid = device := by simpa using List.find?_some some
    have only : ∀ {mode place}, s.Resizing place p.sid mode ↔ place = p.place ∧ mode = p.mode :=
      ⟨fun hr => Resizing.unique h hr resizing, by rintro ⟨rfl, rfl⟩; exact resizing⟩
    cases hm : fs.mode <;> simp [only]

theorem aroundResizes_spec (h : s.Sound replaced) : ∃ l, s.aroundResizes = .ok l ∧
    ∀ d, d ∈ l ↔ ∃ p ∈ partitionResizes s.actions,
      (∃ x c, s.lhs.parent? x = some p.sid ∧ s.deletes? x = some c ∧ (c.last, p.place) = d) ∨
        ∃ x c, s.rhs.parent? x = some p.sid ∧ s.creates? x = some c ∧ (p.place, c.first) = d := by
  refine flatMapM_spec fun p hp => ?_
  obtain ⟨c, k, occurs, sid⟩ := h.mem_partitionResizes.1 hp
  obtain ⟨_, _, old, new, _, _, stays, _⟩ := occurs.resizePartition h
  rw [sid] at stays
  obtain ⟨before, hb⟩ := Devicegraph.children_total stays.before
  obtain ⟨after, ha⟩ := Devicegraph.children_total stays.after
  rw [hb, ha]
  refine ⟨_, rfl, fun d => ?_⟩
  simp only [List.mem_append, List.mem_map, List.mem_filterMap, h.lhs.mem_children hb,
    h.rhs.mem_children ha]
  constructor
  · rintro (⟨c, ⟨x, hx, hc⟩, rfl⟩ | ⟨c, ⟨x, hx, hc⟩, rfl⟩)
    · exact .inl ⟨x, c, hx, hc, rfl⟩
    · exact .inr ⟨x, c, hx, hc, rfl⟩
  · rintro (⟨x, c, hx, hc, rfl⟩ | ⟨x, c, hx, hc, rfl⟩)
    · exact .inl ⟨c, ⟨x, hx, hc⟩, rfl⟩
    · exact .inr ⟨c, ⟨x, hx, hc⟩, rfl⟩

theorem beforeExtended_spec (h : s.Sound replaced) : ∃ l, s.beforeExtended = .ok l ∧
    ∀ d, d ∈ l ↔ ∃ x extended, s.lhs.LogicalIn x extended ∧ d.1 ∈ s.frees x ∧
      ((∃ c, s.deletes? extended = some c ∧ c.first = d.2) ∨
        s.Resizing d.2 extended .shrink) := by
  obtain ⟨all, hall, mem⟩ := extendedPartitions_spec h.lhs
  obtain ⟨l, hl, spec⟩ := flatMapM_spec (l := all) (P := fun extended (d : Nat × Nat) =>
      (∃ x, s.lhs.LogicalIn x extended ∧ d.1 ∈ s.frees x) ∧
        ((∃ c, s.deletes? extended = some c ∧ c.first = d.2) ∨ s.Resizing d.2 extended .shrink))
    (f := fun extended => do
      let logicals := (← s.lhs.logicalPartitionsOf extended).flatMap s.frees
      return allBefore logicals <|
        ((s.deletes? extended).map Chain.first).toList ++ (s.resizes? extended .shrink).toList)
    fun extended he => by
      obtain ⟨logicals, hlog, memlog⟩ := h.lhs.logicalPartitionsOf_spec ((mem extended).1 he)
      refine ⟨_, by rw [hlog]; rfl, fun ⟨i, j⟩ => ?_⟩
      simp only [mem_allBefore, List.mem_flatMap, memlog, List.mem_append, Option.mem_toList,
        Option.map_eq_some_iff, h.resizes?_eq_some]
  refine ⟨l, by simp only [beforeExtended, hall]; exact hl, fun d => (spec d).trans ?_⟩
  constructor
  · rintro ⟨extended, _, ⟨x, hx, hi⟩, hj⟩
    exact ⟨x, extended, hx, hi, hj⟩
  · rintro ⟨x, extended, hx, hi, hj⟩
    exact ⟨extended, (mem extended).2 hx.isExtended, ⟨x, hx, hi⟩, hj⟩

theorem afterExtended_spec (h : s.Sound replaced) : ∃ l, s.afterExtended = .ok l ∧
    ∀ d, d ∈ l ↔ ∃ x extended, s.rhs.LogicalIn x extended ∧
      ((∃ c, s.creates? extended = some c ∧ c.last = d.1) ∨ s.Resizing d.1 extended .grow) ∧
        d.2 ∈ s.uses x := by
  obtain ⟨all, hall, mem⟩ := extendedPartitions_spec h.rhs
  obtain ⟨l, hl, spec⟩ := flatMapM_spec (l := all) (P := fun extended (d : Nat × Nat) =>
      ((∃ c, s.creates? extended = some c ∧ c.last = d.1) ∨ s.Resizing d.1 extended .grow) ∧
        ∃ x, s.rhs.LogicalIn x extended ∧ d.2 ∈ s.uses x)
    (f := fun extended => do
      let logicals := (← s.rhs.logicalPartitionsOf extended).flatMap s.uses
      return allBefore (((s.creates? extended).map Chain.last).toList ++
        (s.resizes? extended .grow).toList) logicals)
    fun extended he => by
      obtain ⟨logicals, hlog, memlog⟩ := h.rhs.logicalPartitionsOf_spec ((mem extended).1 he)
      refine ⟨_, by rw [hlog]; rfl, fun ⟨i, j⟩ => ?_⟩
      simp only [mem_allBefore, List.mem_flatMap, memlog, List.mem_append, Option.mem_toList,
        Option.map_eq_some_iff, h.resizes?_eq_some]
  refine ⟨l, by simp only [afterExtended, hall]; exact hl, fun d => (spec d).trans ?_⟩
  constructor
  · rintro ⟨extended, _, hi, x, hx, hj⟩
    exact ⟨x, extended, hx, hi, hj⟩
  · rintro ⟨x, extended, hx, hi, hj⟩
    exact ⟨extended, (mem extended).2 hx.isExtended, hi, x, hx, hj⟩

end Sound

/-! ### All rules -/

/-- One place comes before another by one of the rules. -/
inductive Precedes (s : Setting) : Nat → Nat → Prop
  /-- The actions of a chain go in order. -/
  | link {c : Chain} {k : Nat} (hc : c ∈ s.chains) (hk : k + 1 < c.kinds.length) :
      Precedes s (c.first + k) (c.first + k + 1)
  /-- A parent is created before its child. -/
  | creation {sid parent : Sid} {c above : Chain} (hc : s.creates? sid = some c)
      (hp : s.rhs.parent? sid = some parent) (ha : s.creates? parent = some above) :
      Precedes s above.last c.first
  /-- A parent is deleted after its child. -/
  | deletion {sid parent : Sid} {c above : Chain} (hc : s.deletes? sid = some c)
      (hp : s.lhs.parent? sid = some parent) (ha : s.deletes? parent = some above) :
      Precedes s c.last above.first
  /-- A replaced device is deleted before it is created again. -/
  | again {sid : Sid} {c c' : Chain} (hc : s.deletes? sid = some c)
      (hc' : s.creates? sid = some c') : Precedes s c.last c'.first
  /-- On one device, space is freed before any is used. -/
  | space {parent x y : Sid} {i j : Nat} (hx : s.lhs.parent? x = some parent)
      (hy : s.rhs.parent? y = some parent) (hi : i ∈ s.frees x) (hj : j ∈ s.uses y) :
      Precedes s i j
  /-- A filesystem grows after its partition. -/
  | grow {sid device : Sid} {mode : ResizeMode} {i j : Nat}
      (hd : s.rhs.parent? sid = some device) (hi : s.Resizing i device mode)
      (hj : s.Following j sid .grow) : Precedes s i j
  /-- A filesystem shrinks before its partition. -/
  | shrink {sid device : Sid} {mode : ResizeMode} {i j : Nat}
      (hd : s.rhs.parent? sid = some device) (hi : s.Following i sid .shrink)
      (hj : s.Resizing j device mode) : Precedes s i j
  /-- What is deleted from a resized partition goes before the resize. -/
  | gone {x sid : Sid} {mode : ResizeMode} {c : Chain} {j : Nat}
      (hx : s.lhs.parent? x = some sid) (hc : s.deletes? x = some c)
      (hj : s.Resizing j sid mode) : Precedes s c.last j
  /-- What is created on a resized partition comes after the resize. -/
  | made {x sid : Sid} {mode : ResizeMode} {c : Chain} {i : Nat}
      (hx : s.rhs.parent? x = some sid) (hi : s.Resizing i sid mode)
      (hc : s.creates? x = some c) : Precedes s i c.first
  /-- Logical partitions are deleted or shrunk before their extended partition. -/
  | beforeExtended {x extended : Sid} {i j : Nat} (hx : s.lhs.LogicalIn x extended)
      (hi : i ∈ s.frees x)
      (hj : (∃ c, s.deletes? extended = some c ∧ c.first = j) ∨ s.Resizing j extended .shrink) :
      Precedes s i j
  /-- Logical partitions are created or grown after their extended partition. -/
  | afterExtended {x extended : Sid} {i j : Nat} (hx : s.rhs.LogicalIn x extended)
      (hi : (∃ c, s.creates? extended = some c ∧ c.last = i) ∨ s.Resizing i extended .grow)
      (hj : j ∈ s.uses x) : Precedes s i j
  /-- Mounts and unmounts go by their paths. -/
  | mounting {i j : Nat} (h : (i, j) ∈ s.mountOrder) : Precedes s i j

namespace Sound

theorem mem_links {c : Chain} {d : Nat × Nat} :
    d ∈ c.links ↔ ∃ k, k + 1 < c.kinds.length ∧ (c.first + k, c.first + k + 1) = d := by
  simp only [Chain.links, List.mem_map, List.mem_range, Nat.lt_sub_iff_add_lt]

/-- The rules never fail, and give the pairs that `Precedes` lists. -/
theorem dependencies_spec (h : s.Sound replaced) : ∃ l, s.dependencies = .ok l ∧
    ∀ i j, (i, j) ∈ l ↔ s.Precedes i j := by
  obtain ⟨creation, hcreation, creation_iff⟩ := h.creationOrder_spec
  obtain ⟨deletion, hdeletion, deletion_iff⟩ := h.deletionOrder_spec
  obtain ⟨space, hspace, space_iff⟩ := h.spaceOrder_spec
  obtain ⟨follow, hfollow, follow_iff⟩ := h.followOrder_spec
  obtain ⟨around, haround, around_iff⟩ := h.aroundResizes_spec
  obtain ⟨before, hbefore, before_iff⟩ := h.beforeExtended_spec
  obtain ⟨after, hafter, after_iff⟩ := h.afterExtended_spec
  have collected : s.dependencies = .ok (s.chains.flatMap Chain.links ++ creation ++ deletion ++
      space ++ follow ++ around ++ before ++ after ++ s.mountOrder).eraseDups := by
    rw [dependencies, hcreation, hdeletion, hspace, hfollow, haround, hbefore, hafter]
    rfl
  refine ⟨_, collected, fun i j => ?_⟩
  simp only [List.mem_eraseDups, List.mem_append]
  constructor
  · simp only [List.mem_flatMap, mem_links, creation_iff, deletion_iff, space_iff, follow_iff,
      around_iff, before_iff, after_iff, Prod.mk.injEq]
    rintro ((((((((hl | hc) | hd) | hs) | hf) | ha) | hb) | haf) | hm)
    · obtain ⟨c, hc, k, hk, rfl, rfl⟩ := hl
      exact .link hc hk
    · obtain ⟨c, hc, parent, above, hp, ha, rfl, rfl⟩ := hc
      obtain ⟨mem, phase⟩ := List.mem_filter.1 hc
      exact .creation (h.find?_chains.2 ⟨mem, by simpa using phase, rfl⟩) hp ha
    · obtain ⟨c, hc, hd⟩ := hd
      obtain ⟨mem, phase⟩ := List.mem_filter.1 hc
      have deletes := h.find?_chains.2 ⟨mem, by simpa using phase, rfl⟩
      rcases hd with ⟨parent, above, hp, ha, rfl, rfl⟩ | ⟨again, ha, rfl, rfl⟩
      · exact .deletion deletes hp ha
      · exact .again deletes ha
    · obtain ⟨parent, _, ⟨x, hx, hi⟩, y, hy, hj⟩ := hs
      exact .space hx hy hi hj
    · obtain ⟨fs, hfs, device, mode, place, hd, hp, ⟨hm, rfl, rfl⟩ | ⟨hm, rfl, rfl⟩⟩ := hf
      · exact .grow hd hp (hm ▸ h.mem_filesystemResizes.1 hfs)
      · exact .shrink hd (hm ▸ h.mem_filesystemResizes.1 hfs) hp
    · obtain ⟨p, hp, ⟨x, c, hx, hc, rfl, rfl⟩ | ⟨x, c, hx, hc, rfl, rfl⟩⟩ := ha
      · exact .gone hx hc (h.mem_partitionResizes.1 hp)
      · exact .made hx (h.mem_partitionResizes.1 hp) hc
    · obtain ⟨x, extended, hx, hi, hj⟩ := hb
      exact .beforeExtended hx hi hj
    · obtain ⟨x, extended, hx, hi, hj⟩ := haf
      exact .afterExtended hx hi hj
    · exact .mounting hm
  · intro hp
    cases hp with
    | @link c k hc hk =>
      have mem : (c.first + k, c.first + k + 1) ∈ s.chains.flatMap Chain.links :=
        List.mem_flatMap.2 ⟨c, hc, mem_links.2 ⟨k, hk, rfl⟩⟩
      simp only [mem, true_or]
    | creation hc hp ha =>
      obtain ⟨mem, phase, rfl⟩ := h.find?_chains.1 hc
      have mem := (creation_iff _).2
        ⟨_, List.mem_filter.2 ⟨mem, by simp [phase]⟩, _, _, hp, ha, rfl⟩
      simp only [mem, true_or, or_true]
    | deletion hc hp ha =>
      obtain ⟨mem, phase, rfl⟩ := h.find?_chains.1 hc
      have mem := (deletion_iff _).2
        ⟨_, List.mem_filter.2 ⟨mem, by simp [phase]⟩, .inl ⟨_, _, hp, ha, rfl⟩⟩
      simp only [mem, true_or, or_true]
    | again hc hc' =>
      obtain ⟨mem, phase, rfl⟩ := h.find?_chains.1 hc
      have mem := (deletion_iff _).2
        ⟨_, List.mem_filter.2 ⟨mem, by simp [phase]⟩, .inr ⟨_, hc', rfl⟩⟩
      simp only [mem, true_or, or_true]
    | @space parent x y i j hx hy hi hj =>
      obtain ⟨old, ho⟩ := h.lhs.parent_found hx
      obtain ⟨new, hn⟩ := h.rhs.parent_found hy
      obtain rfl := Devicegraph.sid_of_find? ho
      have mem := (space_iff (i, j)).2 ⟨old, List.mem_filter.2 ⟨Devicegraph.mem_devices.2 ho,
        Devicegraph.contains_iff.2 ⟨new, hn⟩⟩, ⟨x, hx, hi⟩, y, hy, hj⟩
      simp only [mem, true_or, or_true]
    | @grow sid device mode i j hd hi hj =>
      have mem := (follow_iff _).2 ⟨⟨sid, .grow, j⟩, h.mem_filesystemResizes.2 hj, device, mode, i,
        hd, hi, .inl ⟨rfl, rfl⟩⟩
      simp only [mem, true_or, or_true]
    | @shrink sid device mode i j hd hi hj =>
      have mem := (follow_iff _).2 ⟨⟨sid, .shrink, i⟩, h.mem_filesystemResizes.2 hi, device, mode, j,
        hd, hj, .inr ⟨rfl, rfl⟩⟩
      simp only [mem, true_or, or_true]
    | @gone x sid mode c j hx hc hj =>
      have mem := (around_iff _).2 ⟨⟨sid, mode, j⟩, h.mem_partitionResizes.2 hj,
        .inl ⟨x, c, hx, hc, rfl⟩⟩
      simp only [mem, true_or, or_true]
    | @made x sid mode c i hx hi hc =>
      have mem := (around_iff _).2 ⟨⟨sid, mode, i⟩, h.mem_partitionResizes.2 hi,
        .inr ⟨x, c, hx, hc, rfl⟩⟩
      simp only [mem, true_or, or_true]
    | @beforeExtended x extended i j hx hi hj =>
      have mem := (before_iff (i, j)).2 ⟨x, extended, hx, hi, hj⟩
      simp only [mem, true_or, or_true]
    | @afterExtended x extended i j hx hi hj =>
      have mem := (after_iff (i, j)).2 ⟨x, extended, hx, hi, hj⟩
      simp only [mem, true_or, or_true]
    | mounting mem => simp only [mem, or_true]

end Sound

end Setting

end StoragePlan.Plan
