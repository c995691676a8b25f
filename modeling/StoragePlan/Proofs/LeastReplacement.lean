import Mathlib.Order.Bounds.Basic
import StoragePlan.Proofs.Capacity
import StoragePlan.Proofs.Enclosure

/-!
# No more than has to be replaced

A set of devices that are to be replaced is `Sufficient` if it has all that cannot be changed in
place and, with a device, everything that rests on it and the logical partitions that lie in it. The
search for replaced devices goes through three passes, and no pass looks again at what an earlier one
has found. It finds a sufficient set nevertheless, and the least one (`isLeast_replaced`). What a
plan deletes and creates again is that set, and everything else that is in both devicegraphs is
modified at most (`replaces_between`).
-/

namespace StoragePlan

open Relation Attempt

namespace Plan

/-- The device is in both devicegraphs. -/
def Common (lhs rhs : Devicegraph) (sid : Sid) : Prop :=
  ∃ old new, lhs.find? sid = some old ∧ rhs.find? sid = some new

/-- The device is in both devicegraphs and cannot be changed in place: it moves, or something about
it differs that cannot be changed, or it is a filesystem that cannot follow its partition. -/
def Hindered (lhs rhs : Devicegraph) (sid : Sid) : Prop :=
  ∃ old new, lhs.find? sid = some old ∧ rhs.find? sid = some new ∧
    (lhs.parent? sid ≠ rhs.parent? sid ∨ ¬old.attributes.InPlace new.attributes ∨
      CannotFollow lhs rhs sid)

/-- Devices of both devicegraphs that may be replaced while all others of both stay. -/
structure Sufficient (lhs rhs : Devicegraph) (set : Set Sid) : Prop where
  common : ∀ sid ∈ set, Common lhs rhs sid
  hindered : ∀ sid, Hindered lhs rhs sid → sid ∈ set
  /-- What rests on a device before or after is replaced with it. -/
  resting : ∀ sid ∈ set, ∀ x, Common lhs rhs x → lhs.RestsOn x sid ∨ rhs.RestsOn x sid → x ∈ set
  /-- The logical partitions of an extended one are replaced with it. -/
  logical : ∀ sid ∈ set, ∀ x, Common lhs rhs x → lhs.LogicalIn x sid → x ∈ set

/-- The plan deletes what the device was and later creates what it will be. -/
def Replaces (lhs rhs : Devicegraph) (actions : List Action) (sid : Sid) : Prop :=
  ∃ old new before deletion between creation after,
    lhs.find? sid = some old ∧ rhs.find? sid = some new ∧
    actions = before ++ deletion :: between ++ creation :: after ∧
    (deletion.sid = sid ∧ deletion.kind = removal old.attributes) ∧
    (creation.sid = sid ∧ creation.kind = addition new.attributes)

variable {lhs rhs : Devicegraph} {replaced : List Sid} {sid x : Sid} {old new : Device}

theorem common_iff :
    Common lhs rhs sid ↔ (lhs.contains sid && rhs.contains sid) = true := by
  rw [Bool.and_eq_true, Devicegraph.contains_iff, Devicegraph.contains_iff]
  constructor
  · rintro ⟨old, new, ho, hn⟩
    exact ⟨⟨old, ho⟩, new, hn⟩
  · rintro ⟨⟨old, ho⟩, new, hn⟩
    exact ⟨old, new, ho, hn⟩

/-! ### Obstacles are differences that hinder -/

/-- A filesystem has to follow the partition that it sits on. -/
theorem of_filesystemResize? {n : Filesystem} {mode : ResizeMode} (hn : rhs.filesystem sid = .ok n)
    (h : filesystemResize? lhs rhs sid = .ok (some mode)) : ∃ device po pn,
      rhs.parent? sid = some device ∧ lhs.partition device = .ok po ∧
      rhs.partition device = .ok pn ∧
      ResizeMode.between? po.region.length pn.region.length = some mode := by
  simp only [filesystemResize?, bind_eq_ok, pure_eq_ok] at h
  obtain ⟨device, hd, h⟩ := h
  split at h
  · next po pn hpo hpn =>
    exact ⟨device, po, pn, (Devicegraph.Valid.filesystemBlkDevice_eq_ok hn).1 hd, hpo, hpn, h⟩
  · cases h

theorem ofPartition?_of_inPlace {o n : Partition}
    (h : Attributes.InPlace (.partition o) (.partition n)) : Obstacle.ofPartition? o n = none := by
  obtain ⟨type, name, start, sectorSize⟩ := h
  simp [Obstacle.ofPartition?, type, name, start, sectorSize]

theorem ofResize?_of_follows {fsType : FsType} {resize : Option ResizeMode}
    (h : ∀ mode, resize = some mode → fsType.follows mode = true) :
    Obstacle.ofResize? fsType resize = none := by
  cases resize with
  | none => rfl
  | some mode =>
    have supported := h mode rfl
    cases mode <;> simpa [Obstacle.ofResize?, FsType.follows] using supported

/-- Without a difference that hinders there is no obstacle. -/
theorem obstacle?_eq_none (hl : lhs.Valid) (hr : rhs.Valid) (ho : lhs.find? sid = some old)
    (hn : rhs.find? sid = some new) (parent_eq : lhs.parent? sid = rhs.parent? sid)
    (inPlace : old.attributes.InPlace new.attributes) (follows : ¬CannotFollow lhs rhs sid) :
    obstacle? lhs rhs old new = .ok none := by
  obtain rfl := Devicegraph.sid_of_find? hn
  have unmoved : lhs.parents new.sid = rhs.parents new.sid := by
    rw [hl.parents_eq ho, hr.parents_eq hn, parent_eq]
  simp only [obstacle?, unmoved, hr.parents_eq hn, bind, Except.bind, ne_eq, not_true_eq_false,
    if_false]
  cases ha : old.attributes with
  | disk o =>
    rw [ha] at inPlace
    obtain ⟨n, hb⟩ := inPlace.isDisk
    rw [hb]
    rfl
  | partitionTable o =>
    rw [ha] at inPlace
    obtain ⟨n, hb, type⟩ := inPlace.isTable
    simp [hb, type, pure, Except.pure]
  | partition o =>
    rw [ha] at inPlace
    obtain ⟨n, hb, _⟩ := inPlace.isPartition
    rw [hb] at inPlace
    simp only [hb, ofPartition?_of_inPlace inPlace]
    rfl
  | filesystem o =>
    rw [ha] at inPlace
    obtain ⟨n, hb, type⟩ := inPlace.isFilesystem
    have before := Devicegraph.filesystem_eq_ok.2 ⟨old, ho, ha⟩
    have after := Devicegraph.filesystem_eq_ok.2 ⟨new, hn, hb⟩
    obtain ⟨resize, hresize⟩ := filesystemResize?_total lhs hr after
    have supported : ∀ mode, resize = some mode → n.fsType.follows mode = true := by
      rintro mode rfl
      by_contra unsupported
      obtain ⟨device, po, pn, hd, hpo, hpn, between⟩ := of_filesystemResize? after hresize
      exact follows ⟨o, n, device, po, pn, mode, before, after, hd, hpo, hpn, between,
        .inr (by simpa using unsupported)⟩
    simp only [hb, ← type, hresize, ofResize?_of_follows supported]
    rfl

/-- An obstacle is a difference that hinders. -/
theorem hindered_of_obstacle? (hl : lhs.Valid) (hr : rhs.Valid) (ho : lhs.find? sid = some old)
    (hn : rhs.find? sid = some new) {o : Obstacle} (h : obstacle? lhs rhs old new = .ok (some o)) :
    Hindered lhs rhs sid := by
  refine ⟨old, new, ho, hn, ?_⟩
  by_contra unhindered
  simp only [not_or, not_not] at unhindered
  obtain ⟨parent_eq, inPlace, follows⟩ := unhindered
  rw [obstacle?_eq_none hl hr ho hn parent_eq inPlace follows] at h
  cases h

/-! ### Enough is replaced -/

/-- What is in both devicegraphs and is not replaced stays. -/
theorem Common.stays (common : Common lhs rhs sid) (kept : sid ∉ replaced) :
    ∃ old new, Stays lhs rhs replaced sid old new := by
  obtain ⟨old, new, ho, hn⟩ := common
  exact ⟨old, new, ho, hn, kept⟩

/-- What a device that stays rests on stays, by the devices between them. -/
theorem Settled.stays_of_restsOn (settled : Settled lhs rhs replaced)
    (stays : Stays lhs rhs replaced x old new) (rests : lhs.RestsOn x sid) :
    ∃ o n, Stays lhs rhs replaced sid o n := by
  induction rests using TransGen.head_induction_on generalizing old new with
  | single hp => exact settled.stays_parent stays hp
  | head hp _ ih =>
    obtain ⟨o, n, below⟩ := settled.stays_parent stays hp
    exact ih below

/-- The same for what it is to rest on, since it keeps its parent. -/
theorem Settled.stays_of_restsOn_after (settled : Settled lhs rhs replaced)
    (stays : Stays lhs rhs replaced x old new) (rests : rhs.RestsOn x sid) :
    ∃ o n, Stays lhs rhs replaced sid o n := by
  induction rests using TransGen.head_induction_on generalizing old new with
  | single hp => exact settled.stays_parent stays (settled.parent stays ▸ hp)
  | head hp _ ih =>
    obtain ⟨o, n, below⟩ := settled.stays_parent stays (settled.parent stays ▸ hp)
    exact ih below

theorem sufficient_replaced (hl : lhs.Valid) (hr : rhs.Valid)
    (h : Plan.replaced lhs rhs = .ok replaced) :
    Sufficient lhs rhs {sid | sid ∈ replaced} := by
  have settled := settled_of_replaced hl hr h
  refine ⟨?_, ?_, ?_, ?_⟩
  · intro sid hs
    apply common_iff.2
    simpa using settled.common sid hs
  · rintro sid ⟨old, new, ho, hn, difference⟩
    by_contra kept
    have stays : Stays lhs rhs replaced sid old new := ⟨ho, hn, kept⟩
    rcases difference with moved | differs | stuck
    · exact moved (settled.parent stays)
    · exact differs (settled.inPlace stays)
    · exact stuck.not_stays hl hr h old new stays
  · intro sid hs x common rests
    by_contra kept
    obtain ⟨old, new, stays⟩ := common.stays kept
    obtain ⟨_, _, below⟩ : ∃ o n, Stays lhs rhs replaced sid o n := by
      rcases rests with rests | rests
      · exact settled.stays_of_restsOn stays rests
      · exact settled.stays_of_restsOn_after stays rests
    exact below.kept hs
  · intro sid hs x common hx
    by_contra kept
    obtain ⟨old, new, stays⟩ := common.stays kept
    obtain ⟨_, after⟩ := Devicegraph.contains_iff.1 (settled.common sid hs).2
    obtain ⟨_, extended⟩ := stays_extended hl hr h stays hx after
    exact extended.kept hs

/-! ### Not more than has to be is replaced -/

/-- Each pass of the search only finds what every sufficient set has. -/
theorem Sufficient.of_mem_replaced (hl : lhs.Valid) (hr : rhs.Valid) {set : Set Sid}
    (sufficient : Sufficient lhs rhs set) (h : Plan.replaced lhs rhs = .ok replaced)
    (hs : sid ∈ replaced) : sid ∈ set := by
  obtain ⟨found, logicals, outer, hf, hlog, houter, rfl⟩ := replaced_eq_ok.1 h
  have direct : ∀ sid ∈ found.map fun d => d.1.sid, sid ∈ set := by
    intro sid hs
    obtain ⟨⟨new, o⟩, hm, rfl⟩ := List.mem_map.1 hs
    obtain ⟨hn, old, ho, obstacle⟩ := (mem_hindered hf).1 hm
    exact sufficient.hindered _ (hindered_of_obstacle? hl hr ho hn obstacle)
  have inner : ∀ sid ∈ SidList.union (found.map fun d => d.1.sid)
      (logicals.flatten.filter fun sid => lhs.contains sid && rhs.contains sid), sid ∈ set := by
    intro sid hs
    rcases SidList.mem_union.1 hs with hs | hs
    · exact direct sid hs
    · obtain ⟨hs, common⟩ := List.mem_filter.1 hs
      obtain ⟨l, hlmem, hsl⟩ := List.mem_flatten.1 hs
      obtain ⟨extended, he, hdep⟩ := (mem_mapM hlog).1 hlmem
      have lies := (mem_dependentLogicals hl hdep).1 hsl
      exact sufficient.logical extended (direct extended he) sid (common_iff.2 common) lies
  rcases SidList.mem_union.1 hs with hs | hs
  · exact inner sid hs
  · obtain ⟨hs, common⟩ := List.mem_filter.1 hs
    obtain ⟨l, hlmem, hsl⟩ := List.mem_flatten.1 hs
    obtain ⟨top, htop, hdep⟩ := (mem_mapM houter).1 hlmem
    simp only [dependents, bind_eq_ok, pure_eq_ok] at hdep
    obtain ⟨up, hup, down, hdown, rfl⟩ := hdep
    refine sufficient.resting top (inner top htop) sid (common_iff.2 common) ?_
    rcases List.mem_append.1 hsl with hsl | hsl
    · exact .inr (hr.restsOn_of_mem_descendants hup hsl)
    · exact .inl (hl.restsOn_of_mem_descendants hdown hsl)

/-- The search finds the least sufficient set. -/
theorem isLeast_replaced (hl : lhs.Valid) (hr : rhs.Valid)
    (h : Plan.replaced lhs rhs = .ok replaced) :
    IsLeast {set | Sufficient lhs rhs set} {sid | sid ∈ replaced} :=
  ⟨sufficient_replaced hl hr h, fun _ sufficient _ hs => sufficient.of_mem_replaced hl hr h hs⟩

/-! ### What a plan replaces -/

namespace Realizes

variable {p : Plan} {s : Setting}

/-- A device that stays is modified at most. -/
theorem modify_of_stays (h : Realizes p s replaced) (stays : Stays s.lhs s.rhs replaced sid old new)
    {a : Action} (ha : a ∈ p.actions) (hs : a.sid = sid) : a.kind.actionClass = .modify := by
  obtain ⟨i, c, k, occurs, same⟩ := h.exists_occurs ha
  obtain rfl : c.sid = sid := same.trans hs
  exact h.run.sound.modify_of_stays occurs.mem stays (List.mem_of_getElem? occurs.kind_eq)

theorem replaces_iff (h : Realizes p s replaced) :
    Replaces s.lhs s.rhs p.actions sid ↔ sid ∈ replaced := by
  have sound := h.run.sound
  constructor
  · rintro ⟨old, new, before, deletion, between, creation, after, ho, hn, cut, ⟨hs, hk⟩, _⟩
    by_contra kept
    have mem : deletion ∈ p.actions := by simp [cut]
    have modify := h.modify_of_stays ⟨ho, hn, kept⟩ mem hs
    rw [hk] at modify
    cases ha : old.attributes <;> simp [ha, removal, ActionKind.actionClass] at modify
  · intro hs
    obtain ⟨before, after⟩ := sound.settled.common sid hs
    obtain ⟨old, ho⟩ := Devicegraph.contains_iff.1 before
    obtain ⟨new, hn⟩ := Devicegraph.contains_iff.1 after
    obtain ⟨c, hc, _⟩ := sound.exists_deletes? ⟨ho, .inr hs⟩
    obtain ⟨c', hc', _⟩ := sound.exists_creates? ⟨hn, .inr hs⟩
    have deletion := sound.getElem?_actions.2 ⟨c, _, _, sound.occurs_removal hc ho, rfl⟩
    have creation := sound.getElem?_actions.2 ⟨c', _, _, sound.occurs_addition hc' hn, rfl⟩
    obtain ⟨earlier, between, later, _, cut⟩ := h.exists_cut deletion creation (.again hc hc')
    exact ⟨old, new, _, _, _, _, _, ho, hn, cut, ⟨(sound.find?_chains.1 hc).2.2, rfl⟩,
      (sound.find?_chains.1 hc').2.2, rfl⟩

end Realizes

/-- The devices that a plan between checked devicegraphs deletes and creates again are the least
sufficient set. What else is in both devicegraphs is neither deleted nor created. -/
theorem replaces_between (hl : lhs.check = .ok ()) (hr : rhs.check = .ok ()) :
    ∃ p, between lhs rhs = .ok p ∧
      IsLeast {set | Sufficient lhs rhs set} {sid | Replaces lhs rhs p.actions sid} ∧
      ∀ sid, Common lhs rhs sid → ¬Replaces lhs rhs p.actions sid →
        ∀ a ∈ p.actions, a.sid = sid → a.kind.actionClass = .modify := by
  obtain ⟨p, s, replaced, hp, rfl, rfl, realizes⟩ := between_spec hl hr
  have sound := realizes.run.sound
  refine ⟨p, hp, ?_, ?_⟩
  · have same : {sid | Replaces s.lhs s.rhs p.actions sid} = {sid | sid ∈ replaced} :=
      Set.ext fun _ => realizes.replaces_iff
    rw [same]
    exact isLeast_replaced sound.lhs sound.rhs sound.replaced_eq
  · intro sid common kept a ha hs
    obtain ⟨old, new, stays⟩ := common.stays fun hm => kept (realizes.replaces_iff.2 hm)
    exact realizes.modify_of_stays stays ha hs

/-- A disk whose logical partition has a filesystem and lies in the extended one that starts at the
given sector, beside a primary one. -/
def nested (start : Nat) : Devicegraph :=
  let disk : Disk := { name := "/dev/sda", sizeK := 1048576 }
  let outer : Partition :=
    { name := "/dev/sda1", type := .extended, region := ⟨start, 100000, 512⟩, id := 0x05 }
  let inner : Partition :=
    { name := "/dev/sda5", type := .logical, region := ⟨8192, 8192, 512⟩, id := 0x83 }
  let beside : Partition :=
    { name := "/dev/sda2", type := .primary, region := ⟨200000, 8192, 512⟩, id := 0x83 }
  let devices := (((((Devicegraph.empty.addDevice ⟨1, .disk disk, []⟩).addDevice
    ⟨2, .partitionTable ⟨.msdos⟩, []⟩).addDevice ⟨3, .partition outer, []⟩).addDevice
    ⟨4, .partition beside, []⟩).addDevice ⟨5, .partition inner, []⟩).addDevice
    ⟨6, .filesystem { fsType := .ext4, mountpoints := ["/srv"] }, []⟩
  ((((devices.addEdge 1 2 .user).addEdge 2 3 .subdevice).addEdge 2 4 .subdevice).addEdge
    2 5 .subdevice).addEdge 5 6 .user

/-- An extended partition that starts elsewhere. -/
theorem replaces_nested : ∃ p, between (nested 2048) (nested 4096) = .ok p ∧
    IsLeast {set | Sufficient (nested 2048) (nested 4096) set}
      {sid | Replaces (nested 2048) (nested 4096) p.actions sid} ∧
    ∀ sid, Common (nested 2048) (nested 4096) sid →
      ¬Replaces (nested 2048) (nested 4096) p.actions sid →
      ∀ a ∈ p.actions, a.sid = sid → a.kind.actionClass = .modify :=
  replaces_between (by cbv) (by cbv)

/-- The filesystem is replaced with the logical partition, and that with the extended one. -/
example : Plan.replaced (nested 2048) (nested 4096) = .ok [3, 5, 6] := by cbv

end Plan

end StoragePlan
