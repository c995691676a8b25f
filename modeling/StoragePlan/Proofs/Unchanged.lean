import StoragePlan.Proofs.LeastReplacement

/-!
# Nothing to do

Two devicegraphs are `Alike` if they have the same devices in the same places and nothing differs
that plans are about, which is everything but the attributes of disks and what users attach to
devices. A plan between two devicegraphs has no action, not even one that does nothing, exactly if
they are alike (`empty_between`). Each attribute is looked at in one of two places: some differences
make a device be replaced (`Attributes.InPlace`), the others make it be changed
(`unchanged_of_changeKinds`).
-/

namespace StoragePlan

open Attempt

/-- Nothing differs that plans are about: the kind of device is the same, and so are the attributes
unless it is a disk. -/
def Attributes.Unchanged : Attributes → Attributes → Prop
  | .disk _, .disk _ => True
  | .partitionTable a, .partitionTable b => a = b
  | .partition a, .partition b => a = b
  | .filesystem a, .filesystem b => a = b
  | _, _ => False

theorem Attributes.Unchanged.refl (a : Attributes) : a.Unchanged a := by
  cases a <;> trivial

/-- What has not changed can be changed in place. -/
theorem Attributes.Unchanged.inPlace {a b : Attributes} (h : a.Unchanged b) : a.InPlace b := by
  cases a with
  | disk a =>
    cases b with
    | disk b => trivial
    | _ => exact h
  | partitionTable a =>
    cases b with
    | partitionTable b => exact congrArg PartitionTable.ptType h
    | _ => exact h
  | partition a =>
    cases b with
    | partition b =>
      obtain rfl : a = b := h
      exact ⟨rfl, rfl, rfl, rfl⟩
    | _ => exact h
  | filesystem a =>
    cases b with
    | filesystem b => exact congrArg Filesystem.fsType h
    | _ => exact h

namespace Plan

/-- The same devices are in the same places, and nothing about them differs that plans are about. -/
structure Alike (g h : Devicegraph) : Prop where
  found : ∀ sid, g.contains sid = h.contains sid
  parent : ∀ sid, g.parent? sid = h.parent? sid
  unchanged : ∀ {sid d e}, g.find? sid = some d → h.find? sid = some e →
    d.attributes.Unchanged e.attributes

variable {lhs rhs : Devicegraph} {replaced : List Sid} {sid : Sid} {old new : Device}

theorem Alike.refl (g : Devicegraph) : Alike g g where
  found _ := rfl
  parent _ := rfl
  unchanged hd he := by
    obtain rfl := Option.some.inj (hd.symm.trans he)
    exact .refl _

/-! ### Changes that leave nothing to do -/

theorem between?_eq_none {a b : Nat} : ResizeMode.between? a b = none ↔ a = b := by
  unfold ResizeMode.between?
  split_ifs <;> simp <;> omega

/-- The lengths, ids and flags are all that can be changed in place about a partition. -/
theorem partitionChanges_eq_nil {o n : Partition}
    (inPlace : Attributes.InPlace (.partition o) (.partition n)) :
    partitionChanges o n = [] ↔ o = n := by
  constructor
  · intro nothing
    simp only [partitionChanges, List.append_eq_nil_iff, List.map_eq_nil_iff,
      Option.toList_eq_nil_iff, between?_eq_none, ite_eq_left_iff, reduceCtorEq, imp_false,
      not_not] at nothing
    obtain ⟨⟨length, id⟩, boot⟩ := nothing
    obtain ⟨type, name, start, sectorSize⟩ := inPlace
    have region : o.region = n.region := by
      cases ho : o.region
      cases hn : n.region
      simp_all
    cases o
    cases n
    simp_all
  · rintro rfl
    simp [partitionChanges, between?_eq_none.2 rfl]

/-- All about a filesystem but its type can be changed in place. -/
theorem filesystemChanges_eq_nil {o n : Filesystem} {resize : Option ResizeMode}
    (type : o.fsType = n.fsType) :
    filesystemChanges o n resize = [] ↔ resize = none ∧ o = n := by
  constructor
  · intro nothing
    simp only [filesystemChanges, List.append_eq_nil_iff, List.map_eq_nil_iff,
      Option.toList_eq_nil_iff, ite_eq_left_iff, reduceCtorEq, imp_false, not_not] at nothing
    obtain ⟨⟨⟨⟨⟨_, still⟩, label⟩, uuid⟩, _⟩, mountpoints, mountBy, options⟩ := nothing
    refine ⟨still, ?_⟩
    cases o
    cases n
    simp_all
  · rintro ⟨rfl, rfl⟩
    simp [filesystemChanges]

/-- A device that needs no change has not changed. -/
theorem unchanged_of_changeKinds (inPlace : old.attributes.InPlace new.attributes)
    (h : changeKinds lhs rhs old new = .ok []) : old.attributes.Unchanged new.attributes := by
  unfold changeKinds at h
  split at h
  · next o n ho hn =>
    rw [ho, hn] at inPlace ⊢
    exact (partitionChanges_eq_nil inPlace).1 (Except.ok.inj h)
  · next o n ho hn =>
    rw [ho, hn] at inPlace ⊢
    obtain ⟨resize, _, nothing⟩ := bind_eq_ok.1 h
    exact ((filesystemChanges_eq_nil inPlace).1 (pure_eq_ok.1 nothing)).2
  · next notPartition notFilesystem =>
    cases ho : old.attributes with
    | disk o =>
      rw [ho] at inPlace
      obtain ⟨n, hn⟩ := inPlace.isDisk
      rw [hn]
      trivial
    | partitionTable o =>
      rw [ho] at inPlace
      obtain ⟨n, hn, type⟩ := inPlace.isTable
      rw [hn]
      show o = n
      cases o
      cases n
      simp_all
    | partition o =>
      rw [ho] at inPlace
      obtain ⟨n, hn, _⟩ := inPlace.isPartition
      exact absurd hn (notPartition o n ho)
    | filesystem o =>
      rw [ho] at inPlace
      obtain ⟨n, hn, _⟩ := inPlace.isFilesystem
      exact absurd hn (notFilesystem o n ho)

/-! ### Alike devicegraphs -/

namespace Alike

variable (alike : Alike lhs rhs)

include alike

theorem partition_eq {po pn : Partition} (ho : lhs.partition sid = .ok po)
    (hn : rhs.partition sid = .ok pn) : po = pn := by
  obtain ⟨old, before, oldAttributes⟩ := Devicegraph.partition_eq_ok.1 ho
  obtain ⟨new, after, newAttributes⟩ := Devicegraph.partition_eq_ok.1 hn
  have unchanged := alike.unchanged before after
  rw [oldAttributes, newAttributes] at unchanged
  exact unchanged

/-- No filesystem has to follow its partition. -/
theorem filesystemResize?_eq {resize : Option ResizeMode}
    (h : filesystemResize? lhs rhs sid = .ok resize) : resize = none := by
  simp only [filesystemResize?, bind_eq_ok, pure_eq_ok] at h
  obtain ⟨device, _, rfl⟩ := h
  split
  · next po pn ho hn =>
    rw [alike.partition_eq ho hn]
    exact between?_eq_none.2 rfl
  · rfl

theorem not_hindered (sid : Sid) : ¬Hindered lhs rhs sid := by
  rintro ⟨old, new, ho, hn, moved | differs | stuck⟩
  · exact moved (alike.parent sid)
  · exact differs (alike.unchanged ho hn).inPlace
  · obtain ⟨_, _, device, po, pn, mode, _, _, _, hpo, hpn, between, _⟩ := stuck
    rw [alike.partition_eq hpo hpn, between?_eq_none.2 rfl] at between
    cases between

/-- Nothing is replaced, since no device has to be. -/
theorem replaced_eq (hl : lhs.Valid) (hr : rhs.Valid) (h : Plan.replaced lhs rhs = .ok replaced) :
    replaced = [] := by
  have sufficient : Sufficient lhs rhs ∅ := by
    refine ⟨?_, ?_, ?_, ?_⟩
    · rintro _ ⟨⟩
    · exact fun sid hindered => absurd hindered (alike.not_hindered sid)
    · rintro _ ⟨⟩
    · rintro _ ⟨⟩
  exact List.eq_nil_iff_forall_not_mem.2 fun sid hs => sufficient.of_mem_replaced hl hr h hs

/-- What stays is not changed. -/
theorem changeKinds_eq {kinds : List ActionKind} (ho : lhs.find? sid = some old)
    (hn : rhs.find? sid = some new) (h : changeKinds lhs rhs old new = .ok kinds) : kinds = [] := by
  have unchanged := alike.unchanged ho hn
  have inPlace := unchanged.inPlace
  unfold changeKinds at h
  split at h
  · next o n ho' hn' =>
    rw [ho', hn'] at unchanged inPlace
    obtain rfl := Except.ok.inj h
    exact (partitionChanges_eq_nil inPlace).2 unchanged
  · next o n ho' hn' =>
    rw [ho', hn'] at unchanged inPlace
    obtain ⟨resize, hresize, same⟩ := bind_eq_ok.1 h
    obtain rfl := pure_eq_ok.1 same
    exact (filesystemChanges_eq_nil inPlace).2 ⟨alike.filesystemResize?_eq hresize, unchanged⟩
  · exact (Except.ok.inj h).symm

end Alike

/-! ### Plans without actions -/

namespace Setting.Sound

variable {s : Setting}

theorem actions_eq_nil (h : s.Sound replaced) : s.actions = [] ↔ s.chains = [] := by
  rw [Setting.actions, List.flatMap_eq_nil_iff]
  constructor
  · intro none
    refine List.eq_nil_iff_forall_not_mem.2 fun c hc => ?_
    have nonempty := (h.exists_chain_iff.1 ⟨c, hc, rfl⟩).2
    have length := congrArg List.length (none c hc)
    rw [Chain.length_actions] at length
    exact nonempty (List.eq_nil_of_length_eq_zero length)
  · intro none c hc
    rw [none] at hc
    cases hc

/-- Where nothing differs no chain is needed. -/
theorem chains_of_alike (h : s.Sound replaced) (alike : Alike s.lhs s.rhs) : s.chains = [] := by
  have nothing := alike.replaced_eq h.lhs h.rhs h.replaced_eq
  subst nothing
  refine List.eq_nil_iff_forall_not_mem.2 fun c hc => ?_
  obtain ⟨serves, nonempty⟩ := h.exists_chain_iff.1 ⟨c, hc, rfl⟩
  unfold Chain.source at serves
  cases phase : c.phase with
  | delete =>
    rw [phase] at serves
    obtain ⟨old, ⟨before, gone | member⟩, _⟩ := serves
    · have after := alike.found c.sid ▸ Devicegraph.contains_iff.2 ⟨old, before⟩
      rw [Devicegraph.contains_eq_false.2 gone] at after
      cases after
    · cases member
  | create =>
    rw [phase] at serves
    obtain ⟨new, ⟨after, missing | member⟩, _⟩ := serves
    · have before := (alike.found c.sid).symm ▸ Devicegraph.contains_iff.2 ⟨new, after⟩
      rw [Devicegraph.contains_eq_false.2 missing] at before
      cases before
    · cases member
  | change =>
    rw [phase] at serves
    obtain ⟨old, new, stays, kinds⟩ := serves
    exact nonempty (alike.changeKinds_eq stays.before stays.after kinds)

/-- Where no chain is needed every device stays, and as it is. -/
theorem alike_of_chains (h : s.Sound replaced) (none : s.chains = []) : Alike s.lhs s.rhs := by
  have settled := h.settled
  have unserved : ∀ {x}, Serves s.lhs s.rhs replaced x → x.2.2 = [] := by
    intro x serves
    by_contra nonempty
    obtain ⟨c, hc, _⟩ := h.exists_chain_iff.2 ⟨serves, nonempty⟩
    rw [none] at hc
    cases hc
  have stays_before : ∀ {sid old}, s.lhs.find? sid = some old →
      ∃ new, Stays s.lhs s.rhs replaced sid old new := by
    intro sid old ho
    rcases Settled.stays_or_goes s.rhs replaced ho with stays | goes
    · exact stays
    · have serves : Serves s.lhs s.rhs replaced (.delete, sid, deleteKinds old.attributes) :=
        ⟨old, goes, rfl⟩
      exact absurd (unserved serves) (deleteKinds_ne_nil _)
  have stays_after : ∀ {sid new}, s.rhs.find? sid = some new →
      ∃ old, Stays s.lhs s.rhs replaced sid old new := by
    intro sid new hn
    rcases Settled.stays_or_comes s.lhs replaced hn with stays | comes
    · exact stays
    · have serves : Serves s.lhs s.rhs replaced (.create, sid, createKinds new.attributes) :=
        ⟨new, comes, rfl⟩
      exact absurd (unserved serves) (createKinds_ne_nil _)
  refine ⟨?_, ?_, ?_⟩
  · intro sid
    rw [Bool.eq_iff_iff, Devicegraph.contains_iff, Devicegraph.contains_iff]
    constructor
    · rintro ⟨old, ho⟩
      obtain ⟨new, stays⟩ := stays_before ho
      exact ⟨new, stays.after⟩
    · rintro ⟨new, hn⟩
      obtain ⟨old, stays⟩ := stays_after hn
      exact ⟨old, stays.before⟩
  · intro sid
    refine Option.ext fun parent => ?_
    constructor
    · intro hp
      obtain ⟨old, ho⟩ := h.lhs.child_found hp
      obtain ⟨new, stays⟩ := stays_before ho
      exact settled.parent stays ▸ hp
    · intro hp
      obtain ⟨new, hn⟩ := h.rhs.child_found hp
      obtain ⟨old, stays⟩ := stays_after hn
      exact settled.parent stays ▸ hp
  · intro sid old new ho hn
    obtain ⟨new', stays⟩ := stays_before ho
    obtain rfl := Option.some.inj (hn.symm.trans stays.after)
    obtain ⟨kinds, hkinds⟩ := changeKinds_total h.rhs stays
    have serves : Serves s.lhs s.rhs replaced (.change, sid, kinds) := ⟨old, new, stays, hkinds⟩
    obtain rfl := unserved serves
    exact unchanged_of_changeKinds (settled.inPlace stays) hkinds

end Setting.Sound

namespace Realizes

variable {p : Plan} {s : Setting}

/-- Each action has one place in the order of the plan. -/
theorem actions_perm (h : Realizes p s replaced) : p.actions.Perm p.graph.actions := by
  let action (i : Nat) : Option Action := s.actions[i]?
  have places : (p.order.filter (· < s.actions.length)).Perm (List.range s.actions.length) := by
    refine (List.perm_ext_iff_of_nodup (h.run.once.filter _) List.nodup_range).2 fun i => ?_
    simp only [List.mem_filter, decide_eq_true_eq, List.mem_range]
    exact ⟨And.right, fun lt => ⟨h.complete i lt, lt⟩⟩
  have inRange : (p.order.filter (· < s.actions.length)).filterMap action =
      p.order.filterMap action := by
    rw [List.filterMap_filter]
    refine List.filterMap_congr fun i _ => ?_
    split
    · rfl
    · next out => exact (List.getElem?_eq_none (by simpa using out)).symm
  have layout : (List.range s.actions.length).filterMap action = s.actions := by
    have all : (List.range s.actions.length).map action = s.actions.map some :=
      List.ext_getElem (by simp) (by simp [action])
    calc (List.range s.actions.length).filterMap action
      _ = ((List.range s.actions.length).map action).filterMap id := by simp [List.filterMap_map]
      _ = (s.actions.map some).filterMap id := by rw [all]
      _ = s.actions := by simp [List.filterMap_map]
  rw [Plan.actions, h.actions_eq, ← inRange]
  exact (places.filterMap action).trans (.of_eq layout)

theorem graph_empty_iff (h : Realizes p s replaced) :
    p.graph.actions = [] ↔ Alike s.lhs s.rhs := by
  rw [h.actions_eq, h.run.sound.actions_eq_nil]
  exact ⟨h.run.sound.alike_of_chains, h.run.sound.chains_of_alike⟩

theorem actions_empty_iff (h : Realizes p s replaced) : p.actions = [] ↔ Alike s.lhs s.rhs := by
  rw [← h.graph_empty_iff]
  exact ⟨fun none => (none ▸ h.actions_perm).nil_eq.symm, fun none => (none ▸ h.actions_perm).eq_nil⟩

end Realizes

/-- A plan between checked devicegraphs has no action exactly if they are alike. -/
theorem empty_between (hl : lhs.check = .ok ()) (hr : rhs.check = .ok ()) :
    ∃ p, between lhs rhs = .ok p ∧ (p.isEmpty = true ↔ Alike lhs rhs) ∧
      (p.actions = [] ↔ Alike lhs rhs) := by
  obtain ⟨p, s, replaced, hp, rfl, rfl, realizes⟩ := between_spec hl hr
  refine ⟨p, hp, ?_, realizes.actions_empty_iff⟩
  rw [Plan.isEmpty, List.isEmpty_iff]
  exact realizes.graph_empty_iff

/-- A disk with a filesystem that is mounted at some paths. -/
def mounted (disk : Disk) (mountpoints : List String) : Devicegraph :=
  ((Devicegraph.empty.addDevice ⟨1, .disk disk, []⟩).addDevice
    ⟨2, .filesystem { fsType := .ext4, mountpoints }, []⟩).addEdge 1 2 .user

/-- Another disk with the same filesystem. -/
theorem empty_mounted : ∃ p,
    between (mounted { name := "/dev/sda", sizeK := 1048576 } ["/srv", "/var"])
      (mounted { name := "/dev/vda", sizeK := 2097152 } ["/srv", "/var"]) = .ok p ∧
    (p.isEmpty = true ↔ Alike (mounted { name := "/dev/sda", sizeK := 1048576 } ["/srv", "/var"])
      (mounted { name := "/dev/vda", sizeK := 2097152 } ["/srv", "/var"])) ∧
    (p.actions = [] ↔ Alike (mounted { name := "/dev/sda", sizeK := 1048576 } ["/srv", "/var"])
      (mounted { name := "/dev/vda", sizeK := 2097152 } ["/srv", "/var"])) :=
  empty_between (by cbv) (by cbv)

/-- That the paths are mounted in another order is a change, though nothing is mounted anew. -/
example : (between (mounted { name := "/dev/sda", sizeK := 1048576 } ["/srv", "/var"])
    (mounted { name := "/dev/sda", sizeK := 1048576 } ["/var", "/srv"])).map Plan.actions =
      .ok [⟨2, .updateFstab, true, true⟩] := by cbv

end Plan

end StoragePlan
