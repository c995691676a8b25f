import Mathlib
import StoragePlan.Plan.ActionText
import StoragePlan.Proofs.Hierarchy

/-!
# What plans say

The line for an action names a block device: the partition that the action is about, or the block
device that its device is on. `ActionKind.line?` is the line with that name left open, and `Told`
says which name it is: that of the block device which has the device when the action is carried out,
as `lhs` names it while the device is on its way out or is unmounted, and as `rhs` names it
otherwise.

Which devicegraph an action is told with is decided from its kind and from the sids in `rhs` alone,
and that is enough for all kinds but one. The table of filesystems is updated by chains of all
phases, so when a filesystem goes and `rhs` has something else at its sid, the update is told of
that (`misplaced_entries`).
-/

namespace StoragePlan

/-! ### Block devices -/

/-- The block device that a device is or is on. -/
def Placed.blkDevice? (sid : Sid) (d : Placed) : Option Sid :=
  match d.attributes with
  | .disk _ | .partition _ => some sid
  | .partitionTable _ | .filesystem _ => d.parent

theorem Placed.blkDevice?_eq {sid : Sid} {d e : Placed}
    (kind : d.attributes.kind = e.attributes.kind) (parent : d.parent = e.parent) :
    d.blkDevice? sid = e.blkDevice? sid := by
  obtain ⟨p, a⟩ := d
  obtain ⟨q, b⟩ := e
  cases a <;> cases b <;> first | exact parent | rfl | cases kind

/-- Partition tables and filesystems are on block devices. -/
theorem DeviceKind.blk_of_validParents {child parent : DeviceKind}
    (h : child.validParents.contains parent = true)
    (above : child = .partitionTable ∨ child = .filesystem) :
    parent = .disk ∨ parent = .partition := by
  rcases above with rfl | rfl <;> cases parent <;>
    first | exact .inl rfl | exact .inr rfl | exact absurd h (by decide)

theorem Attributes.Like.name?_eq {a b : Attributes} (h : a.Like b) : b.name? = a.name? := by
  cases a <;> cases b <;> simp_all [Like, name?]

/-- Only disks can change their names in place. -/
theorem Attributes.InPlace.name?_eq {a b : Attributes} (h : a.InPlace b) :
    b.name? = a.name? ∨ ∃ o n, a = .disk o ∧ b = .disk n ∧ o.name ≠ n.name := by
  cases a with
  | disk o =>
    obtain ⟨n, rfl⟩ := h.isDisk
    by_cases same : o.name = n.name
    · exact .inl (by simp [name?, same])
    · exact .inr ⟨o, n, rfl, rfl, same⟩
  | partition o =>
    cases b with
    | partition n => exact .inl (by simp [name?, h.2.1])
    | _ => cases h
  | partitionTable t =>
    obtain ⟨_, rfl, _⟩ := h.isTable
    exact .inl rfl
  | filesystem o =>
    obtain ⟨_, rfl, _⟩ := h.isFilesystem
    exact .inl rfl

theorem Attributes.of_region?_eq_some {a : Attributes} {r : Region} (h : a.region? = some r) :
    ∃ p, a = .partition p ∧ p.region = r := by
  cases a with
  | partition p => exact ⟨p, rfl, Option.some.inj h⟩
  | disk => cases h
  | partitionTable => cases h
  | filesystem => cases h

namespace Machine

variable {g : Devicegraph} {machine : Machine} {sid device : Sid} {d : Device} {name : String}

/-- The block device that a device is or is on, if the device is there. -/
def blkDevice? (machine : Machine) (sid : Sid) : Option Sid :=
  (machine sid).bind (Placed.blkDevice? sid)

/-- The name of a block device, if it is there. -/
def blkName? (machine : Machine) (sid : Sid) : Option String :=
  (machine sid).bind fun d => d.attributes.name?

theorem blkDevice?_of_like (hd : g.find? sid = some d) {p : Placed} (hm : machine sid = some p)
    (parent : p.parent = g.parent? sid) (kind : p.attributes.kind = d.kind) :
    machine.blkDevice? sid = (of g).blkDevice? sid := by
  rw [blkDevice?, blkDevice?, hm, Plan.Run.machine_of_found hd]
  exact Placed.blkDevice?_eq kind parent

theorem blkName?_of_like (hd : g.find? sid = some d) {parent : Option Sid} {a : Attributes}
    (hm : machine sid = some ⟨parent, a⟩) (like : d.attributes.Like a) :
    machine.blkName? sid = (of g).blkName? sid := by
  rw [blkName?, blkName?, hm, Plan.Run.machine_of_found hd]
  exact like.name?_eq

/-- A device is its block device, or sits on it. -/
theorem eq_or_parent_of_blkDevice? (h : (of g).blkDevice? sid = some device) :
    device = sid ∨ g.parent? sid = some device := by
  obtain ⟨p, hp, hb⟩ := Option.bind_eq_some_iff.1 h
  obtain ⟨d, _, rfl⟩ := of_eq_some.1 hp
  unfold Placed.blkDevice? at hb
  split at hb
  · exact .inl (Option.some.inj hb).symm
  · exact .inl (Option.some.inj hb).symm
  · exact .inr hb
  · exact .inr hb

/-- Every device of a valid devicegraph is on a block device or is one. -/
theorem exists_blkDevice (h : g.Valid) (hd : g.find? sid = some d) : ∃ device name,
    (of g).blkDevice? sid = some device ∧ (of g).blkName? device = some name := by
  have itself : ∀ {name}, d.attributes.name? = some name → (of g).blkName? sid = some name := by
    intro name hn
    rw [blkName?, Plan.Run.machine_of_found hd]
    exact hn
  have below : d.kind = .partitionTable ∨ d.kind = .filesystem → ∃ device name,
      g.parent? sid = some device ∧ (of g).blkName? device = some name := by
    intro hk
    have notDisk : d.kind ≠ .disk := by rcases hk with hk | hk <;> simp [hk]
    obtain ⟨device, hp⟩ := h.exists_parent hd notDisk
    obtain ⟨p, hpd⟩ := h.parent_found hp
    obtain ⟨name, hn⟩ : ∃ name, p.attributes.name? = some name := by
      rcases DeviceKind.blk_of_validParents (h.suited hd hpd hp) hk with isDisk | isPartition
      · obtain ⟨a, ha⟩ := Devicegraph.attributes_of_isDisk isDisk
        exact ⟨a.name, by rw [ha]; rfl⟩
      · obtain ⟨q, hq⟩ := Devicegraph.attributes_of_isPartition isPartition
        exact ⟨q.name, by rw [hq]; rfl⟩
    exact ⟨device, name, hp, by rw [blkName?, Plan.Run.machine_of_found hpd]; exact hn⟩
  have placed : (of g).blkDevice? sid = Placed.blkDevice? sid ⟨g.parent? sid, d.attributes⟩ := by
    rw [blkDevice?, Plan.Run.machine_of_found hd]
    rfl
  rw [placed]
  cases ha : d.attributes with
  | disk a => exact ⟨sid, a.name, rfl, itself (by rw [ha]; rfl)⟩
  | partition p => exact ⟨sid, p.name, rfl, itself (by rw [ha]; rfl)⟩
  | partitionTable => exact below (.inl (by rw [Device.kind, ha]; rfl))
  | filesystem => exact below (.inr (by rw [Device.kind, ha]; rfl))

end Machine

/-! ### Lines -/

namespace ActionKind

/-- The kind of device that an action is about. -/
def about : ActionKind → DeviceKind
  | nop => .disk
  | createPartitionTable | deletePartitionTable => .partitionTable
  | createPartition | deletePartition | resizePartition _ | setPartitionId | setBoot => .partition
  | createFilesystem | deleteFilesystem | resizeFilesystem _ | setLabel | setUuid | mount _
  | unmount _ | updateFstab => .filesystem

/-- The line for an action on a device with these attributes, where `name` is the block device that
the device is or is on, and `before` the region that a partition has before the plan. -/
def line? (name : String) (before : Option Region) : ActionKind → Attributes → Option String
  | createPartitionTable, .partitionTable t =>
    some ("Create " ++ s!"{t.ptType.name} partition table on {name}")
  | deletePartitionTable, .partitionTable t =>
    some ("Delete " ++ s!"{t.ptType.name} partition table on {name}")
  | createPartition, .partition p =>
    some s!"Create {p.type.name} partition {name} at {p.region.text}"
  | deletePartition, .partition _ => some ("Delete partition " ++ name)
  | resizePartition mode, .partition p => before.map fun old =>
    s!"{mode.text} partition {name} from {old.text} to {p.region.text}"
  | setPartitionId, .partition p =>
    some (s!"Set id of partition {name} to 0x" ++ Numeral.hex 2 p.id)
  | setBoot, .partition p =>
    some ((if p.boot then "Set" else "Clear") ++ s!" boot flag of partition {name}")
  | createFilesystem, .filesystem fs =>
    let phrase := s!"{fs.fsType.name} on {name}"
    some (s!"Create {phrase}" ++ if fs.label.isEmpty then "" else s!" with label '{fs.label}'")
  | deleteFilesystem, .filesystem fs => some ("Delete " ++ s!"{fs.fsType.name} on {name}")
  | resizeFilesystem mode, .filesystem fs =>
    some (s!"{mode.text} " ++ s!"{fs.fsType.name} on {name}")
  | setLabel, .filesystem fs =>
    let phrase := s!"{fs.fsType.name} on {name}"
    some s!"Set label of {phrase} to '{fs.label}'"
  | setUuid, .filesystem fs =>
    let phrase := s!"{fs.fsType.name} on {name}"
    some (s!"Set UUID of {phrase} to " ++ (fs.uuid.map Uuid.text).getD "a random value")
  | mount path, .filesystem _ =>
    some (if path = swapMountpoint then s!"Activate swap on {name}" else s!"Mount {name} at {path}")
  | unmount path, .filesystem _ =>
    some (if path = swapMountpoint then s!"Deactivate swap on {name}"
      else s!"Unmount {name} at {path}")
  | updateFstab, .filesystem _ => some ("Update fstab entries of " ++ name)
  | _, _ => none

/-- There is a line for every action that fits its device. -/
theorem exists_line (name : String) (before : Option Region) {kind : ActionKind} {a : Attributes}
    (fits : kind.about = a.kind) (does : kind ≠ .nop)
    (region : ∀ mode, kind = .resizePartition mode → ∃ r, before = some r) :
    ∃ line, kind.line? name before a = some line := by
  cases kind <;> cases a <;> first
    | exact absurd rfl does
    | exact ⟨_, rfl⟩
    | obtain ⟨old, rfl⟩ := region _ rfl
      exact ⟨_, rfl⟩
    | cases fits

end ActionKind

namespace Action

variable {g lhs : Devicegraph} {a : Action} {d : Device} {device : Sid} {name line : String}

theorem displayName_of_blkName? (hn : (Machine.of g).blkName? device = some name) :
    g.displayName device = .ok name := by
  obtain ⟨p, hp, hname⟩ := Option.bind_eq_some_iff.1 hn
  obtain ⟨d, hd, rfl⟩ := Machine.of_eq_some.1 hp
  have shown : d.displayName = name := by
    unfold Device.displayName
    cases ha : d.attributes <;> simp_all [Attributes.name?]
  rw [Devicegraph.displayName, Devicegraph.find_eq_ok.2 hd, ← shown]
  rfl

/-- The line for an action that fits its device. -/
theorem textIn_of_line? (hd : g.find? a.sid = some d)
    (hb : (Machine.of g).blkDevice? a.sid = some device)
    (hn : (Machine.of g).blkName? device = some name)
    (hline : a.kind.line? name ((lhs.find? a.sid).bind fun o => o.attributes.region?)
      d.attributes = some line) : a.textIn g lhs = .ok line := by
  have shown := displayName_of_blkName? hn
  rw [Machine.blkDevice?, Plan.Run.machine_of_found hd] at hb
  unfold textIn
  cases ha : d.attributes with
  | disk disk =>
    rw [ha] at hline
    cases hk : a.kind <;> rw [hk] at hline <;> cases hline
  | partitionTable t =>
    have found := Devicegraph.partitionTable_eq_ok.2 ⟨d, hd, ha⟩
    rw [ha] at hline hb
    have below := Devicegraph.singleParent_eq_ok.2 hb
    cases hk : a.kind <;> rw [hk] at hline <;> cases hline <;>
      simp only [Devicegraph.tablePhrase, Devicegraph.partitionTableDisk, found, below, shown, bind,
        Except.bind, pure, Except.pure]
  | partition p =>
    have found := Devicegraph.partition_eq_ok.2 ⟨d, hd, ha⟩
    rw [ha] at hline hb
    obtain rfl := Option.some.inj hb
    obtain rfl : p.name = name := by
      rw [Machine.blkName?, Plan.Run.machine_of_found hd, ha] at hn
      exact Option.some.inj hn
    cases hk : a.kind with
    | resizePartition mode =>
      rw [hk] at hline
      obtain ⟨region, hregion, rfl⟩ := Option.map_eq_some_iff.1 hline
      obtain ⟨o, ho, hregion⟩ := Option.bind_eq_some_iff.1 hregion
      obtain ⟨q, hq, rfl⟩ := Attributes.of_region?_eq_some hregion
      have old := Devicegraph.partition_eq_ok.2 ⟨o, ho, hq⟩
      simp only [found, old, bind, Except.bind, pure, Except.pure]
    | _ =>
      rw [hk] at hline
      cases hline <;> simp only [found, bind, Except.bind, pure, Except.pure]
  | filesystem fs =>
    have found := Devicegraph.filesystem_eq_ok.2 ⟨d, hd, ha⟩
    rw [ha] at hline hb
    have below := Devicegraph.singleParent_eq_ok.2 hb
    have named : g.blkDeviceName a.sid = .ok name := by
      simp only [Devicegraph.blkDeviceName, Devicegraph.filesystemBlkDevice, found, below, shown,
        bind, Except.bind]
    cases hk : a.kind <;> rw [hk] at hline <;> cases hline <;>
      simp only [Devicegraph.filesystemPhrase, found, named, bind, Except.bind, pure, Except.pure]

/-- The first character of the text is a capital letter, or is not. -/
def Begins (capital : Bool) (text : String) : Prop :=
  text.toList.head?.map Char.isUpper = some capital

theorem Begins.append {capital : Bool} {text : String} (h : Begins capital text) (rest : String) :
    Begins capital (text ++ rest) := by
  unfold Begins at h ⊢
  rw [String.toList_append, List.head?_append]
  cases head : text.toList.head? <;> simp_all

/-- Lines begin with capital letters. -/
theorem begins_line {before : Option Region} {attributes : Attributes}
    (h : a.kind.line? name before attributes = some line) : Begins true line := by
  cases hk : a.kind <;> cases attributes <;> rw [hk] at h <;>
    simp only [ActionKind.line?, Option.map_eq_some_iff, Option.some.injEq, reduceCtorEq] at h
  case resizePartition.partition mode p =>
    obtain ⟨old, _, rfl⟩ := h
    repeat with_reducible apply Begins.append
    cases mode <;> exact Eq.refl _
  case resizeFilesystem.filesystem mode fs =>
    subst h
    repeat with_reducible apply Begins.append
    cases mode <;> exact Eq.refl _
  all_goals
    subst h
    try split
  all_goals
    repeat with_reducible apply Begins.append
    exact Eq.refl _

/-- What stands in for a line begins with a small letter. -/
theorem begins_fallbackText (a : Action) : Begins false a.fallbackText := by
  have small : Begins false a.kind.name := by
    unfold ActionKind.name
    split <;> exact Eq.refl _
  exact (small.append _).append _

theorem line_ne_fallbackText {before : Option Region} {attributes : Attributes}
    (h : a.kind.line? name before attributes = some line) : line ≠ a.fallbackText := by
  rintro rfl
  have both := (begins_line h).symm.trans (begins_fallbackText a)
  cases both

end Action

namespace Plan

open Machine Setting

/-! ### The actions of a chain -/

theorem creates_of_addition {a : Attributes} (does : addition a ≠ .nop) :
    (addition a).actionClass = .create := by
  cases a <;> first | rfl | exact absurd rfl does

theorem of_mem_deleteKinds {kind : ActionKind} {a : Attributes} (h : kind ∈ deleteKinds a) :
    kind.about = a.kind ∧ (kind ≠ .nop → kind.usesBaseline = true ∨ kind = .updateFstab) := by
  cases a with
  | filesystem fs =>
    simp only [deleteKinds, fstabKinds, List.mem_append, List.mem_map, List.mem_ite_nil_left,
      List.mem_singleton] at h
    rcases h with (⟨path, _, rfl⟩ | ⟨_, rfl⟩) | rfl
    · exact ⟨rfl, fun _ => .inl rfl⟩
    · exact ⟨rfl, fun _ => .inr rfl⟩
    · exact ⟨rfl, fun _ => .inl rfl⟩
  | _ =>
    obtain rfl := List.mem_singleton.1 h
    first | exact ⟨rfl, fun _ => .inl rfl⟩ | exact ⟨rfl, fun does => absurd rfl does⟩

theorem of_mem_createKinds {kind : ActionKind} {a : Attributes} (h : kind ∈ createKinds a) :
    kind.about = a.kind ∧ kind.usesBaseline = false := by
  cases a with
  | filesystem fs =>
    simp only [createKinds, fstabKinds, List.mem_append, List.mem_map, List.mem_ite_nil_left,
      List.mem_singleton] at h
    rcases h with (rfl | ⟨path, _, rfl⟩) | ⟨_, rfl⟩ <;> exact ⟨rfl, rfl⟩
  | partition p =>
    simp only [createKinds, List.mem_append, List.mem_ite_nil_left, List.mem_ite_nil_right,
      List.mem_singleton] at h
    rcases h with (rfl | ⟨_, rfl⟩) | ⟨_, rfl⟩ <;> exact ⟨rfl, rfl⟩
  | _ =>
    obtain rfl := List.mem_singleton.1 h
    exact ⟨rfl, rfl⟩

theorem about_of_mem_partitionChanges {kind : ActionKind} {o n : Partition}
    (h : kind ∈ partitionChanges o n) : kind.about = .partition := by
  simp only [partitionChanges, List.mem_append, List.mem_map, List.mem_ite_nil_left,
    List.mem_singleton] at h
  rcases h with (⟨mode, _, rfl⟩ | ⟨_, rfl⟩) | ⟨_, rfl⟩ <;> rfl

theorem about_of_mem_filesystemChanges {kind : ActionKind} {o n : Filesystem}
    {resize : Option ResizeMode} (h : kind ∈ filesystemChanges o n resize) :
    kind.about = .filesystem := by
  simp only [filesystemChanges, List.mem_append, List.mem_map, List.mem_ite_nil_left,
    List.mem_singleton] at h
  rcases h with ((((⟨_, _, rfl⟩ | ⟨_, _, rfl⟩) | ⟨_, rfl⟩) | ⟨_, rfl⟩) | ⟨_, _, rfl⟩) | ⟨_, rfl⟩ <;>
    rfl

/-! ### The block device at a moment -/

/-- On the machine the device is on a block device that the devicegraph `g` has it on, too, and
that has the name from there. A disk has it only if it is not named differently in `lhs`, since no
action renames disks. -/
structure Carries (lhs g : Devicegraph) (machine : Machine) (sid device : Sid) (name : String) :
    Prop where
  now : machine.blkDevice? sid = some device
  seen : (Machine.of g).blkDevice? sid = some device
  named : (Machine.of g).blkName? device = some name
  current : machine.blkName? device = some name ∨
    ∃ o n, lhs.disk device = .ok o ∧ g.disk device = .ok n ∧ o.name ≠ n.name

namespace Run

variable {s : Setting} {replaced : List Sid} {done : List Nat} {sid device : Sid} {c : Chain}
  {d old new : Device} {name : String}

/-- A device that stays has its name from `lhs`. -/
theorem blkName?_of_stays (h : Run s replaced done)
    (stays : Stays s.lhs s.rhs replaced device old new) :
    (s.machine done).blkName? device = (Machine.of s.lhs).blkName? device := by
  obtain ⟨a, ha, like⟩ := h.present_of_stays stays
  exact blkName?_of_like stays.before ha like

/-- Only a disk can stay under another name. -/
theorem current_of_stays (h : Run s replaced done)
    (stays : Stays s.lhs s.rhs replaced device old new)
    (hn : (Machine.of s.rhs).blkName? device = some name) :
    (s.machine done).blkName? device = some name ∨
      ∃ o n, s.lhs.disk device = .ok o ∧ s.rhs.disk device = .ok n ∧ o.name ≠ n.name := by
  have before : (Machine.of s.lhs).blkName? device = old.attributes.name? := by
    rw [blkName?, machine_of_found stays.before]
    rfl
  have after : (Machine.of s.rhs).blkName? device = new.attributes.name? := by
    rw [blkName?, machine_of_found stays.after]
    rfl
  rw [h.blkName?_of_stays stays, before, ← hn, after]
  rcases (h.sound.settled.inPlace stays).name?_eq with same | ⟨o, n, ho, hn, ne⟩
  · exact .inl same.symm
  · exact .inr ⟨o, n, Devicegraph.disk_eq_ok.2 ⟨old, stays.before, ho⟩,
      Devicegraph.disk_eq_ok.2 ⟨new, stays.after, hn⟩, ne⟩

/-- A device that goes is where it was until it is gone, and so is its block device. -/
theorem carries_of_pending (h : Run s replaced done)
    (goes : Goes s.lhs s.rhs replaced sid d) (hc : s.deletes? sid = some c)
    (pending : c.last ∉ done) :
    ∃ device name, Carries s.lhs s.lhs (s.machine done) sid device name := by
  obtain ⟨device, name, hb, hn⟩ := exists_blkDevice h.sound.lhs goes.before
  obtain ⟨a, ha, like⟩ := h.present_of_pending goes hc pending
  have now := blkDevice?_of_like goes.before ha rfl like.kind_eq
  have current : (s.machine done).blkName? device = (Machine.of s.lhs).blkName? device := by
    rcases eq_or_parent_of_blkDevice? hb with rfl | hp
    · exact blkName?_of_like goes.before ha like
    · obtain ⟨o, ho⟩ := h.sound.lhs.parent_found hp
      rcases Settled.stays_or_goes s.rhs replaced ho with ⟨n, stays⟩ | above
      · exact h.blkName?_of_stays stays
      · obtain ⟨c', hc', _⟩ := h.sound.exists_deletes? above
        -- The block device goes after what is on it.
        have waits : c'.last ∉ done := fun ended =>
          pending (h.follows.mem_of_mem (.deletion hc hp hc')
            (h.first_of_last (h.sound.find?_chains.1 hc').1 ended))
        obtain ⟨b, hb, like⟩ := h.present_of_pending above hc' waits
        exact blkName?_of_like ho hb like
  exact ⟨device, name, now.trans hb, hb, hn, .inl (current.trans hn)⟩

/-- A device that comes is where it will be once it is there, and so is its block device. -/
theorem carries_of_created (h : Run s replaced done)
    (comes : Comes s.lhs s.rhs replaced sid d) (hc : s.creates? sid = some c)
    (begun : c.first ∈ done) :
    ∃ device name, Carries s.lhs s.rhs (s.machine done) sid device name := by
  obtain ⟨device, name, hb, hn⟩ := exists_blkDevice h.sound.rhs comes.after
  obtain ⟨a, ha, like⟩ := h.present_of_created comes hc begun
  have now := blkDevice?_of_like comes.after ha rfl like.kind_eq
  refine ⟨device, name, now.trans hb, hb, hn, ?_⟩
  rcases eq_or_parent_of_blkDevice? hb with rfl | hp
  · exact .inl ((blkName?_of_like comes.after ha like).trans hn)
  · obtain ⟨n, hnew⟩ := h.sound.rhs.parent_found hp
    rcases Settled.stays_or_comes s.lhs replaced hnew with ⟨o, stays⟩ | below
    · exact h.current_of_stays stays hn
    · obtain ⟨c', hc', _⟩ := h.sound.exists_creates? below
      have ended := h.follows.mem_of_mem (.creation hc hp hc') begun
      have there := h.first_of_last (h.sound.find?_chains.1 hc').1 ended
      obtain ⟨b, hb, like⟩ := h.present_of_created below hc' there
      exact .inl ((blkName?_of_like hnew hb like).trans hn)

/-- The block device of a device that stays, as it was before. -/
theorem carries_before (h : Run s replaced done) (stays : Stays s.lhs s.rhs replaced sid old new) :
    ∃ device name, Carries s.lhs s.lhs (s.machine done) sid device name := by
  obtain ⟨device, name, hb, hn⟩ := exists_blkDevice h.sound.lhs stays.before
  obtain ⟨a, ha, like⟩ := h.present_of_stays stays
  have now := blkDevice?_of_like stays.before ha rfl like.kind_eq
  have current : (s.machine done).blkName? device = (Machine.of s.lhs).blkName? device := by
    rcases eq_or_parent_of_blkDevice? hb with rfl | hp
    · exact h.blkName?_of_stays stays
    · obtain ⟨o, n, below⟩ := h.sound.settled.stays_parent stays hp
      exact h.blkName?_of_stays below
  exact ⟨device, name, now.trans hb, hb, hn, .inl (current.trans hn)⟩

/-- The block device of a device that stays, as it will be. -/
theorem carries_after (h : Run s replaced done) (stays : Stays s.lhs s.rhs replaced sid old new) :
    ∃ device name, Carries s.lhs s.rhs (s.machine done) sid device name := by
  obtain ⟨device, name, hb, hn⟩ := exists_blkDevice h.sound.rhs stays.after
  obtain ⟨a, ha, like⟩ := h.present_of_stays stays
  have parent := h.sound.settled.parent stays
  have kind := (h.sound.settled.inPlace stays).kind_eq
  have now := blkDevice?_of_like stays.after ha parent (like.kind_eq.trans kind.symm)
  refine ⟨device, name, now.trans hb, hb, hn, ?_⟩
  rcases eq_or_parent_of_blkDevice? hb with rfl | hp
  · exact h.current_of_stays stays hn
  · obtain ⟨o, n, below⟩ := h.sound.settled.stays_parent stays (parent.trans hp)
    exact h.current_of_stays below hn

end Run

/-! ### What is told -/

/-- The line tells of the device as `g` has it, and names its block device as `g` does. -/
structure Told (lhs g : Devicegraph) (machine : Machine) (a : Action) (line : String)
    (device : Sid) (name : String) : Prop extends Carries lhs g machine a.sid device name where
  words : ∃ d, g.find? a.sid = some d ∧
    a.kind.line? name ((lhs.find? a.sid).bind fun o => o.attributes.region?) d.attributes =
      some line

theorem Carries.told {lhs rhs g : Devicegraph} {machine : Machine} {a : Action} {device : Sid}
    {name : String} {d : Device} (h : Carries lhs g machine a.sid device name)
    (hd : g.find? a.sid = some d) (fits : a.kind.about = d.kind) (does : a.kind ≠ .nop)
    (region : ∀ mode, a.kind = .resizePartition mode → ∃ o p, lhs.find? a.sid = some o ∧
      o.attributes = .partition p)
    (seen : a.textIn (if a.seenInBaseline rhs then lhs else rhs) lhs = a.textIn g lhs) :
    Told lhs g machine a (a.text lhs rhs) device name := by
  obtain ⟨line, hline⟩ := ActionKind.exists_line name
    ((lhs.find? a.sid).bind fun o => o.attributes.region?) fits does fun mode hk => by
      obtain ⟨o, p, ho, hp⟩ := region mode hk
      exact ⟨p.region, by rw [ho, Option.bind_some, hp]; rfl⟩
  have text : a.text lhs rhs = line := by
    rw [Action.text, seen, Action.textIn_of_line? hd h.seen h.named hline]
  exact ⟨h, d, hd, text ▸ hline⟩

theorem Told.ne_fallbackText {lhs g : Devicegraph} {machine : Machine} {a : Action} {line : String}
    {device : Sid} {name : String} (h : Told lhs g machine a line device name) :
    line ≠ a.fallbackText := by
  obtain ⟨d, _, hline⟩ := h.words
  exact Action.line_ne_fallbackText hline

/-- Of an action and those after it one deletes its device. -/
def ending (a : Action) (later : List Action) : Bool :=
  (a :: later).any fun z => z.sid == a.sid && z.kind.actionClass == .delete

/-- The devices that are there when an action is carried out, with what it creates. -/
def machineAt (lhs rhs : Devicegraph) (earlier : List Action) (a : Action) : Machine :=
  (Machine.of lhs).replay rhs
    (if a.kind.actionClass = .create then earlier ++ [a] else earlier)

namespace Run

variable {s : Setting} {replaced : List Sid} {done : List Nat} {i k : Nat} {c : Chain}
  {kind : ActionKind}

/-- What is said while a device is being deleted. Only the update of its entries may be told with
`rhs`. -/
theorem told_deletion (h : Run s replaced (done ++ [i])) {a : Action}
    (occurs : s.Occurs i c k a.kind) (same : a.sid = c.sid) (phase : c.phase = .delete)
    {old : Device} (goes : Goes s.lhs s.rhs replaced c.sid old)
    (kinds_eq : c.kinds = deleteKinds old.attributes) (does : a.kind ≠ .nop)
    (entries : a.kind = .updateFstab → s.rhs.contains a.sid = true →
      s.rhs.blkDeviceName a.sid = s.lhs.blkDeviceName a.sid) :
    ∃ device name, Told s.lhs s.lhs (s.machine done) a (a.text s.lhs s.rhs) device name := by
  have hc : s.deletes? c.sid = some c := h.sound.find?_chains.2 ⟨occurs.mem, phase, rfl⟩
  obtain ⟨device, name, carries⟩ :=
    h.initial.carries_of_pending goes hc (h.last_notMem occurs hc)
  have mem : a.kind ∈ deleteKinds old.attributes :=
    kinds_eq ▸ List.mem_of_getElem? occurs.kind_eq
  obtain ⟨about, told⟩ := of_mem_deleteKinds mem
  rw [← same] at carries goes
  refine ⟨device, name, carries.told goes.before about does (fun mode resize => ?_) ?_⟩
  · exact absurd (resize ▸ mem) (resizePartition_notMem_deleteKinds _ mode)
  · unfold Action.seenInBaseline
    rcases told does with baseline | fstab
    · rw [baseline, Bool.true_or, if_pos rfl]
    · cases there : s.rhs.contains a.sid with
      | false => rw [Bool.not_false, Bool.or_true, if_pos rfl]
      | true =>
        have named := entries fstab there
        split
        · rfl
        · simp only [Action.textIn, fstab, named]

/-- What is said of a change is told with `lhs` for what ends and with `rhs` for all else. -/
theorem told_change (h : Run s replaced (done ++ [i])) {a : Action}
    {old new : Device} (stays : Stays s.lhs s.rhs replaced a.sid old new)
    (about : a.kind.about = old.kind) (does : a.kind ≠ .nop)
    (region : ∀ mode, a.kind = .resizePartition mode → ∃ p, old.attributes = .partition p) :
    ∃ device name, Told s.lhs (if a.kind.usesBaseline then s.lhs else s.rhs) (s.machine done) a
      (a.text s.lhs s.rhs) device name := by
  have there : s.rhs.contains a.sid = true := Devicegraph.contains_iff.2 ⟨new, stays.after⟩
  have before : ∀ mode, a.kind = .resizePartition mode →
      ∃ o p, s.lhs.find? a.sid = some o ∧ o.attributes = .partition p := by
    intro mode resize
    obtain ⟨p, hp⟩ := region mode resize
    exact ⟨old, p, stays.before, hp⟩
  cases baseline : a.kind.usesBaseline with
  | true =>
    obtain ⟨device, name, carries⟩ := h.initial.carries_before stays
    refine ⟨device, name, carries.told stays.before about does before ?_⟩
    simp [Action.seenInBaseline, baseline]
  | false =>
    obtain ⟨device, name, carries⟩ := h.initial.carries_after stays
    have kind : new.kind = old.kind := (h.sound.settled.inPlace stays).kind_eq
    refine ⟨device, name, carries.told stays.after (about.trans kind.symm) does before ?_⟩
    simp [Action.seenInBaseline, baseline, there]

/-- What is said while a device is being created is told with `rhs`. -/
theorem told_creation (h : Run s replaced (done ++ [i])) {a : Action}
    (occurs : s.Occurs i c k a.kind) (same : a.sid = c.sid) (phase : c.phase = .create)
    {new : Device} (comes : Comes s.lhs s.rhs replaced c.sid new)
    (kinds_eq : c.kinds = createKinds new.attributes) (does : a.kind ≠ .nop) :
    ∃ device name, Told s.lhs s.rhs
      (s.machine (if a.kind.actionClass = .create then done ++ [i] else done)) a
      (a.text s.lhs s.rhs) device name := by
  have hc : s.creates? c.sid = some c := h.sound.find?_chains.2 ⟨occurs.mem, phase, rfl⟩
  have mem : a.kind ∈ createKinds new.attributes :=
    kinds_eq ▸ List.mem_of_getElem? occurs.kind_eq
  obtain ⟨about, baseline⟩ := of_mem_createKinds mem
  have there : s.rhs.contains a.sid = true :=
    Devicegraph.contains_iff.2 ⟨new, same ▸ comes.after⟩
  -- The device is there after the action that brings it, and before all others.
  obtain ⟨device, name, carries⟩ : ∃ device name, Carries s.lhs s.rhs
      (s.machine (if a.kind.actionClass = .create then done ++ [i] else done)) c.sid device name := by
    split
    · exact h.carries_of_created comes hc (h.first_mem occurs)
    · next later =>
      rcases occurs.addition_or_modify kinds_eq with ⟨_, brings⟩ | ⟨lt, _⟩
      · rw [brings] at later does
        exact absurd (creates_of_addition does) later
      · exact h.initial.carries_of_created comes hc (h.first_mem_of_lt occurs lt)
  rw [← same] at carries comes
  refine ⟨device, name, carries.told comes.after about does (fun mode resize => ?_) ?_⟩
  · exact absurd (resize ▸ mem) (resizePartition_notMem_createKinds _ mode)
  · simp [Action.seenInBaseline, baseline, there]

end Run

/-- A device is taken away at the end of the chain that deletes it. -/
theorem Setting.Sound.last_of_delete {s : Setting} {replaced : List Sid} (h : s.Sound replaced)
    {j : Nat} {z : Action} (hz : s.actions[j]? = some z) (takes : z.kind.actionClass = .delete) :
    ∃ c, s.deletes? z.sid = some c ∧ j = c.last := by
  obtain ⟨c, k, kind, occurs, rfl⟩ := h.getElem?_actions.1 hz
  have kept : ∀ {old new}, ¬Stays s.lhs s.rhs replaced c.sid old new := by
    intro old new stays
    have modify := h.modify_of_stays occurs.mem stays (List.mem_of_getElem? occurs.kind_eq)
    exact absurd (takes.symm.trans modify) (by decide)
  cases h.shape occurs.mem with
  | delete phase _ kinds_eq =>
    refine ⟨c, h.find?_chains.2 ⟨occurs.mem, phase, rfl⟩, ?_⟩
    rcases occurs.removal_or_modify kinds_eq with ⟨last, _⟩ | modify
    · exact last
    · exact absurd (takes.symm.trans modify) (by decide)
  | partition _ stays => exact absurd stays kept
  | filesystem _ stays => exact absurd stays kept
  | create _ _ kinds_eq =>
    rcases occurs.addition_or_modify kinds_eq with ⟨_, rfl⟩ | ⟨_, modify⟩
    · unfold addition at takes
      split at takes <;> cases takes
    · exact absurd (takes.symm.trans modify) (by decide)

namespace Realizes

variable {p : Plan} {s : Setting} {replaced : List Sid} {earlier later : List Action} {a : Action}

/-- From an action on its device is deleted if the chain that deletes it has not ended before. -/
theorem ending_iff (h : Realizes p s replaced) {done rest : List Nat} {i : Nat}
    (order_eq : p.order = done ++ i :: rest) (ha : s.actions[i]? = some a) :
    ending a (rest.filterMap fun i => s.actions[i]?) = true ↔ ∃ c old,
      s.deletes? a.sid = some c ∧ c.last ∉ done ∧ s.lhs.find? a.sid = some old ∧
        old.kind ≠ .disk := by
  have sound := h.run.sound
  have actions_eq : a :: rest.filterMap (fun i => s.actions[i]?) =
      (i :: rest).filterMap fun i => s.actions[i]? := by rw [List.filterMap_cons, ha]
  have once : (done ++ i :: rest).Nodup := order_eq ▸ h.run.once
  rw [ending, actions_eq, List.any_eq_true]
  constructor
  · rintro ⟨z, hz, deletes⟩
    simp only [Bool.and_eq_true, beq_iff_eq] at deletes
    obtain ⟨sid, takes⟩ := deletes
    obtain ⟨j, hj, hz⟩ := List.mem_filterMap.1 hz
    obtain ⟨c, hc, rfl⟩ := sound.last_of_delete hz takes
    obtain ⟨old, goes, kinds_eq⟩ := sound.of_deletes? hc
    have removes := sound.occurs_removal hc goes.before
    refine ⟨c, old, sid ▸ hc, fun ended => ?_, sid ▸ goes.before, fun isDisk => ?_⟩
    · exact (List.nodup_append.1 once).2.2 c.last ended c.last hj rfl
    · obtain ⟨c', k, kind, occurs, rfl⟩ := sound.getElem?_actions.1 hz
      obtain ⟨_, _, rfl⟩ := occurs.unique sound removes
      obtain ⟨disk, hdisk⟩ := Devicegraph.attributes_of_isDisk isDisk
      rw [hdisk] at takes
      cases takes
  · rintro ⟨c, old, hc, pending, ho, notDisk⟩
    have removes := sound.occurs_removal hc ho
    have there := sound.getElem?_actions.2 ⟨c, _, _, removes, rfl⟩
    have planned := h.complete c.last (List.getElem?_eq_some_iff.1 there).1
    rw [order_eq] at planned
    have later := (List.mem_append.1 planned).resolve_left pending
    refine ⟨_, List.mem_filterMap.2 ⟨c.last, later, there⟩, ?_⟩
    have takes : (removal old.attributes).actionClass = .delete := by
      unfold Device.kind at notDisk
      cases hk : old.attributes <;> first | rfl | exact absurd (by rw [hk]; rfl) notDisk
    simp [(sound.find?_chains.1 hc).2.2, takes]

/-- What is said of an action names the block device that has its device, unless it is about the
entries of a filesystem that goes and is taken for the device that comes at its sid. -/
theorem told (h : Realizes p s replaced) (cut : p.actions = earlier ++ a :: later)
    (does : a.kind ≠ .nop)
    (entries : a.kind = .updateFstab → ending a later = true → s.rhs.contains a.sid = true →
      s.rhs.blkDeviceName a.sid = s.lhs.blkDeviceName a.sid) :
    ∃ device name, Told s.lhs (if ending a later || a.kind.usesBaseline then s.lhs else s.rhs)
      (machineAt s.lhs s.rhs earlier a) a (a.text s.lhs s.rhs) device name := by
  obtain ⟨done, i, rest, next, order_eq, ha, rfl, rfl⟩ := h.cut_spec cut
  have ending_iff := h.ending_iff order_eq ha
  have sound := h.run.sound
  have moment : machineAt s.lhs s.rhs (done.filterMap fun i => s.actions[i]?) a =
      s.machine (if a.kind.actionClass = .create then done ++ [i] else done) := by
    unfold machineAt Setting.machine
    split
    · simp [List.filterMap_append, ha]
    · rfl
  obtain ⟨c, k, kind, occurs, same⟩ := sound.getElem?_actions.1 ha
  obtain rfl : kind = a.kind := by rw [same]
  have sid : a.sid = c.sid := by rw [same]
  have mem := List.mem_of_getElem? occurs.kind_eq
  have stands : ∀ {old new}, Stays s.lhs s.rhs replaced c.sid old new →
      ending a (rest.filterMap fun i => s.actions[i]?) = false ∧
        a.kind.actionClass ≠ .create := by
    intro old new stays
    refine ⟨Bool.eq_false_iff.2 fun ends => ?_, fun brings => ?_⟩
    · obtain ⟨c', _, hc, _⟩ := ending_iff.1 ends
      obtain ⟨_, goes, _⟩ := sound.of_deletes? (sid ▸ hc)
      exact stays.not_goes goes
    · exact absurd (brings.symm.trans (sound.modify_of_stays occurs.mem stays mem)) (by decide)
  rw [moment]
  cases sound.shape occurs.mem with
  | @delete old phase goes kinds_eq =>
    have hc : s.deletes? c.sid = some c := sound.find?_chains.2 ⟨occurs.mem, phase, rfl⟩
    have notDisk : old.kind ≠ .disk := by
      intro isDisk
      obtain ⟨disk, hdisk⟩ := Devicegraph.attributes_of_isDisk isDisk
      rw [kinds_eq, hdisk] at mem
      exact does (List.mem_singleton.1 mem)
    have ends : ending a (rest.filterMap fun i => s.actions[i]?) = true :=
      ending_iff.2 ⟨c, old, sid ▸ hc, next.last_notMem occurs hc, sid ▸ goes.before, notDisk⟩
    have brings : a.kind.actionClass ≠ .create := by
      rcases occurs.removal_or_modify kinds_eq with ⟨_, removes⟩ | modify
      · rw [removes]
        cases old.attributes <;> simp [removal, ActionKind.actionClass]
      · rw [modify]
        decide
    rw [ends, Bool.true_or, if_pos rfl, if_neg brings]
    exact next.told_deletion occurs sid phase goes kinds_eq does fun fstab => entries fstab ends
  | create phase comes kinds_eq =>
    have hc : s.creates? c.sid = some c := sound.find?_chains.2 ⟨occurs.mem, phase, rfl⟩
    have stays : ending a (rest.filterMap fun i => s.actions[i]?) = false := by
      refine Bool.eq_false_iff.2 fun ends => ?_
      obtain ⟨c', _, hc', pending, _⟩ := ending_iff.1 ends
      exact pending (next.mem_of_precedes (.again (sid ▸ hc') hc) (next.first_mem occurs))
    rw [stays, (of_mem_createKinds (kinds_eq ▸ mem)).2, Bool.or_false,
      if_neg Bool.false_ne_true]
    exact next.told_creation occurs sid phase comes kinds_eq does
  | partition _ stays ho _ kinds_eq =>
    obtain ⟨goesOn, modifies⟩ := stands stays
    rw [goesOn, Bool.false_or, if_neg modifies]
    refine next.told_change (sid ▸ stays) ?_ does fun _ _ => ⟨_, ho⟩
    rw [about_of_mem_partitionChanges (kinds_eq ▸ mem), Device.kind, ho]
    rfl
  | filesystem _ stays ho _ _ kinds_eq =>
    obtain ⟨goesOn, modifies⟩ := stands stays
    have about := about_of_mem_filesystemChanges (kinds_eq ▸ mem)
    rw [goesOn, Bool.false_or, if_neg modifies]
    refine next.told_change (sid ▸ stays) ?_ does fun mode resize => ?_
    · rw [about, Device.kind, ho]
      rfl
    · rw [resize] at about
      cases about

end Realizes

variable {lhs rhs : Devicegraph}

/-- Between checked devicegraphs every action has a line of its own, and that names the block device
which has the device when the action is carried out: with the name from `lhs` as long as the device
is to be deleted, and for what is unmounted, else with the name from `rhs`. The exception is the
update of the entries of a filesystem that goes, when `rhs` has a device at its sid whose block
device is named otherwise. -/
theorem text_between (hl : lhs.check = .ok ()) (hr : rhs.check = .ok ()) :
    ∃ p, between lhs rhs = .ok p ∧ ∀ {earlier a later}, p.actions = earlier ++ a :: later →
      a.kind ≠ .nop →
      (a.kind = .updateFstab → ending a later = true → rhs.contains a.sid = true →
        rhs.blkDeviceName a.sid = lhs.blkDeviceName a.sid) →
      a.text lhs rhs ≠ a.fallbackText ∧
        ∃ device name, Told lhs (if ending a later || a.kind.usesBaseline then lhs else rhs)
          (machineAt lhs rhs earlier a) a (a.text lhs rhs) device name := by
  obtain ⟨p, s, replaced, hp, rfl, rfl, realizes⟩ := between_spec hl hr
  refine ⟨p, hp, fun cut does entries => ?_⟩
  obtain ⟨device, name, told⟩ := realizes.told cut does entries
  exact ⟨told.ne_fallbackText, device, name, told⟩

/-- A partition that moves, with the filesystem on it, under its old name. -/
theorem text_move : ∃ p,
    between (onePartition ⟨2048, 4096, 512⟩) (onePartition ⟨4096, 4096, 512⟩) = .ok p ∧
    ∀ {earlier a later}, p.actions = earlier ++ a :: later → a.kind ≠ .nop →
      a.text (onePartition ⟨2048, 4096, 512⟩) (onePartition ⟨4096, 4096, 512⟩) ≠
        a.fallbackText := by
  have named : ∀ sid, (onePartition ⟨4096, 4096, 512⟩).contains sid = true →
      (onePartition ⟨4096, 4096, 512⟩).blkDeviceName sid =
        (onePartition ⟨2048, 4096, 512⟩).blkDeviceName sid := by
    intro sid there
    obtain ⟨d, hd⟩ := Devicegraph.contains_iff.1 there
    obtain ⟨hn, rfl⟩ := Devicegraph.find?_eq_some.1 hd
    simp only [onePartition, List.mem_cons, Node.mk.injEq, List.not_mem_nil, or_false] at hn
    rcases hn with ⟨rfl, _⟩ | ⟨rfl, _⟩ | ⟨rfl, _⟩ | ⟨rfl, _⟩ <;> cbv
  have hl : (onePartition ⟨2048, 4096, 512⟩).check = .ok () := by cbv
  have hr : (onePartition ⟨4096, 4096, 512⟩).check = .ok () := by cbv
  obtain ⟨p, hp, told⟩ := text_between hl hr
  exact ⟨p, hp, fun {earlier a later} cut does => (told cut does fun _ _ => named a.sid).1⟩

/-- What is said of it. -/
example : (between (onePartition ⟨2048, 4096, 512⟩) (onePartition ⟨4096, 4096, 512⟩)).map
    (fun p => p.actions.map (Action.text p.lhs p.rhs)) = .ok
      ["Unmount /dev/sda1 at /home", "Update fstab entries of /dev/sda1", "Delete ext4 on /dev/sda1",
        "Delete partition /dev/sda1",
        "Create primary partition /dev/sda1 at [4096, 4096 x 512 B]", "Create ext4 on /dev/sda1",
        "Mount /dev/sda1 at /home", "Update fstab entries of /dev/sda1"] := by
  cbv

/-- A disk with a filesystem. -/
def formatted : Devicegraph :=
  ((Devicegraph.empty.addDevice ⟨1, .disk { name := "/dev/sda", sizeK := 1048576 }, []⟩).addDevice
    ⟨2, .filesystem { fsType := .ext4, mountpoints := ["/mnt"] }, []⟩).addEdge 1 2 .user

/-- The disk with a partition table instead, at the same sid. -/
def partitioned : Devicegraph :=
  ((Devicegraph.empty.addDevice ⟨1, .disk { name := "/dev/sda", sizeK := 1048576 }, []⟩).addDevice
    ⟨2, .partitionTable ⟨.gpt⟩, []⟩).addEdge 1 2 .user

/-- The entries of the filesystem are looked for at the partition table, and not found. -/
theorem misplaced_entries : formatted.check = .ok () ∧ partitioned.check = .ok () ∧ ∃ p,
    between formatted partitioned = .ok p ∧
    ⟨2, .updateFstab, false, false⟩ ∈ p.actions ∧
    Action.text formatted partitioned ⟨2, .updateFstab, false, false⟩ =
      Action.fallbackText ⟨2, .updateFstab, false, false⟩ := by
  have planned : (between formatted partitioned).map Plan.actions = .ok
      [⟨2, .unmount "/mnt", true, false⟩, ⟨2, .updateFstab, false, false⟩,
        ⟨2, .deleteFilesystem, false, true⟩, ⟨2, .createPartitionTable, true, true⟩] := by cbv
  refine ⟨by cbv, by cbv, ?_⟩
  cases hp : between formatted partitioned with
  | error f =>
    rw [hp] at planned
    cases planned
  | ok p =>
    rw [hp] at planned
    have actions := Except.ok.inj planned
    refine ⟨p, rfl, ?_, by cbv⟩
    rw [actions]
    simp

end Plan

end StoragePlan
