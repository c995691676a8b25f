import Mathlib.Logic.Relation
import StoragePlan.Proofs.Acyclicity
import StoragePlan.Proofs.Editing

/-!
# Editing keeps a devicegraph valid

The edits that other devices have a say in are those that create a device (`Creation`) and those
that change sizes, regions, types or names (`GuardedChange`). Each asks only about the devices around
the one it is about. That is enough: on a lawful devicegraph an edit is accepted exactly if the
devicegraph that it would leave behind is lawful (`Creation.lawful_iff`, `GuardedChange.lawful_iff`).

So an edit is not refused without reason (`CheckedEdit.rightly_refused`), and no sequence of
operations leads from an empty or a loaded devicegraph to one that fails its check
(`Devicegraph.check_of_edited`).
-/

namespace StoragePlan

open Attempt Edit

/-! ### Creating -/

/-- An edit that creates a device. -/
inductive Creation where
  | disk (name : String) (sizeK : Nat)
  | partitionTable (parent : Sid) (ptType : PtType)
  | partition (parent : Sid) (name : String) (type : PartitionType) (region : Region)
  | filesystem (parent : Sid) (fsType : FsType)
  deriving DecidableEq, Repr

namespace Creation

variable {g : Devicegraph}

/-- Carries out the edit. -/
def perform : Creation → Edit Sid
  | disk name sizeK => createDisk name sizeK
  | partitionTable parent ptType => createPartitionTable parent ptType
  | partition parent name type region => createPartition parent name type region
  | filesystem parent fsType => createFilesystem parent fsType

/-- What the new device is. -/
def attributes : Creation → Attributes
  | disk name sizeK => .disk { name, sizeK }
  | partitionTable _ ptType => .partitionTable ⟨ptType⟩
  | partition _ name type region => .partition { name, type, region, id := type.defaultId }
  | filesystem _ fsType => .filesystem { fsType }

/-- What the new device is put on. -/
def parent? : Creation → Option Sid
  | disk .. => none
  | partitionTable parent _ => some parent
  | partition parent .. => some parent
  | filesystem parent _ => some parent

/-- What the edit asks before it acts. -/
def verdict (g : Devicegraph) : Creation → Except Failure Unit
  | disk name _ => g.checkNameUnused name none
  | partitionTable parent _ => g.checkPlacement parent .partitionTable
  | partition parent name type region => do
    let p : Partition := { name, type, region, id := type.defaultId }
    let _ ← g.partitionTable parent
    g.checkNameUnused name none
    g.checkPartitionPlacement parent p none
    g.checkPlacement parent .partition
  | filesystem parent _ => g.checkPlacement parent .filesystem

/-- The devicegraph with the new device, without any check. -/
def unchecked (next : Sid) (g : Devicegraph) (c : Creation) : Devicegraph :=
  g.place { sid := next, attributes := c.attributes } c.parent?

theorem checksFirst (c : Creation) (s : Editor) :
    ChecksFirst c.perform s (c.verdict s.graph) (Created s c.attributes c.parent?) := by
  cases c with
  | disk name sizeK => exact createDisk_checksFirst name sizeK
  | partitionTable parent ptType => exact createPartitionTable_checksFirst parent ptType
  | partition parent name type region => exact createPartition_checksFirst parent name type region
  | filesystem parent fsType => exact createFilesystem_checksFirst parent fsType

/-- Only disks are put on nothing. -/
theorem rooted (c : Creation) : c.parent? = none ↔ c.attributes.kind = .disk := by
  cases c <;> simp [parent?, attributes, Attributes.kind]

/-- The questions are those that a new device has to pass. -/
theorem verdict_eq_ok (c : Creation) : c.verdict g = .ok () ↔
    (∀ parent, c.parent? = some parent → g.checkPlacement parent c.attributes.kind = .ok ()) ∧
    (∀ name, c.attributes.name? = some name → g.checkNameUnused name none = .ok ()) ∧
    ∀ table p, c.parent? = some table → c.attributes = .partition p →
      g.checkPartitionPlacement table p none = .ok () := by
  cases c with
  | disk name sizeK => simp [verdict, parent?, attributes, Attributes.name?]
  | partitionTable parent ptType =>
    simp [verdict, parent?, attributes, Attributes.name?, Attributes.kind]
  | partition parent name type region =>
    simp only [verdict, parent?, attributes, Attributes.name?, Attributes.kind, bind_eq_ok,
      Option.some.injEq, forall_eq', Attributes.partition.injEq]
    constructor
    · rintro ⟨_, _, _, unused, _, placed, room⟩
      exact ⟨room, unused, fun table p ht hp => ht ▸ hp ▸ placed⟩
    · rintro ⟨room, unused, placed⟩
      have placed := placed parent _ rfl rfl
      obtain ⟨t, ht⟩ : ∃ t, g.partitionTable parent = .ok t := by
        simp only [Devicegraph.checkPartitionPlacement, refuse_bind_eq_ok, bind_eq_ok] at placed
        obtain ⟨_, _, _, t, ht, _⟩ := placed
        exact ⟨t, ht⟩
      exact ⟨t, ht, (), unused, (), placed, room⟩
  | filesystem parent fsType =>
    simp [verdict, parent?, attributes, Attributes.name?, Attributes.kind]

/-- A device that is accepted has something to sit on. -/
theorem found_of_accepted {c : Creation} (accepted : c.verdict g = .ok ()) {parent : Sid}
    (hp : c.parent? = some parent) : ∃ p, g.find? parent = some p := by
  have placed := (c.verdict_eq_ok.1 accepted).1 parent hp
  obtain ⟨p, found, _⟩ := bind_eq_ok.1 placed
  exact ⟨p, Devicegraph.find_eq_ok.1 found⟩

/-- A device is accepted exactly if it breaks no rule, provided that its sid is free. -/
theorem lawful_iff (law : g.Lawful) (c : Creation)
    (found : ∀ {parent}, c.parent? = some parent → ∃ p, g.find? parent = some p) (next : Sid) :
    (c.unchecked next g).Lawful ↔ g.find? next = none ∧ c.verdict g = .ok () := by
  rw [verdict_eq_ok]
  exact law.place_iff found c.rooted

end Creation

/-! ### Changing -/

/-- An edit that changes what other devices depend on. -/
inductive GuardedChange where
  | diskSizeK (sid : Sid) (sizeK : Nat)
  | diskSectorSize (sid : Sid) (sectorSize : Nat)
  | partitionTableType (sid : Sid) (ptType : PtType)
  | partitionRegion (sid : Sid) (region : Region)
  | partitionType (sid : Sid) (type : PartitionType)
  | partitionName (sid : Sid) (name : String)
  deriving DecidableEq, Repr

namespace GuardedChange

variable {g : Devicegraph}

/-- Carries out the edit. -/
def perform : GuardedChange → Edit Unit
  | diskSizeK sid sizeK => setDiskSizeK sid sizeK
  | diskSectorSize sid sectorSize => setDiskSectorSize sid sectorSize
  | partitionTableType sid ptType => setPartitionTableType sid ptType
  | partitionRegion sid region => setPartitionRegion sid region
  | partitionType sid type => setPartitionType sid type
  | partitionName sid name => setPartitionName sid name

/-- The devicegraph with the change, without any check. -/
def unchecked (g : Devicegraph) : GuardedChange → Devicegraph
  | diskSizeK sid sizeK => g.withDisk sid fun a => { a with sizeK }
  | diskSectorSize sid sectorSize => g.withDisk sid fun a => { a with sectorSize }
  | partitionTableType sid ptType => g.setAttributes sid (.partitionTable ⟨ptType⟩)
  | partitionRegion sid region => g.withPartition sid fun p => { p with region }
  | partitionType sid type => g.withPartition sid fun p => { p with type }
  | partitionName sid name => g.withPartition sid fun p => { p with name }

/-- What the edit asks before it acts. -/
def verdict (g : Devicegraph) : GuardedChange → Except Failure Unit
  | diskSizeK sid sizeK => do
    let a ← g.disk sid
    g.checkPartitionsFit sid { a with sizeK }
  | diskSectorSize sid sectorSize => do
    let a ← g.disk sid
    if sectorSize = 0 then throw ↑(TopologyFault.invalidSectorSize a.name)
    g.checkPartitionsFit sid { a with sectorSize }
  | partitionTableType sid ptType => do
    let _ ← g.partitionTable sid
    (g.setAttributes sid (.partitionTable ⟨ptType⟩)).checkLayout sid
  | partitionRegion sid region => g.checkChanged sid fun p => { p with region }
  | partitionType sid type => g.checkChanged sid fun p => { p with type }
  | partitionName sid name => g.checkChanged sid fun p => { p with name }

/-- The edit is about a device of the right kind, and about a sector size that there can be. -/
def Addressed (g : Devicegraph) : GuardedChange → Prop
  | diskSizeK sid _ => ∃ a, g.disk sid = .ok a
  | diskSectorSize sid sectorSize => (∃ a, g.disk sid = .ok a) ∧ sectorSize ≠ 0
  | partitionTableType sid _ => ∃ t, g.partitionTable sid = .ok t
  | partitionRegion sid _ | partitionType sid _ | partitionName sid _ =>
    ∃ p, g.partition sid = .ok p

theorem checksFirst (c : GuardedChange) (s : Editor) :
    ChecksFirst c.perform s (c.verdict s.graph) (Changed s (c.unchecked s.graph)) := by
  cases c with
  | diskSizeK sid sizeK => exact setDiskSizeK_checksFirst sid sizeK
  | diskSectorSize sid sectorSize => exact setDiskSectorSize_checksFirst sid sectorSize
  | partitionTableType sid ptType => exact setPartitionTableType_checksFirst sid ptType
  | partitionRegion | partitionType | partitionName => exact changePartition_checksFirst ..

/-- A change that is accepted is about a device of the right kind. -/
theorem addressed_of_accepted {c : GuardedChange} (accepted : c.verdict g = .ok ()) :
    c.Addressed g := by
  cases c with
  | diskSizeK sid sizeK =>
    obtain ⟨a, ha, _⟩ := bind_eq_ok.1 accepted
    exact ⟨a, ha⟩
  | diskSectorSize sid sectorSize =>
    obtain ⟨a, ha, rest⟩ := bind_eq_ok.1 accepted
    exact ⟨⟨a, ha⟩, (refuse_bind_eq_ok.1 rest).1⟩
  | partitionTableType sid ptType =>
    obtain ⟨t, ht, _⟩ := bind_eq_ok.1 accepted
    exact ⟨t, ht⟩
  | partitionRegion | partitionType | partitionName =>
    obtain ⟨p, hp, _⟩ := bind_eq_ok.1 accepted
    exact ⟨p, hp⟩

/-- A change is accepted exactly if it breaks no rule. -/
theorem lawful_iff (law : g.Lawful) {c : GuardedChange} (addressed : c.Addressed g) :
    (c.unchecked g).Lawful ↔ c.verdict g = .ok () := by
  cases c with
  | diskSizeK sid sizeK =>
    obtain ⟨a, ha⟩ := addressed
    rw [unchecked, law.withDisk_iff ha rfl]
    simp only [verdict, bind_eq_ok, ha, Except.ok.injEq, exists_eq_left']
  | diskSectorSize sid sectorSize =>
    obtain ⟨⟨a, ha⟩, nonzero⟩ := addressed
    rw [unchecked, law.withDisk_iff ha rfl]
    simp only [verdict, bind_eq_ok, ha, Except.ok.injEq, exists_eq_left', if_neg nonzero]
  | partitionTableType sid ptType =>
    obtain ⟨t, ht⟩ := addressed
    rw [unchecked, law.setPartitionTable_iff ht]
    simp only [verdict, bind_eq_ok, ht, Except.ok.injEq, exists_eq_left']
  | partitionRegion | partitionType | partitionName => exact law.withPartition_iff addressed _

end GuardedChange

/-! ### Refusals -/

/-- An edit that other devices have a say in. -/
inductive CheckedEdit where
  | create (c : Creation)
  | change (c : GuardedChange)
  deriving DecidableEq, Repr

namespace CheckedEdit

/-- Carries out the edit. -/
def perform : CheckedEdit → Edit Unit
  | create c => do
    let _ ← c.perform
    return ()
  | change c => c.perform

/-- The devicegraph after the same change without any check. A new device gets the sid `next`. -/
def unchecked (next : Sid) (g : Devicegraph) : CheckedEdit → Devicegraph
  | create c => c.unchecked next g
  | change c => c.unchecked g

/-- The devices that the edit names are there, and the one that it changes is of the right kind. -/
def Addressed (g : Devicegraph) : CheckedEdit → Prop
  | create c => ∀ parent, c.parent? = some parent → g.contains parent = true
  | change c => c.Addressed g

/-- An edit that succeeds makes the same change: its checks only refuse. -/
theorem graph_of_performed {e : CheckedEdit} {s s' : Editor} (performed : e.perform s = .ok () s') :
    s'.graph = e.unchecked s.supply.next s.graph := by
  cases e with
  | create c =>
    obtain ⟨sid, s₁, created, same⟩ := Step.bind_eq_ok.1 performed
    cases same
    exact ((c.checksFirst s).of_ok created).2.graph
  | change c => exact ((c.checksFirst s).of_ok performed).2.graph

/-- No edit is refused without reason: without any check, it would have led to a devicegraph that
fails its check. -/
theorem rightly_refused (e : CheckedEdit) {s s' : Editor} {f : Failure}
    (valid : s.graph.check = .ok ()) (addressed : e.Addressed s.graph)
    (refused : e.perform s = .error f s') :
    (e.unchecked s.supply.next s.graph).check ≠ .ok () := by
  intro unbroken
  have law := Devicegraph.check_eq_ok.1 valid
  have after := Devicegraph.check_eq_ok.1 unbroken
  cases e with
  | create c =>
    have accepted := (c.lawful_iff law (fun hp => Devicegraph.contains_iff.1 (addressed _ hp)) _).1
      after
    obtain ⟨sid, s₁, performed, _⟩ := (c.checksFirst s).accepted accepted.2
    rw [perform, Step.bind_of_ok performed] at refused
    cases refused
  | change c =>
    have accepted := (GuardedChange.lawful_iff law addressed).1 after
    obtain ⟨_, s₁, performed, _⟩ := (c.checksFirst s).accepted accepted
    rw [perform, performed] at refused
    cases refused

/-- A partition that begins inside another one is refused, and rightly so. -/
theorem overlap_rightly_refused :
    (unchecked 42 (Plan.onePartition ⟨2048, 4096, 512⟩)
      (.create (.partition 2 "/dev/sda2" .primary ⟨4096, 4096, 512⟩))).check ≠ .ok () :=
  rightly_refused (.create (.partition 2 "/dev/sda2" .primary ⟨4096, 4096, 512⟩))
    (s := { graph := Plan.onePartition ⟨2048, 4096, 512⟩ }) (by cbv)
    (by rintro parent ⟨rfl⟩; rfl)
    (Step.bind_of_error ((Creation.checksFirst _ _).refused (by cbv)))

end CheckedEdit

/-! ### Runs -/

/-- A supply that hands out a sid is another one. -/
theorem SidSupply.advance_ne (s : SidSupply) : s.advance ≠ s := by
  intro same
  have next_eq : s.advance.next = s.next := congrArg SidSupply.next same
  by_cases more : s.next < maxWord
  · have : s.advance.next = s.next + 1 := if_pos more
    exact Nat.succ_ne_self s.next (this.symm.trans next_eq)
  · have : s.advance.next = 0 := if_neg more
    rw [← next_eq, this] at more
    exact more (by decide)

/-- Everything that can be done to a devicegraph. -/
inductive Operation where
  | checked (e : CheckedEdit)
  | setDiskRotational (sid : Sid) (rotational : Bool)
  | setDiskTransport (sid : Sid) (transport : Transport)
  | setPartitionId (sid : Sid) (id : Nat)
  | setPartitionBoot (sid : Sid) (boot : Bool)
  | setFilesystemType (sid : Sid) (fsType : FsType)
  | setFilesystemLabel (sid : Sid) (label : String)
  | setFilesystemUuid (sid : Sid) (uuid : Option Uuid)
  | addMountpoint (sid : Sid) (mountpoint : String)
  | removeMountpoint (sid : Sid) (mountpoint : String)
  | setMountpoints (sid : Sid) (mountpoints : List String)
  | setMountBy (sid : Sid) (mountBy : MountBy)
  | setFstabOptions (sid : Sid) (fstabOptions : List String)
  | setUserData (sid : Sid) (key : String) (value : Option String)
  | remove (sid : Sid)
  | clear

namespace Operation

/-- Carries out the operation. -/
def perform : Operation → Edit Unit
  | checked e => e.perform
  | setDiskRotational sid rotational => Edit.setDiskRotational sid rotational
  | setDiskTransport sid transport => Edit.setDiskTransport sid transport
  | setPartitionId sid id => Edit.setPartitionId sid id
  | setPartitionBoot sid boot => Edit.setPartitionBoot sid boot
  | setFilesystemType sid fsType => Edit.setFilesystemType sid fsType
  | setFilesystemLabel sid label => Edit.setFilesystemLabel sid label
  | setFilesystemUuid sid uuid => Edit.setFilesystemUuid sid uuid
  | addMountpoint sid mountpoint => Edit.addMountpoint sid mountpoint
  | removeMountpoint sid mountpoint => do
    let _ ← Edit.removeMountpoint sid mountpoint
    return ()
  | setMountpoints sid mountpoints => Edit.setMountpoints sid mountpoints
  | setMountBy sid mountBy => Edit.setMountBy sid mountBy
  | setFstabOptions sid fstabOptions => Edit.setFstabOptions sid fstabOptions
  | setUserData sid key value => do
    let _ ← Edit.setUserData sid key value
    return ()
  | remove sid => do
    let _ ← Edit.remove sid
    return ()
  | clear => Edit.clear

variable {s : Editor}

theorem lawful_after_create (law : s.graph.Lawful) (c : Creation)
    (fresh : (c.perform.after s).supply ≠ s.supply → s.graph.contains s.supply.next = false) :
    (c.perform.after s).graph.Lawful := by
  rcases (c.checksFirst s).after with same | ⟨accepted, sid, created⟩
  · rw [same]
    exact law
  · have free := fresh (created.supply ▸ s.supply.advance_ne)
    rw [created.graph]
    refine (c.lawful_iff law (Creation.found_of_accepted accepted) _).2 ⟨?_, accepted⟩
    simpa [Devicegraph.contains] using free

theorem lawful_after_change (law : s.graph.Lawful) (c : GuardedChange) :
    (c.perform.after s).graph.Lawful := by
  rcases (c.checksFirst s).after with same | ⟨accepted, _, changed⟩
  · rw [same]
    exact law
  · rw [changed.graph]
    exact (GuardedChange.lawful_iff law (GuardedChange.addressed_of_accepted accepted)).2 accepted

theorem lawful_after_remove (law : s.graph.Lawful) (sid : Sid) :
    ((Edit.remove sid).after s).graph.Lawful := by
  rcases (remove_checksFirst law sid).after with same | ⟨_, _, gone, removal, _, changed⟩
  · rw [same]
    exact law
  · rw [changed.graph]
    exact (Devicegraph.shrunk_foldl _ _).lawful law (law.detachable_removal removal).reverse

theorem lawful_after_changeDisk (law : s.graph.Lawful) (sid : Sid) {f : Disk → Disk}
    (name : ∀ a, (f a).name = a.name) (sizeK : ∀ a, (f a).sizeK = a.sizeK)
    (sectorSize : ∀ a, (f a).sectorSize = a.sectorSize) :
    ((changeDisk sid f).after s).graph.Lawful :=
  lawful_after_ask law fun a ha => law.setDisk ha (name a) (sizeK a) (sectorSize a)

theorem lawful_after_changeFilesystem (law : s.graph.Lawful) (sid : Sid)
    (f : Filesystem → Filesystem) : ((changeFilesystem sid f).after s).graph.Lawful :=
  lawful_after_ask law fun fs h => law.setFilesystem h (f fs)

/-- No operation breaks a rule. -/
theorem lawful_after (law : s.graph.Lawful) (op : Operation)
    (fresh : (op.perform.after s).supply ≠ s.supply → s.graph.contains s.supply.next = false) :
    (op.perform.after s).graph.Lawful := by
  cases op with
  | checked e =>
    cases e with
    | create c =>
      have same : (Operation.perform (.checked (.create c))).after s = c.perform.after s :=
        Step.after_bind_pure ()
      rw [same] at fresh ⊢
      exact lawful_after_create law c fresh
    | change c => exact lawful_after_change law c
  | setDiskRotational sid rotational =>
    exact lawful_after_changeDisk law sid (fun _ => rfl) (fun _ => rfl) fun _ => rfl
  | setDiskTransport sid transport =>
    exact lawful_after_changeDisk law sid (fun _ => rfl) (fun _ => rfl) fun _ => rfl
  | setPartitionId sid id =>
    exact lawful_after_ask law fun p hp => law.setPartition hp rfl rfl rfl
  | setPartitionBoot sid boot =>
    exact lawful_after_ask law fun p hp => law.setPartition hp rfl rfl rfl
  | setFilesystemType sid fsType => exact lawful_after_changeFilesystem law sid _
  | setFilesystemLabel sid label => exact lawful_after_changeFilesystem law sid _
  | setFilesystemUuid sid uuid => exact lawful_after_changeFilesystem law sid _
  | addMountpoint sid mountpoint => exact lawful_after_changeFilesystem law sid _
  | removeMountpoint sid mountpoint =>
    rw [perform, Step.after_bind_pure]
    refine lawful_after_ask law fun fs _ => ?_
    rw [Step.after_bind_pure]
    exact lawful_after_changeFilesystem law sid _
  | setMountpoints sid mountpoints => exact lawful_after_changeFilesystem law sid _
  | setMountBy sid mountBy => exact lawful_after_changeFilesystem law sid _
  | setFstabOptions sid fstabOptions => exact lawful_after_changeFilesystem law sid _
  | setUserData sid key value =>
    rw [perform, Step.after_bind_pure]
    exact lawful_after_ask law fun d hd => law.setUserData (Devicegraph.find_eq_ok.1 hd) _
  | remove sid =>
    rw [perform, Step.after_bind_pure]
    exact lawful_after_remove law sid
  | clear => exact Devicegraph.lawful_empty

end Operation

namespace Devicegraph

/-- One operation leads from one devicegraph to the other, whether it succeeds or fails. The supply
of sids and the log can be any, but a sid that is handed out stands for no device yet. -/
inductive Edited : Devicegraph → Devicegraph → Prop
  | step (op : Operation) (s : Editor)
    (fresh : (op.perform.after s).supply ≠ s.supply → s.graph.contains s.supply.next = false) :
    Edited s.graph (op.perform.after s).graph

/-- Each device that is accepted can be created. -/
theorem Edited.of_accepted {g : Devicegraph} {c : Creation} (n : Sid)
    (accepted : c.verdict g = .ok ()) (fresh : g.contains n = false) :
    Edited g (c.unchecked n g) := by
  let s : Editor := { graph := g, supply := ⟨n⟩ }
  obtain ⟨sid, s', performed, created⟩ := (c.checksFirst s).accepted accepted
  have after : (Operation.perform (.checked (.create c))).after s = s' :=
    Step.after_of_ok (Step.bind_of_ok performed)
  have edited := Edited.step (.checked (.create c)) s fun _ => fresh
  rw [after, created.graph] at edited
  exact edited

/-- The devicegraph was read from a document. -/
def Loaded (g : Devicegraph) : Prop :=
  ∃ text s s', s.graph = .empty ∧ loadText text s = .ok () s' ∧ s'.graph = g

/-- Whatever is done to an empty or a loaded devicegraph, it passes its check all the time. -/
theorem check_of_edited {start g : Devicegraph} (origin : start = .empty ∨ start.Loaded)
    (run : Relation.ReflTransGen Edited start g) : g.check = .ok () := by
  rw [check_eq_ok]
  induction run with
  | refl =>
    rcases origin with rfl | ⟨text, s, s', _, loaded, rfl⟩
    · exact lawful_empty
    · exact check_eq_ok.1 (check_of_loadText loaded)
  | tail _ edit law =>
    cases edit with
    | step op s fresh => exact op.lawful_after law fresh

/-- A disk and a partition table on it. -/
theorem check_of_edited_disk : ∃ g, Relation.ReflTransGen Edited .empty g ∧ g.numDevices = 2 ∧
    g.check = .ok () := by
  have disk := Edited.of_accepted (g := .empty) (c := .disk "/dev/sda" 1048576) 42 (by cbv) rfl
  have table := Edited.of_accepted (c := .partitionTable 42 .gpt)
    (g := Creation.unchecked 42 .empty (.disk "/dev/sda" 1048576)) 43 (by cbv) (by cbv)
  have run := (Relation.ReflTransGen.single disk).tail table
  exact ⟨_, run, by cbv, check_of_edited (.inl rfl) run⟩

end Devicegraph

end StoragePlan
