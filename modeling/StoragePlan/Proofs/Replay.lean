import Mathlib.Logic.Function.Basic
import StoragePlan.Proofs.Acyclicity

/-!
# Replaying a plan

A `Machine` is what is there at a moment of a plan: which sids stand for a device, what each device
sits on and what its attributes are. An action changes the machine at its own sid only (`effect`):
deletions take the device away, creations put the device of `rhs` there with its freshly created
attributes, and everything else changes one attribute. A disk has no actions that create or delete
it; its `nop` takes a disk away that is there and brings one that is not.

What the actions of one device lead to is computed here once and for all: those that delete it leave
nothing, and those that create or change it leave what `rhs` has, as far as the plan cares
(`Attributes.Agrees`).
-/

namespace StoragePlan

/-- A device on the way from one devicegraph to another. -/
structure Placed where
  /-- The device that it sits on. -/
  parent : Option Sid
  /-- What it is. -/
  attributes : Attributes
  deriving DecidableEq, Repr

/-- The devices that are there, by sid. -/
abbrev Machine := Sid → Option Placed

namespace Attributes

/-- What a device is just after it was created. -/
def fresh : Attributes → Attributes
  | .partition p => .partition { p with id := p.type.defaultId, boot := false }
  | .filesystem fs => .filesystem { fs with mountpoints := [] }
  | a => a

/-- What an action makes of a device that is to become `target`. -/
def changed (target : Option Attributes) : ActionKind → Attributes → Attributes
  | .mount path, .filesystem fs => .filesystem { fs with mountpoints := fs.mountpoints ++ [path] }
  | .unmount path, .filesystem fs =>
    .filesystem { fs with mountpoints := fs.mountpoints.filter (· ≠ path) }
  | kind, current =>
    match kind, target, current with
    | .resizePartition _, some (.partition n), .partition p =>
      .partition { p with region := n.region }
    | .setPartitionId, some (.partition n), .partition p => .partition { p with id := n.id }
    | .setBoot, some (.partition n), .partition p => .partition { p with boot := n.boot }
    | .setLabel, some (.filesystem n), .filesystem fs => .filesystem { fs with label := n.label }
    | .setUuid, some (.filesystem n), .filesystem fs => .filesystem { fs with uuid := n.uuid }
    | _, _, a => a

/-- What no action but a creation changes: the kind, the type, and the name of a partition. -/
def Like : Attributes → Attributes → Prop
  | .disk a, .disk b => a = b
  | .partitionTable a, .partitionTable b => a = b
  | .partition a, .partition b => a.type = b.type ∧ a.name = b.name
  | .filesystem a, .filesystem b => a.fsType = b.fsType
  | _, _ => False

theorem Like.refl (a : Attributes) : a.Like a := by cases a <;> simp [Like]

theorem Like.trans {a b c : Attributes} (h : a.Like b) (h' : b.Like c) : a.Like c := by
  cases a <;> cases b <;> cases c <;> simp_all [Like]

theorem Like.kind_eq {a b : Attributes} (h : a.Like b) : b.kind = a.kind := by
  cases a <;> cases b <;> simp_all [Like, kind]

theorem Like.isTable {a : Attributes} {t : PartitionTable}
    (h : a.Like (.partitionTable t)) : a = .partitionTable t := by
  cases a with
  | partitionTable => rw [show _ = t from h]
  | disk => cases h
  | partition => cases h
  | filesystem => cases h

theorem Like.isPartition {a : Attributes} {p : Partition} (h : a.Like (.partition p)) :
    ∃ q, a = .partition q ∧ q.type = p.type := by
  cases a with
  | partition q => exact ⟨q, rfl, h.1⟩
  | disk => cases h
  | partitionTable => cases h
  | filesystem => cases h

theorem like_fresh (a : Attributes) : a.Like a.fresh := by cases a <;> simp [Like, fresh]

theorem like_changed (target : Option Attributes) (kind : ActionKind) (a : Attributes) :
    a.Like (a.changed target kind) := by
  unfold changed
  split
  · rfl
  · rfl
  · split <;> first | exact ⟨rfl, rfl⟩ | exact .refl _ | simp only [Like]

/-- The region of a partition. -/
def region? : Attributes → Option Region
  | .partition p => some p.region
  | _ => none

theorem region?_fresh (a : Attributes) : a.fresh.region? = a.region? := by cases a <;> rfl

/-- Only a resize changes the region. -/
theorem region?_changed {target : Option Attributes} {kind : ActionKind}
    (h : ∀ mode, kind ≠ .resizePartition mode) (a : Attributes) :
    (a.changed target kind).region? = a.region? := by
  unfold changed
  split
  · rfl
  · rfl
  · split
    · exact absurd rfl (h _)
    all_goals rfl

/-- The same for all that the plan cares about: for tables the type, for partitions everything, for
filesystems the type, the label, the identifier and which paths they are mounted at. -/
def Agrees : Attributes → Attributes → Prop
  | .disk _, .disk _ => True
  | .partitionTable a, .partitionTable b => a.ptType = b.ptType
  | .partition a, .partition b => a = b
  | .filesystem a, .filesystem b => a.fsType = b.fsType ∧ a.label = b.label ∧ a.uuid = b.uuid ∧
      ∀ path, path ∈ a.mountpoints ↔ path ∈ b.mountpoints
  | _, _ => False

end Attributes

namespace Machine

variable {rhs : Devicegraph} {sid : Sid}

/-- The devices of a devicegraph. -/
def of (g : Devicegraph) : Machine := fun sid =>
  (g.find? sid).map fun d => ⟨g.parent? sid, d.attributes⟩

/-- The device that `rhs` has at the sid, just after it was created. -/
def added (rhs : Devicegraph) (sid : Sid) : Option Placed :=
  (rhs.find? sid).map fun d => ⟨rhs.parent? sid, d.attributes.fresh⟩

/-- What an action on the way to `rhs` makes of the device with the sid, if there is one. -/
def effect (rhs : Devicegraph) (sid : Sid) (current : Option Placed) (kind : ActionKind) :
    Option Placed :=
  match kind.actionClass with
  | .delete => none
  | .create => added rhs sid
  | .nop => if current.isSome then none else added rhs sid
  | .modify => current.map fun d =>
    { d with attributes := d.attributes.changed ((rhs.find? sid).map Device.attributes) kind }

/-- The machine after an action. -/
def act (rhs : Devicegraph) (machine : Machine) (a : Action) : Machine :=
  Function.update machine a.sid (effect rhs a.sid (machine a.sid) a.kind)

/-- The machine after actions. -/
def replay (rhs : Devicegraph) (machine : Machine) (actions : List Action) : Machine :=
  actions.foldl (act rhs) machine

/-- Only the actions of a device change it. -/
theorem replay_apply (machine : Machine) (actions : List Action) (sid : Sid) :
    machine.replay rhs actions sid =
      ((actions.filter fun a => a.sid == sid).map Action.kind).foldl (effect rhs sid)
        (machine sid) := by
  unfold replay
  induction actions generalizing machine with
  | nil => rfl
  | cons a rest ih =>
    rw [List.foldl_cons, ih, act]
    by_cases same : a.sid = sid
    · subst same
      simp [Function.update_self]
    · rw [Function.update_of_ne (Ne.symm same)]
      simp [same]

/-! ### The actions of one device -/

/-- Modifications leave a device that is there where it is, and what it is. -/
theorem foldl_modify (rhs : Devicegraph) (sid : Sid) {kinds : List ActionKind}
    (h : ∀ kind ∈ kinds, kind.actionClass = .modify)
    (d : Placed) : ∃ a, kinds.foldl (effect rhs sid) (some d) = some ⟨d.parent, a⟩ ∧
      d.attributes.Like a ∧
      ((∀ mode, .resizePartition mode ∉ kinds) → a.region? = d.attributes.region?) := by
  induction kinds generalizing d with
  | nil => exact ⟨d.attributes, rfl, .refl _, fun _ => rfl⟩
  | cons kind rest ih =>
    obtain ⟨hk, hrest⟩ := List.forall_mem_cons.1 h
    have step : effect rhs sid (some d) kind = some { d with
        attributes := d.attributes.changed ((rhs.find? sid).map Device.attributes) kind } := by
      simp only [effect, hk, Option.map_some]
    obtain ⟨a, ha, like, region⟩ := ih hrest { d with
      attributes := d.attributes.changed ((rhs.find? sid).map Device.attributes) kind }
    refine ⟨a, by rw [List.foldl_cons, step, ha], (Attributes.like_changed _ _ _).trans like,
      fun none => ?_⟩
    simp only [List.mem_cons, not_or] at none
    rw [region fun mode => (none mode).2]
    exact Attributes.region?_changed (fun mode same => (none mode).1 same.symm) _

/-- A device that is there is gone after the last of the actions that delete it. -/
theorem foldl_deleteKinds {d : Placed} {a : Attributes} (h : a.Like d.attributes) :
    (Plan.deleteKinds a).foldl (effect rhs sid) (some d) = none := by
  obtain ⟨before, same, modify, _⟩ := Plan.deleteKinds_eq a
  obtain ⟨b, hb, _⟩ := foldl_modify rhs sid modify d
  rw [same, List.foldl_append, hb]
  cases a <;> rfl

/-! ### What the actions of one device lead to -/

variable {new : Device}

theorem effect_addition (hn : rhs.find? sid = some new) :
    effect rhs sid none (Plan.addition new.attributes) =
      some ⟨rhs.parent? sid, new.attributes.fresh⟩ := by
  cases ha : new.attributes <;> simp [effect, Plan.addition, ActionKind.actionClass, added, hn, ha]

theorem effect_modify (hn : rhs.find? sid = some new) (kind : ActionKind)
    (h : kind.actionClass = .modify) (parent : Option Sid) (a : Attributes) :
    effect rhs sid (some ⟨parent, a⟩) kind =
      some ⟨parent, a.changed (some new.attributes) kind⟩ := by
  simp [effect, h, hn]

theorem foldl_unmount (paths : List String) (parent : Option Sid) (fs : Filesystem) :
    (paths.map ActionKind.unmount).foldl (effect rhs sid) (some ⟨parent, .filesystem fs⟩) =
      some ⟨parent, .filesystem
        { fs with mountpoints := fs.mountpoints.filter (· ∉ paths) }⟩ := by
  induction paths generalizing fs with
  | nil => simp
  | cons path rest ih =>
    rw [List.map_cons, List.foldl_cons]
    simp only [effect, ActionKind.actionClass, Option.map_some, Attributes.changed]
    rw [ih]
    simp only [List.filter_filter, List.mem_cons, not_or, Bool.decide_and, Bool.and_comm]

theorem foldl_mount (paths : List String) (parent : Option Sid) (fs : Filesystem) :
    (paths.map ActionKind.mount).foldl (effect rhs sid) (some ⟨parent, .filesystem fs⟩) =
      some ⟨parent, .filesystem { fs with mountpoints := fs.mountpoints ++ paths }⟩ := by
  induction paths generalizing fs with
  | nil => simp
  | cons path rest ih =>
    rw [List.map_cons, List.foldl_cons]
    simp only [effect, ActionKind.actionClass, Option.map_some, Attributes.changed]
    rw [ih]
    simp only [List.append_assoc, List.cons_append, List.nil_append]

theorem mem_sortedMountpoints {fs : Filesystem} {path : String} :
    path ∈ Plan.sortedMountpoints fs ↔ path ∈ fs.mountpoints := by
  simp [Plan.sortedMountpoints]

/-- The table of filesystems is not part of the machine. -/
theorem effect_updateFstab (parent : Option Sid) (fs : Filesystem) :
    effect rhs sid (some ⟨parent, .filesystem fs⟩) .updateFstab =
      some ⟨parent, .filesystem fs⟩ := rfl

/-- Before the last of the actions that delete it a device is still there. -/
theorem foldl_take_deleteKinds (rhs : Devicegraph) (sid : Sid) (d : Placed) {n : Nat}
    (h : n < (Plan.deleteKinds d.attributes).length) :
    ∃ a, ((Plan.deleteKinds d.attributes).take n).foldl (effect rhs sid) (some d) =
      some ⟨d.parent, a⟩ ∧ d.attributes.Like a ∧ a.region? = d.attributes.region? := by
  have unresized := Plan.resizePartition_notMem_deleteKinds d.attributes
  obtain ⟨before, same, modify, _⟩ := Plan.deleteKinds_eq d.attributes
  rw [same] at h unresized ⊢
  rw [List.length_append, List.length_singleton, Nat.lt_succ_iff] at h
  rw [List.take_append_of_le_length h]
  obtain ⟨a, ha, like, region⟩ := foldl_modify rhs sid
    (fun kind hk => modify kind (List.mem_of_mem_take hk)) d
  exact ⟨a, ha, like, region fun mode hm => unresized mode
    (List.mem_append_left _ (List.mem_of_mem_take hm))⟩

/-- From the first of the actions that create it on a device is there. -/
theorem foldl_take_createKinds (hn : rhs.find? sid = some new) (n : Nat) :
    ∃ a, ((Plan.createKinds new.attributes).take (n + 1)).foldl (effect rhs sid) none =
      some ⟨rhs.parent? sid, a⟩ ∧ new.attributes.Like a ∧
        a.region? = new.attributes.region? := by
  have unresized := Plan.resizePartition_notMem_createKinds new.attributes
  obtain ⟨after, same, modify, _⟩ := Plan.createKinds_eq new.attributes
  rw [same] at unresized ⊢
  rw [List.take_succ_cons, List.foldl_cons, effect_addition hn]
  obtain ⟨a, ha, like, region⟩ := foldl_modify rhs sid
    (fun kind hk => modify kind (List.mem_of_mem_take hk))
    ⟨rhs.parent? sid, new.attributes.fresh⟩
  refine ⟨a, ha, (Attributes.like_fresh _).trans like, ?_⟩
  rw [region fun mode hm => unresized mode (List.mem_cons_of_mem _ (List.mem_of_mem_take hm))]
  exact Attributes.region?_fresh _

/-- The actions that create a device make it what it is in `rhs`. -/
theorem foldl_createKinds (hn : rhs.find? sid = some new) :
    ∃ a, (Plan.createKinds new.attributes).foldl (effect rhs sid) none =
      some ⟨rhs.parent? sid, a⟩ ∧ a.Agrees new.attributes := by
  have first := effect_addition hn
  cases ha : new.attributes with
  | disk =>
    rw [ha] at first
    exact ⟨_, first, trivial⟩
  | partitionTable =>
    rw [ha] at first
    exact ⟨_, first, rfl⟩
  | partition p =>
    rw [ha] at first
    simp only [Plan.addition] at first
    have setId := effect_modify hn .setPartitionId rfl
    have setBoot := effect_modify hn .setBoot rfl
    simp only [Plan.createKinds, List.cons_append, List.nil_append, List.foldl_cons, first]
    obtain ⟨name, type, region, id, boot⟩ := p
    by_cases hid : id = type.defaultId <;> cases boot <;>
      simp [hid, Attributes.fresh, setId, setBoot, ha, Attributes.changed, Attributes.Agrees]
  | filesystem fs =>
    rw [ha] at first
    simp only [Plan.addition, Attributes.fresh] at first
    simp only [Plan.createKinds, List.cons_append, List.nil_append, List.foldl_cons, first,
      List.foldl_append, foldl_mount]
    unfold Plan.fstabKinds
    split <;> simp [effect_updateFstab, Attributes.Agrees, mem_sortedMountpoints]

/-- The actions that change a partition make it what it is in `rhs`. -/
theorem foldl_partitionChanges {o n : Partition} (hn : rhs.find? sid = some new)
    (ha : new.attributes = .partition n) (h : Attributes.InPlace (.partition o) (.partition n))
    (parent : Option Sid) : (Plan.partitionChanges o n).foldl (effect rhs sid)
      (some ⟨parent, .partition o⟩) = some ⟨parent, .partition n⟩ := by
  have resize := fun mode => effect_modify hn (.resizePartition mode) rfl
  have setId := effect_modify hn .setPartitionId rfl
  have setBoot := effect_modify hn .setBoot rfl
  obtain ⟨name, type, region, id, boot⟩ := o
  obtain ⟨name', type', region', id', boot'⟩ := n
  obtain ⟨rfl, rfl, start, size⟩ := h
  have resized : ((ResizeMode.between? region.length region'.length).toList.map
      ActionKind.resizePartition).foldl (effect rhs sid)
        (some ⟨parent, .partition ⟨name, type, region, id, boot⟩⟩) =
      some ⟨parent, .partition ⟨name, type, region', id, boot⟩⟩ := by
    cases hm : ResizeMode.between? region.length region'.length with
    | none =>
      have length : region.length = region'.length := by
        unfold ResizeMode.between? at hm
        split_ifs at hm
        omega
      obtain ⟨_, _, _⟩ := region
      obtain ⟨_, _, _⟩ := region'
      simp_all
    | some mode => simp [resize, ha, Attributes.changed]
  rw [Plan.partitionChanges, List.foldl_append, List.foldl_append, resized]
  by_cases hid : id = id' <;> by_cases hboot : boot = boot' <;>
    simp [hid, hboot, setId, setBoot, ha, Attributes.changed]

/-- The actions that change a filesystem make it what it is in `rhs`. -/
theorem foldl_filesystemChanges {o n : Filesystem} (hn : rhs.find? sid = some new)
    (ha : new.attributes = .filesystem n) (h : o.fsType = n.fsType) (parent : Option Sid)
    (mode? : Option ResizeMode) : ∃ a, (Plan.filesystemChanges o n mode?).foldl (effect rhs sid)
      (some ⟨parent, .filesystem o⟩) = some ⟨parent, a⟩ ∧ a.Agrees (.filesystem n) := by
  have setLabel := effect_modify hn .setLabel rfl
  have setUuid := effect_modify hn .setUuid rfl
  have resized : ∀ fs : Filesystem, (mode?.toList.map ActionKind.resizeFilesystem).foldl
      (effect rhs sid) (some ⟨parent, .filesystem fs⟩) = some ⟨parent, .filesystem fs⟩ := by
    intro fs
    cases mode? <;> rfl
  have marked : ∀ paths, (if o.uuid = n.uuid then [] else [ActionKind.setUuid]).foldl
      (effect rhs sid) ((if o.label = n.label then [] else [ActionKind.setLabel]).foldl
        (effect rhs sid) (some ⟨parent, .filesystem { o with mountpoints := paths }⟩)) =
      some ⟨parent, .filesystem { o with label := n.label, uuid := n.uuid, mountpoints := paths }⟩ := by
    intro paths
    by_cases hlabel : o.label = n.label <;> by_cases huuid : o.uuid = n.uuid <;>
      simp [hlabel, huuid, setLabel, setUuid, ha, Attributes.changed]
  have fstab : ∀ fs : Filesystem, (if o.mountpoints = n.mountpoints ∧ o.mountBy = n.mountBy ∧
      o.fstabOptions = n.fstabOptions then [] else [ActionKind.updateFstab]).foldl
        (effect rhs sid) (some ⟨parent, .filesystem fs⟩) = some ⟨parent, .filesystem fs⟩ := by
    intro fs
    split
    · rfl
    · exact effect_updateFstab parent fs
  simp only [Plan.filesystemChanges, List.foldl_append, foldl_unmount, resized, marked, foldl_mount,
    fstab]
  refine ⟨_, rfl, h, rfl, rfl, fun path => ?_⟩
  simp only [List.mem_append, List.mem_filter, List.mem_reverse, mem_sortedMountpoints,
    decide_eq_true_eq]
  tauto

end Machine

end StoragePlan
