import StoragePlan.Proofs.Acyclicity
import StoragePlan.Proofs.Rearranging

/-!
# What plans do not look at

A plan is neither about the attributes of disks nor about what users attach to devices; `planned`
forgets both. Two devicegraphs that agree but for that (`Lookalike`) give the same answer to every
question that is asked for a plan, and so does every function that only asks such questions. The
lemmas follow the functions from the lookup of a device to the dependencies of an actiongraph, and
`between_agree` says of whole plans that they have the same actions in the same order.
-/

namespace StoragePlan

/-- The attributes as far as plans look at them. -/
def Attributes.planned : Attributes → Attributes
  | disk _ => disk { name := "" }
  | partitionTable t => partitionTable t
  | partition p => partition p
  | filesystem fs => filesystem fs

/-- The device as far as plans look at it. -/
def Device.planned (d : Device) : Device :=
  { sid := d.sid, attributes := d.attributes.planned }

/-- The document without the attributes of disks and without user data. -/
def Document.planned (d : Document) : Document :=
  { d with devices := d.devices.map Device.planned }

/-! ### Devices that plans cannot tell apart -/

namespace Device

variable {d e : Device}

theorem sid_eq (same : d.planned = e.planned) : d.sid = e.sid := by
  change d.planned.sid = e.planned.sid
  rw [same]

theorem attributes_eq (same : d.planned = e.planned) :
    d.attributes.planned = e.attributes.planned := by
  change d.planned.attributes = e.planned.attributes
  rw [same]

theorem kind_planned (d : Device) : d.planned.kind = d.kind := by
  unfold planned kind
  cases d.attributes <;> rfl

theorem kind_eq (same : d.planned = e.planned) : d.kind = e.kind := by
  rw [← d.kind_planned, same, e.kind_planned]

end Device

namespace Devicegraph

open Attempt

/-- The devicegraphs agree but for what plans do not look at. -/
structure Lookalike (g h : Devicegraph) : Prop where
  valid : g.Valid
  valid' : h.Valid
  devices : List.Forall₂ (fun d e => d.planned = e.planned) g.devices h.devices
  sitsOn : ∀ {child parent}, g.SitsOn child parent ↔ h.SitsOn child parent

theorem map_planned_find? {g : Devicegraph} {sid : Sid} {p : Device} :
    (g.find? sid).map Device.planned = some p ↔
      p ∈ g.devices.map Device.planned ∧ p.sid = sid := by
  simp only [Option.map_eq_some_iff, List.mem_map, mem_devices]
  constructor
  · rintro ⟨d, hd, rfl⟩
    obtain rfl := sid_of_find? hd
    exact ⟨⟨d, hd, rfl⟩, rfl⟩
  · rintro ⟨⟨d, hd, rfl⟩, rfl⟩
    exact ⟨d, hd, rfl⟩

namespace Lookalike

variable {g h : Devicegraph} (same : Lookalike g h)

include same

theorem map_planned_devices : g.devices.map Device.planned = h.devices.map Device.planned := by
  rw [← List.forall₂_eq_eq_eq, List.forall₂_map_left_iff, List.forall₂_map_right_iff]
  exact same.devices

theorem find?_planned (sid : Sid) :
    (g.find? sid).map Device.planned = (h.find? sid).map Device.planned := by
  ext p
  rw [map_planned_find?, map_planned_find?, same.map_planned_devices]

/-- A device is in both or in none. -/
theorem find?_cases (sid : Sid) : g.find? sid = none ∧ h.find? sid = none ∨
    ∃ d e, g.find? sid = some d ∧ h.find? sid = some e ∧ d.planned = e.planned := by
  have planned := same.find?_planned sid
  cases hd : g.find? sid <;> cases he : h.find? sid <;> rw [hd, he] at planned
  · exact .inl ⟨rfl, rfl⟩
  · cases planned
  · cases planned
  · exact .inr ⟨_, _, rfl, rfl, Option.some.inj planned⟩

theorem contains_eq (sid : Sid) : g.contains sid = h.contains sid := by
  have planned := congrArg Option.isSome (same.find?_planned sid)
  rwa [Option.isSome_map, Option.isSome_map] at planned

/-- After a device was found, it does not matter in which of them. -/
theorem find_bind {α : Type} {sid : Sid} {f f' : Device → Except Failure α}
    (hf : ∀ d e, d.planned = e.planned → f d = f' e) : g.find sid >>= f = h.find sid >>= f' := by
  unfold find
  rcases same.find?_cases sid with ⟨hd, he⟩ | ⟨d, e, hd, he, planned⟩
  · rw [hd, he]
    rfl
  · rw [hd, he]
    exact hf d e planned

theorem attributesOf_eq {α : Type} {expected : DeviceKind} {read : Attributes → Option α}
    (hread : ∀ a : Attributes, read a.planned = read a) :
    g.attributesOf expected read = h.attributesOf expected read := by
  funext sid
  refine same.find_bind fun d e planned => ?_
  rw [← hread d.attributes, ← hread e.attributes, Device.attributes_eq planned,
    Device.kind_eq planned]

theorem partitionTable_eq : g.partitionTable = h.partitionTable :=
  same.attributesOf_eq fun a => by cases a <;> rfl

theorem partition_eq : g.partition = h.partition :=
  same.attributesOf_eq fun a => by cases a <;> rfl

theorem filesystem_eq : g.filesystem = h.filesystem :=
  same.attributesOf_eq fun a => by cases a <;> rfl

theorem allOfKind_eq : g.allOfKind = h.allOfKind := by
  funext kind
  have kinds := List.rel_filter (p := fun d : Device => d.kind == kind)
    (q := fun d : Device => d.kind == kind)
    (fun d e planned => by simp only [Device.kind_eq planned]) same.devices
  rw [allOfKind, allOfKind, ← List.forall₂_eq_eq_eq]
  exact List.rel_map (fun d e planned => Device.sid_eq planned) kinds

/-! ### Parents and children -/

theorem parent?_eq : g.parent? = h.parent? := by
  funext sid
  ext parent
  rw [← same.valid.sitsOn_iff, same.sitsOn, same.valid'.sitsOn_iff]

theorem children_eq : g.children = h.children := by
  funext sid
  rcases same.find?_cases sid with ⟨hd, he⟩ | ⟨d, e, hd, he, _⟩
  · simp only [children, neighbors, find, hd, he, bind, Except.bind]
  · obtain ⟨l, hl⟩ := children_total hd
    obtain ⟨l', hl'⟩ := children_total he
    rw [hl, hl', (children_ascending hl).eq_of_mem_iff (children_ascending hl') fun x => by
      rw [same.valid.whole.mem_children hl, same.sitsOn, same.valid'.whole.mem_children hl']]

theorem parents_eq : g.parents = h.parents := by
  funext sid
  rcases same.find?_cases sid with ⟨hd, he⟩ | ⟨d, e, hd, he, _⟩
  · simp only [parents, neighbors, find, hd, he, bind, Except.bind]
  · obtain ⟨l, hl⟩ := parents_total hd
    obtain ⟨l', hl'⟩ := parents_total he
    rw [hl, hl', (parents_ascending hl).eq_of_mem_iff (parents_ascending hl') fun x => by
      rw [same.valid.whole.mem_parents hl, same.sitsOn, same.valid'.whole.mem_parents hl']]

theorem singleParent_eq : g.singleParent = h.singleParent := by
  funext sid
  have parent := congrFun same.parent?_eq sid
  cases hp : h.parent? sid with
  | some p =>
    rw [hp] at parent
    rw [singleParent_eq_ok.2 parent, singleParent_eq_ok.2 hp]
  | none =>
    rw [hp] at parent
    rcases same.find?_cases sid with ⟨hd, he⟩ | ⟨d, e, hd, he, planned⟩
    · simp only [singleParent, find, hd, he, bind, Except.bind]
    · rw [singleParent_of_parent?_eq_none hd parent, singleParent_of_parent?_eq_none he hp,
        Device.kind_eq planned]

theorem descendants_eq (sid : Sid) : g.descendants sid false = h.descendants sid false := by
  rcases same.find?_cases sid with ⟨hd, he⟩ | ⟨d, e, hd, he, _⟩
  · simp only [descendants, reachable, find, hd, he, bind, Except.bind]
  · obtain ⟨l, hl⟩ := descendants_total hd false
    obtain ⟨l', hl'⟩ := descendants_total he false
    have rests : g.RestsOn = h.RestsOn := by
      funext x y
      rw [RestsOn, RestsOn, same.parent?_eq]
    have mem : ∀ x, x = sid ∨ x ∈ l ↔ x = sid ∨ x ∈ l' := fun x => by
      rw [same.valid.mem_descendants_iff hl, rests, same.valid'.mem_descendants_iff hl']
    obtain ⟨ascending, others⟩ := descendants_ascending hl
    obtain ⟨ascending', others'⟩ := descendants_ascending hl'
    rw [hl, hl', ascending.eq_of_mem_iff ascending' fun x => ?_]
    by_cases itself : x = sid
    · subst itself
      exact iff_of_false others others'
    · simpa [itself] using mem x

/-! ### Partitions and filesystems -/

theorem partitions_eq : g.partitions = h.partitions := by
  have isPartition : ∀ child, (g.find? child).any (fun d => d.kind == .partition) =
      (h.find? child).any fun d => d.kind == .partition := by
    intro child
    rcases same.find?_cases child with ⟨hd, he⟩ | ⟨d, e, hd, he, planned⟩
    · rw [hd, he]
    · rw [hd, he, Option.any_some, Option.any_some, Device.kind_eq planned]
  funext sid
  simp only [partitions, same.partitionTable_eq, same.children_eq, isPartition]

theorem partitionsWith_eq : g.partitionsWith = h.partitionsWith := by
  funext sid
  simp only [partitionsWith, same.partitions_eq, same.partition_eq]

theorem extendedPartition_eq : g.extendedPartition = h.extendedPartition := by
  funext sid
  simp only [extendedPartition, same.partitionsWith_eq]

theorem logicalPartitionsOf_eq : g.logicalPartitionsOf = h.logicalPartitionsOf := by
  funext sid
  simp only [logicalPartitionsOf, partitionTableOf, same.partition_eq, same.singleParent_eq,
    same.partitionsWith_eq]

theorem filesystemBlkDevice_eq : g.filesystemBlkDevice = h.filesystemBlkDevice := by
  funext sid
  simp only [filesystemBlkDevice, same.filesystem_eq, same.singleParent_eq]

end Lookalike

/-- Devicegraphs whose documents are the same but for the attributes of disks and user data. -/
theorem Lookalike.of_documents {g h : Devicegraph} (hg : g.check = .ok ()) (hh : h.check = .ok ())
    (same : g.document.planned = h.document.planned) : Lookalike g h := by
  have valid := (check_eq_ok.1 hg).valid
  have valid' := (check_eq_ok.1 hh).valid
  refine ⟨valid, valid', ?_, ?_⟩
  · have devices : g.devices.map Device.planned = h.devices.map Device.planned :=
      congrArg Document.devices same
    rw [← List.forall₂_eq_eq_eq, List.forall₂_map_left_iff, List.forall₂_map_right_iff] at devices
    exact devices
  · intro child parent
    have holders : g.holders = h.holders := congrArg Document.holders same
    rw [valid.whole.sitsOn_iff_holders, holders, valid'.whole.sitsOn_iff_holders]

end Devicegraph

namespace Plan

open Attempt Devicegraph

variable {lhs lhs' rhs rhs' : Devicegraph}

/-! ### What is done about a device -/

theorem deleteKinds_planned (a : Attributes) : deleteKinds a.planned = deleteKinds a := by
  cases a <;> rfl

theorem createKinds_planned (a : Attributes) : createKinds a.planned = createKinds a := by
  cases a <;> rfl

theorem obstacle?_planned (old new : Device) :
    obstacle? lhs rhs old.planned new.planned = obstacle? lhs rhs old new := by
  unfold obstacle? Device.planned
  cases old.attributes <;> cases new.attributes <;> rfl

theorem changeKinds_planned (old new : Device) :
    changeKinds lhs rhs old.planned new.planned = changeKinds lhs rhs old new := by
  unfold changeKinds Device.planned
  cases old.attributes <;> cases new.attributes <;> rfl

theorem dependentLogicals_agree (left : Lookalike lhs lhs') :
    dependentLogicals lhs = dependentLogicals lhs' := by
  funext sid
  refine left.find_bind fun d e planned => ?_
  rw [Device.kind_eq planned, left.logicalPartitionsOf_eq]

/-- What keeps a device from being changed in place, if it is in both devicegraphs. -/
def hindrance? (lhs rhs : Devicegraph) (new : Device) :
    Except Failure (Option (Device × Obstacle)) := do
  match lhs.find? new.sid with
  | none => return none
  | some old => return (← obstacle? lhs rhs old new).map (new, ·)

theorem hindered_eq : hindered lhs rhs =
    List.filterMap id <$> rhs.devices.mapM (hindrance? lhs rhs) := by
  unfold hindered hindrance?
  rfl

theorem extendedPartitions_agree (left : Lookalike lhs lhs') :
    Setting.extendedPartitions lhs = Setting.extendedPartitions lhs' := by
  simp only [Setting.extendedPartitions, left.allOfKind_eq, left.extendedPartition_eq]

section

variable (left : Lookalike lhs lhs') (right : Lookalike rhs rhs')

include left right

theorem filesystemResize?_agree : filesystemResize? lhs rhs = filesystemResize? lhs' rhs' := by
  funext sid
  simp only [filesystemResize?, right.filesystemBlkDevice_eq, left.partition_eq,
    right.partition_eq]

variable {old old' new new' : Device}

theorem obstacle?_agree (before : old.planned = old'.planned) (after : new.planned = new'.planned) :
    obstacle? lhs rhs old new = obstacle? lhs' rhs' old' new' := by
  rw [← obstacle?_planned old, before, after, obstacle?_planned]
  simp only [obstacle?, left.parents_eq, right.parents_eq, filesystemResize?_agree left right]

theorem changeKinds_agree (before : old.planned = old'.planned)
    (after : new.planned = new'.planned) :
    changeKinds lhs rhs old new = changeKinds lhs' rhs' old' new' := by
  rw [← changeKinds_planned old, before, after, changeKinds_planned]
  simp only [changeKinds, filesystemResize?_agree left right]

/-! ### Which devices are replaced -/

theorem dependents_agree : dependents lhs rhs = dependents lhs' rhs' := by
  funext sid
  simp only [dependents, left.descendants_eq, right.descendants_eq]

theorem hindrance?_agree (new new' : Device) (planned : new.planned = new'.planned) :
    Option.map (fun x => x.1.sid) <$> hindrance? lhs rhs new =
      Option.map (fun x => x.1.sid) <$> hindrance? lhs' rhs' new' := by
  unfold hindrance?
  rw [Device.sid_eq planned]
  rcases left.find?_cases new'.sid with ⟨hd, he⟩ | ⟨d, e, hd, he, before⟩
  · rw [hd, he]
  · rw [hd, he]
    simp only [obstacle?_agree left right before planned]
    cases obstacle? lhs' rhs' e new' with
    | error _ => rfl
    | ok o =>
      cases o with
      | none => rfl
      | some o =>
        change Except.ok (some new.sid) = Except.ok (some new'.sid)
        rw [Device.sid_eq planned]

/-- The same devices cannot be changed in place. -/
theorem hindered_agree {found found' : List (Device × Obstacle)} (h : hindered lhs rhs = .ok found)
    (h' : hindered lhs' rhs' = .ok found') :
    found.map (fun x => x.1.sid) = found'.map fun x => x.1.sid := by
  have looked := map_mapM_of_forall₂ right.devices (hindrance?_agree left right)
  rw [hindered_eq] at h h'
  cases hl : rhs.devices.mapM (hindrance? lhs rhs) with
  | error _ =>
    rw [hl] at h
    cases h
  | ok l =>
    cases hl' : rhs'.devices.mapM (hindrance? lhs' rhs') with
    | error _ =>
      rw [hl'] at h'
      cases h'
    | ok l' =>
      rw [hl] at h looked
      rw [hl'] at h' looked
      obtain rfl := Except.ok.inj h
      obtain rfl := Except.ok.inj h'
      have options := congrArg (List.filterMap id) (Except.ok.inj looked)
      rw [List.filterMap_map, List.filterMap_map] at options
      rw [List.map_filterMap, List.map_filterMap]
      exact options

theorem replaced_agree {replaced : List Sid} (h : Plan.replaced lhs rhs = .ok replaced) :
    Plan.replaced lhs' rhs' = .ok replaced := by
  obtain ⟨found, logicals, outer, hfound, hlogicals, houter, rfl⟩ := replaced_eq_ok.1 h
  obtain ⟨found', hfound'⟩ := hindered_total left.valid' right.valid'
  have sids := hindered_agree left right hfound hfound'
  simp only [sids, left.contains_eq, right.contains_eq, dependentLogicals_agree left,
    dependents_agree left right] at hlogicals houter ⊢
  exact replaced_eq_ok.2 ⟨found', logicals, outer, hfound', hlogicals, houter, rfl⟩

/-! ### The chains and their dependencies -/

variable (replaced : List Sid)

theorem deleted_agree {α : Type} {f : Device → α}
    (hf : ∀ d e, d.planned = e.planned → f d = f e) :
    (deleted lhs rhs replaced).map f = (deleted lhs' rhs' replaced).map f := by
  rw [← List.forall₂_eq_eq_eq]
  refine List.rel_map hf (List.rel_filter (fun d e planned => ?_) left.devices)
  simp only [right.contains_eq, Device.sid_eq planned]

theorem created_agree {α : Type} {f : Device → α}
    (hf : ∀ d e, d.planned = e.planned → f d = f e) :
    (created lhs rhs replaced).map f = (created lhs' rhs' replaced).map f := by
  rw [← List.forall₂_eq_eq_eq]
  refine List.rel_map hf (List.rel_filter (fun d e planned => ?_) right.devices)
  simp only [left.contains_eq, Device.sid_eq planned]

theorem kept_agree : List.Forall₂ (fun x y => x.1.planned = y.1.planned ∧ x.2.planned = y.2.planned)
    (kept lhs rhs replaced) (kept lhs' rhs' replaced) := by
  refine List.rel_filterMap (R := fun d e : Device => d.planned = e.planned) ?_
    (List.rel_filter (fun d e planned => by simp only [Device.sid_eq planned]) right.devices)
  intro d e planned
  simp only [Device.sid_eq planned]
  rcases left.find?_cases e.sid with ⟨hold, hold'⟩ | ⟨old, old', hold, hold', before⟩
  · rw [hold, hold']
    exact .none
  · rw [hold, hold']
    exact .some ⟨before, planned⟩

theorem chains_agree {cs : List Chain} (h : chains lhs rhs = .ok cs) :
    chains lhs' rhs' = .ok cs := by
  obtain ⟨replaced, changes, hreplaced, hchanges, rfl⟩ := chains_eq_ok.1 h
  refine chains_eq_ok.2 ⟨replaced, changes, replaced_agree left right hreplaced, ?_, ?_⟩
  · rw [← hchanges]
    refine (mapM_of_forall₂ (kept_agree left right replaced) fun x y planned => ?_).symm
    rw [changeKinds_agree left right planned.1 planned.2, Device.sid_eq planned.2]
  · rw [deleted_agree left right replaced fun d e planned => ?_,
      created_agree left right replaced fun d e planned => ?_]
    · rw [← createKinds_planned, Device.attributes_eq planned, createKinds_planned,
        Device.sid_eq planned]
    · rw [← deleteKinds_planned, Device.attributes_eq planned, deleteKinds_planned,
        Device.sid_eq planned]

theorem spaceOrder_agree (chains : List Chain) :
    Setting.spaceOrder ⟨lhs, rhs, chains⟩ = Setting.spaceOrder ⟨lhs', rhs', chains⟩ := by
  have common := List.rel_filter (p := fun d : Device => rhs.contains d.sid)
    (q := fun d : Device => rhs'.contains d.sid)
    (fun d e planned => by simp only [right.contains_eq, Device.sid_eq planned]) left.devices
  refine flatMapM_of_forall₂ common fun d e planned => ?_
  simp only [left.children_eq, right.children_eq, Device.sid_eq planned]
  rfl

/-- The rules only look at the devicegraphs where these agree. -/
theorem dependencies_agree (chains : List Chain) :
    Setting.dependencies ⟨lhs, rhs, chains⟩ = Setting.dependencies ⟨lhs', rhs', chains⟩ := by
  have creation : Setting.creationOrder ⟨lhs, rhs, chains⟩ =
      Setting.creationOrder ⟨lhs', rhs', chains⟩ := by
    simp only [Setting.creationOrder, right.parents_eq]
    rfl
  have deletion : Setting.deletionOrder ⟨lhs, rhs, chains⟩ =
      Setting.deletionOrder ⟨lhs', rhs', chains⟩ := by
    simp only [Setting.deletionOrder, left.parents_eq]
    rfl
  have follow : Setting.followOrder ⟨lhs, rhs, chains⟩ =
      Setting.followOrder ⟨lhs', rhs', chains⟩ := by
    simp only [Setting.followOrder, right.filesystemBlkDevice_eq]
    rfl
  have around : Setting.aroundResizes ⟨lhs, rhs, chains⟩ =
      Setting.aroundResizes ⟨lhs', rhs', chains⟩ := by
    simp only [Setting.aroundResizes, left.children_eq, right.children_eq]
    rfl
  have before : Setting.beforeExtended ⟨lhs, rhs, chains⟩ =
      Setting.beforeExtended ⟨lhs', rhs', chains⟩ := by
    simp only [Setting.beforeExtended, extendedPartitions_agree left, left.logicalPartitionsOf_eq]
    rfl
  have after : Setting.afterExtended ⟨lhs, rhs, chains⟩ =
      Setting.afterExtended ⟨lhs', rhs', chains⟩ := by
    simp only [Setting.afterExtended, extendedPartitions_agree right, right.logicalPartitionsOf_eq]
    rfl
  simp only [Setting.dependencies, creation, deletion, spaceOrder_agree left right chains, follow,
    around, before, after]
  rfl

theorem actiongraph_agree : actiongraph lhs rhs = actiongraph lhs' rhs' := by
  obtain ⟨cs, hcs⟩ := chains_total left.valid right.valid
  simp only [actiongraph, hcs, chains_agree left right hcs, dependencies_agree left right cs, bind,
    Except.bind]
  rfl

end

/-- Plans do not look at the attributes of disks nor at user data. Where devicegraphs only differ in
these, the same actions come in the same order, for the same dependencies. -/
theorem between_agree (hl : lhs.check = .ok ()) (hl' : lhs'.check = .ok ())
    (hr : rhs.check = .ok ()) (hr' : rhs'.check = .ok ())
    (before : lhs.document.planned = lhs'.document.planned)
    (after : rhs.document.planned = rhs'.document.planned) :
    ∃ p p', between lhs rhs = .ok p ∧ between lhs' rhs' = .ok p' ∧
      p.actions = p'.actions ∧ p.graph = p'.graph := by
  have left := Lookalike.of_documents hl hl' before
  have right := Lookalike.of_documents hr hr' after
  obtain ⟨s, _, _, order, rfl, rfl, _, hg, _, horder, _⟩ := ordered_of_check hl hr
  have hg' := actiongraph_agree left right ▸ hg
  have plan := between_eq_ok.2 ⟨hl, hr, _, order, hg, horder, rfl⟩
  have plan' := between_eq_ok.2 ⟨hl', hr', _, order, hg', horder, rfl⟩
  exact ⟨_, _, plan, plan', rfl, rfl⟩

/-- A partition with a filesystem on a disk that has a note attached. -/
def attached (disk : Disk) (note : UserData) (length : Nat) : Devicegraph :=
  let p : Partition := { name := "/dev/sda1", region := ⟨2048, length, 512⟩, id := 0x83 }
  let devices := (((Devicegraph.empty.addDevice ⟨1, .disk disk, note⟩).addDevice
    ⟨2, .partitionTable ⟨.gpt⟩, []⟩).addDevice ⟨3, .partition p, []⟩).addDevice
    ⟨4, .filesystem { fsType := .ext4, mountpoints := ["/home"] }, []⟩
  ((devices.addEdge 1 2 .user).addEdge 2 3 .subdevice).addEdge 3 4 .user

/-- The partition grows the same on a larger disk of another name, with a note. -/
theorem between_agree_attached : ∃ p p',
    between (attached { name := "/dev/sda", sizeK := 1048576 } [] 4096)
      (attached { name := "/dev/sda", sizeK := 1048576 } [] 8192) = .ok p ∧
    between
      (attached { name := "/dev/vda", sizeK := 2097152, rotational := true } [("bay", "3")] 4096)
      (attached { name := "/dev/vdb", sizeK := 4194304 } [("bay", "4")] 8192) = .ok p' ∧
    p.actions = p'.actions ∧ p.graph = p'.graph :=
  between_agree (by cbv) (by cbv) (by cbv) (by cbv) (by cbv) (by cbv)

end Plan

end StoragePlan
