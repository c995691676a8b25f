import StoragePlan.Proofs.Lawful

/-!
# Changing a device

A device that keeps its sid and its kind can break only two rules when it changes (`Altered`): that
on names, and that on the layouts of partition tables (`Altered.lawful_iff`). For each kind of device
this comes down to one check: the changed devicegraph is lawful exactly if that check succeeds
(`Lawful.setPartition_iff`, `Lawful.setDisk_iff`, `Lawful.setPartitionTable_iff`). A filesystem and
user data can change freely.
-/

namespace StoragePlan.Devicegraph

open Attempt

variable {g g' : Devicegraph} {sid table : Sid} {d d' : Device}

/-- The devicegraph `g'` has the device `d'` in place of `d`, which is of the same kind. -/
structure Altered (g g' : Devicegraph) (d d' : Device) : Prop where
  edges : g'.edges = g.edges
  whole : g.Whole → g'.Whole
  find? : ∀ x, g'.find? x = if x = d.sid then some d' else g.find? x
  found : g.find? d.sid = some d
  sid : d'.sid = d.sid
  kind : d'.kind = d.kind

section

variable {f : Device → Device} {hf : ∀ d, (f d).sid = d.sid}

theorem node?_changeDevice (r : Ref) : (g.changeDevice sid f hf).node? r =
    (g.node? r).map fun n => if r = ⟨sid, 0⟩ then ⟨f n.device, 0⟩ else n := by
  let change := fun n : Node => if n.ref = ⟨sid, 0⟩ then ⟨f n.device, 0⟩ else n
  have refs : ∀ n, (change n).ref = n.ref := by
    intro n
    by_cases here : n.ref = ⟨sid, 0⟩
    · have sid_eq : n.device.sid = sid := congrArg Ref.sid here
      have changed : change n = ⟨f n.device, 0⟩ := if_pos here
      rw [changed, here, Node.ref, hf, sid_eq]
    · rw [show change n = n from if_neg here]
  change (g.nodes.map change).find? _ = _
  rw [List.find?_map, node?]
  have same : ((fun n : Node => n.ref == r) ∘ change) = fun n => n.ref == r := by
    funext n
    rw [Function.comp_apply, refs]
  rw [same]
  refine Option.map_congr fun n hn => ?_
  have ref_eq : n.ref = r := by simpa using List.find?_some hn
  rw [← ref_eq]

/-- Changing a device alters the devicegraph there. -/
theorem altered_changeDevice (hd : g.find? sid = some d) (hk : (f d).kind = d.kind) :
    Altered g (g.changeDevice sid f hf) d (f d) := by
  obtain rfl := sid_of_find? hd
  refine ⟨rfl, fun whole n hn => ?_, fun x => ?_, hd, hf d, hk⟩
  · obtain ⟨m, hm, rfl⟩ := List.mem_map.1 hn
    split
    · rfl
    · exact whole m hm
  · rw [find?, node?_changeDevice]
    by_cases here : x = d.sid
    · subst here
      obtain ⟨n, hn, hnd⟩ := Option.map_eq_some_iff.1 hd
      simp [hn, hnd]
    · rw [if_neg here, find?]
      simp [here]

theorem altered_setAttributes {a : Attributes} (hd : g.find? sid = some d) (hk : a.kind = d.kind) :
    Altered g (g.setAttributes sid a) d { d with attributes := a } := altered_changeDevice hd hk

theorem altered_setUserData {u : UserData} (hd : g.find? sid = some d) :
    Altered g (g.setUserData sid u) d { d with userData := u } := altered_changeDevice hd rfl

end

namespace Altered

variable {x disk : Sid}

/-! ### What stays -/

theorem kinds (h : Altered g g' d d') {c c' : Device} (hc : g.find? x = some c)
    (hc' : g'.find? x = some c') : c'.kind = c.kind := by
  rw [h.find?] at hc'
  split at hc'
  · next here =>
    subst here
    rw [← Option.some.inj hc', ← Option.some.inj (h.found.symm.trans hc), h.kind]
  · rw [Option.some.inj (hc.symm.trans hc')]

theorem edgesAt_eq (h : Altered g g' d d') (dir : Direction) (r : Ref) :
    g'.edgesAt dir r = g.edgesAt dir r := by
  unfold edgesAt
  rw [h.edges]

theorem joined (h : Altered g g' d d') (law : g.Lawful) {c : Device} (hc : g'.find? x = some c) :
    g'.Joined c := by
  have carry : ∀ {y b b'}, g.find? y = some b → b'.sid = b.sid → b'.kind = b.kind →
      g'.Joined b' := by
    intro y b b' hb sid_eq kind_eq
    refine (law.joined hb).carry (h.whole law.whole) sid_eq kind_eq (h.edgesAt_eq ..) ?_ h.kinds
    rw [h.edgesAt_eq]
    exact (law.joined hb).below
  rw [h.find?] at hc
  split at hc
  · obtain rfl := Option.some.inj hc
    exact carry h.found h.sid h.kind
  · exact carry hc rfl rfl

theorem sitsOn_iff (h : Altered g g' d d') {child parent : Sid} :
    g'.SitsOn child parent ↔ g.SitsOn child parent := by
  unfold SitsOn
  rw [h.edges]

/-- Every device stays where it is. -/
theorem parent?_eq (h : Altered g g' d d') (law : g.Lawful) (x : Sid) :
    g'.parent? x = g.parent? x := by
  refine Option.ext fun parent => ?_
  rw [← sitsOn_iff_of_joined (h.whole law.whole) (h.joined law), h.sitsOn_iff, law.sitsOn_iff]

/-- What can be read of the changed device as before can be read of all. -/
theorem attributesOf_iff (h : Altered g g' d d') {α : Type} {kind : DeviceKind}
    {read : Attributes → Option α} {a : α} (same : read d'.attributes = read d.attributes) :
    g'.attributesOf kind read x = .ok a ↔ g.attributesOf kind read x = .ok a := by
  rw [attributesOf_eq_ok, attributesOf_eq_ok, h.find?]
  by_cases here : x = d.sid
  · subst here
    simp [h.found, same]
  · rw [if_neg here]

theorem partAt_eq_some (h : Altered g g' d d') (law : g.Lawful) {p : Partition} :
    g'.partAt table x = some p ↔ g.parent? x = some table ∧ g'.partition x = .ok p := by
  rw [Devicegraph.partAt_eq_some, h.parent?_eq law]

/-- A change that is not one of a partition leaves the layouts alone. -/
theorem partAt_eq (h : Altered g g' d d') (law : g.Lawful)
    (same : d'.attributes.partition? = d.attributes.partition?) :
    g'.partAt table = g.partAt table := by
  funext x
  refine Option.ext fun p => ?_
  rw [h.partAt_eq_some law, Devicegraph.partAt_eq_some]
  exact and_congr_right fun _ => h.attributesOf_iff same

/-- A changed partition is put into its table in place of the old one. -/
theorem partAt_update (h : Altered g g' d d') (law : g.Lawful)
    (hp : g.parent? d.sid = some table) {p : Partition} (ha : d'.attributes = .partition p) :
    g'.partAt table = Function.update (g.partAt table) d.sid (some p) := by
  funext x
  by_cases here : x = d.sid
  · subst here
    rw [Function.update_self, h.partAt_eq_some law]
    exact ⟨hp, partition_eq_ok.2 ⟨d', by rw [h.find?, if_pos rfl], ha⟩⟩
  · rw [Function.update_of_ne here]
    refine Option.ext fun q => ?_
    rw [h.partAt_eq_some law, Devicegraph.partAt_eq_some, partition_eq_ok, partition_eq_ok, h.find?,
      if_neg here]

/-- A changed partition does not matter to other tables. -/
theorem partAt_of_ne (h : Altered g g' d d') (law : g.Lawful)
    (hp : g.parent? d.sid ≠ some table) : g'.partAt table = g.partAt table := by
  funext x
  refine Option.ext fun q => ?_
  rw [h.partAt_eq_some law, Devicegraph.partAt_eq_some]
  refine and_congr_right fun hx => ?_
  have other : x ≠ d.sid := by
    rintro rfl
    exact hp hx
  rw [partition_eq_ok, partition_eq_ok, h.find?, if_neg other]

/-! ### What can break -/

/-- The names and the layouts decide. -/
theorem lawful_iff (h : Altered g g' d d') (law : g.Lawful) : g'.Lawful ↔
    (∀ name, d'.name? = some name → g.checkNameUnused name (some d.sid) = .ok ()) ∧
    ∀ {table disk t a}, g'.partitionTable table = .ok t → g.parent? table = some disk →
      g'.disk disk = .ok a → Arranged t.ptType a (g'.partAt table) := by
  have here : g'.find? d.sid = some d' := by rw [h.find?, if_pos rfl]
  have elsewhere : ∀ {x}, x ≠ d.sid → g'.find? x = g.find? x := fun ne => by
    rw [h.find?, if_neg ne]
  constructor
  · intro law'
    refine ⟨fun name hn => checkNameUnused_eq_ok.2 fun {x c} hc hcn => ?_, fun ht hp ha => ?_⟩
    · by_cases same : x = d.sid
      · rw [same]
      · exact congrArg some (law'.named here ((elsewhere same).trans hc) hn hcn)
    · exact law'.arranged ht ((h.parent?_eq law _).trans hp) ha
  · rintro ⟨unused, arranged⟩
    refine ⟨h.whole law.whole, h.joined law, fun {x y b c name} hb hc hbn hcn => ?_,
      fun ht hp ha => arranged ht ((h.parent?_eq law _).symm.trans hp) ha⟩
    have named : ∀ {z e}, g.find? z = some e → d'.name? = some name → e.name? = some name →
        d.sid = z := fun he hn hen =>
      Option.some.inj (checkNameUnused_eq_ok.1 (unused name hn) he hen)
    by_cases hx : x = d.sid <;> by_cases hy : y = d.sid
    · rw [hx, hy]
    · subst hx
      obtain rfl := Option.some.inj (here.symm.trans hb)
      exact named ((elsewhere hy).symm.trans hc) hbn hcn
    · subst hy
      obtain rfl := Option.some.inj (here.symm.trans hc)
      exact (named ((elsewhere hx).symm.trans hb) hcn hbn).symm
    · exact law.named ((elsewhere hx).symm.trans hb) ((elsewhere hy).symm.trans hc) hbn hcn

/-- A device can keep its name. -/
theorem unused_of_name?_eq (h : Altered g g' d d') (law : g.Lawful) (same : d'.name? = d.name?)
    (name : String) (hn : d'.name? = some name) :
    g.checkNameUnused name (some d.sid) = .ok () :=
  checkNameUnused_eq_ok.2 fun hc hcn => congrArg some (law.named h.found hc (same ▸ hn) hcn)

/-- What no rule reads can change. -/
theorem lawful (h : Altered g g' d d') (law : g.Lawful) (name : d'.name? = d.name?)
    (tables : d'.attributes.partitionTable? = d.attributes.partitionTable?)
    (disks : d'.attributes.disk? = d.attributes.disk?)
    (partitions : d'.attributes.partition? = d.attributes.partition?) : g'.Lawful := by
  refine (h.lawful_iff law).2 ⟨h.unused_of_name?_eq law name, fun ht hp ha => ?_⟩
  rw [h.partAt_eq law partitions]
  exact law.arranged ((h.attributesOf_iff tables).1 ht) hp ((h.attributesOf_iff disks).1 ha)

end Altered

/-! ### Partitions -/

/-- The layouts are right when a changed partition is accepted in its table. -/
theorem Altered.arranged_iff (h : Altered g g' d d') (law : g.Lawful) {p p' : Partition}
    (ha : d.attributes = .partition p) (ha' : d'.attributes = .partition p')
    (ht : g.parent? d.sid = some table) :
    (∀ {table disk t a}, g'.partitionTable table = .ok t → g.parent? table = some disk →
      g'.disk disk = .ok a → Arranged t.ptType a (g'.partAt table)) ↔
      g.checkPartitionPlacement table p' (some d.sid) = .ok () := by
  have tables : ∀ {x t}, g'.partitionTable x = .ok t ↔ g.partitionTable x = .ok t :=
    h.attributesOf_iff (by simp [ha, ha', Attributes.partitionTable?])
  have disks : ∀ {x a}, g'.disk x = .ok a ↔ g.disk x = .ok a :=
    h.attributesOf_iff (by simp [ha, ha', Attributes.disk?])
  obtain ⟨t, disk, a, htable, hdisk, hda, parts⟩ :=
    law.around_partition (partition_eq_ok.2 ⟨d, h.found, ha⟩) ht
  obtain ⟨siblings, others, accepted⟩ := checkPartitionPlacement_eq_ok d.sid p' law.whole
    law.sitsOn_iff (.inl rfl) htable hdisk hda parts
  rw [accepted]
  constructor
  · intro all
    have layout := all (tables.2 htable) hdisk (disks.2 hda)
    rw [h.partAt_update law ht ha'] at layout
    exact ⟨layout.suits (Function.update_self ..),
      layout.checked (Function.update_self ..) (others.update _)⟩
  · rintro ⟨suits, fit⟩ table₂ disk₂ t₂ a₂ ht₂ hdisk₂ hda₂
    have layout := law.arranged (tables.1 ht₂) hdisk₂ (disks.1 hda₂)
    by_cases same : table₂ = table
    · subst same
      obtain rfl := Option.some.inj (hdisk.symm.trans hdisk₂)
      obtain rfl := Except.ok.inj (htable.symm.trans (tables.1 ht₂))
      obtain rfl := Except.ok.inj (hda.symm.trans (disks.1 hda₂))
      rw [h.partAt_update law ht ha']
      exact layout.put suits others fit
    · rw [h.partAt_of_ne law fun hp => same (Option.some.inj (hp.symm.trans ht))]
      exact layout

/-- A changed partition has to have an unused name and to be accepted in its table. -/
theorem Lawful.setPartition_iff (law : g.Lawful) {p p' : Partition} (hp : g.partition sid = .ok p)
    (ht : g.parent? sid = some table) : (g.setAttributes sid (.partition p')).Lawful ↔
      g.checkNameUnused p'.name (some sid) = .ok () ∧
        g.checkPartitionPlacement table p' (some sid) = .ok () := by
  obtain ⟨d, hd, hda⟩ := partition_eq_ok.1 hp
  obtain rfl := sid_of_find? hd
  have h := altered_setAttributes (a := .partition p') hd (isPartition_of_attributes hda).symm
  have names : (∀ name, ({ d with attributes := .partition p' } : Device).name? = some name →
      g.checkNameUnused name (some d.sid) = .ok ()) ↔
        g.checkNameUnused p'.name (some d.sid) = .ok () := by
    simp [Device.name?, Attributes.name?]
  rw [h.lawful_iff law, h.arranged_iff law hda rfl ht, names]

/-- What the check of a partition does not read can change. -/
theorem Lawful.setPartition (law : g.Lawful) {p p' : Partition} (hp : g.partition sid = .ok p)
    (name : p'.name = p.name) (type : p'.type = p.type) (region : p'.region = p.region) :
    (g.setAttributes sid (.partition p')).Lawful := by
  obtain ⟨d, hd, ha⟩ := partition_eq_ok.1 hp
  obtain ⟨table, _, ht, _⟩ := law.valid.exists_table hd (isPartition_of_attributes ha)
  have unused : g.checkNameUnused p.name (some sid) = .ok () :=
    checkNameUnused_eq_ok.2 fun hx hn => congrArg some <|
      law.named hd hx (by rw [Device.name?, ha]; rfl) hn
  have placed := law.placed hp ht
  obtain ⟨n, ty, r, id, boot⟩ := p'
  subst name type region
  exact (law.setPartition_iff hp ht).2 ⟨unused, placed⟩

/-! ### Disks -/

/-- What is found on a device that holds at most one. -/
theorem childOfKind_spec (h : g.Valid) (hd : g.find? sid = some d) (hk : d.kind ≠ .partitionTable)
    (kind : DeviceKind) : ∃ child?, g.childOfKind sid kind = .ok child? ∧
      ∀ child, child? = some child ↔
        g.parent? child = some sid ∧ ∃ c, g.find? child = some c ∧ c.kind = kind := by
  obtain ⟨l, hl⟩ := children_total hd
  have test : ∀ {x b}, (do return (← g.find x).kind == kind : Except Failure Bool) = .ok b ↔
      ∃ c, g.find? x = some c ∧ (c.kind == kind) = b := by
    intro x b
    simp only [bind_eq_ok, find_eq_ok, pure_eq_ok]
  obtain ⟨child?, hr, found, missing⟩ := findM?_spec (l := l)
    (f := fun x => do return (← g.find x).kind == kind) fun x hx => by
      obtain ⟨c, hc⟩ := h.child_found ((h.mem_children hl).1 hx)
      exact ⟨_, test.2 ⟨c, hc, rfl⟩⟩
  refine ⟨child?, by simp only [childOfKind, hl]; exact hr, fun child => ⟨fun some => ?_, ?_⟩⟩
  · obtain ⟨member, passes⟩ := found child some
    obtain ⟨c, hc, same⟩ := test.1 passes
    exact ⟨(h.mem_children hl).1 member, c, hc, by simpa using same⟩
  · rintro ⟨hp, c, hc, hck⟩
    cases hr' : child? with
    | some other =>
      rw [h.onlyChild hd hk ((h.mem_children hl).1 (found other hr').1) hp]
    | none =>
      obtain ⟨c', hc', differs⟩ := test.1 (missing hr' child ((h.mem_children hl).2 hp))
      obtain rfl := Option.some.inj (hc.symm.trans hc')
      simp [hck] at differs

/-- The partition table on a disk. -/
theorem diskPartitionTable_spec (h : g.Valid) {a : Disk} (ha : g.disk sid = .ok a) :
    ∃ table?, g.diskPartitionTable sid = .ok table? ∧ ∀ table, table? = some table ↔
      g.parent? table = some sid ∧ ∃ t, g.partitionTable table = .ok t := by
  obtain ⟨d, hd, hda⟩ := disk_eq_ok.1 ha
  have isDisk : d.kind = .disk := by rw [Device.kind, hda]; rfl
  obtain ⟨table?, htable, spec⟩ := childOfKind_spec h hd (by simp [isDisk]) .partitionTable
  refine ⟨table?, bind_eq_ok.2 ⟨a, ha, htable⟩, fun table => ?_⟩
  rw [spec]
  refine and_congr_right fun _ => ⟨?_, ?_⟩
  · rintro ⟨c, hc, hck⟩
    obtain ⟨t, hca⟩ := attributes_of_isPartitionTable hck
    exact ⟨t, partitionTable_eq_ok.2 ⟨c, hc, hca⟩⟩
  · rintro ⟨t, ht⟩
    obtain ⟨c, hc, hca⟩ := partitionTable_eq_ok.1 ht
    exact ⟨c, hc, by rw [Device.kind, hca]; rfl⟩

/-- A changed disk is compared with all partitions on it. -/
theorem checkPartitionsFit_eq_ok (h : g.Valid) {a a' : Disk} (ha : g.disk sid = .ok a) :
    g.checkPartitionsFit sid a' = .ok () ↔ ∀ {table t x p}, g.partitionTable table = .ok t →
      g.parent? table = some sid → g.partAt table x = some p → checkFits p a' = .ok () := by
  obtain ⟨table?, htable, spec⟩ := diskPartitionTable_spec h ha
  simp only [checkPartitionsFit, bind_eq_ok, htable, Except.ok.injEq, exists_eq_left']
  cases table? with
  | none =>
    refine iff_of_true rfl fun ht hp _ => ?_
    cases (spec _).2 ⟨hp, _, ht⟩
  | some table =>
    obtain ⟨hp, t, ht⟩ := (spec table).1 rfl
    obtain ⟨l, hl⟩ := Valid.partitions_total ht
    simp only [bind_eq_ok, hl, Except.ok.injEq, exists_eq_left', forM_eq_ok, h.mem_partitions hl]
    constructor
    · intro all table₂ t₂ x p ht₂ hp₂ hx
      obtain rfl := Option.some.inj ((spec table₂).2 ⟨hp₂, t₂, ht₂⟩)
      obtain ⟨px, hpart⟩ := partAt_eq_some.1 hx
      obtain ⟨q, hq, fits⟩ := all x px
      rwa [Except.ok.inj (hpart.symm.trans hq)]
    · intro all x px
      obtain ⟨p, hpart⟩ := h.exists_partition ht px
      exact ⟨p, hpart, all ht hp (partAt_eq_some.2 ⟨px, hpart⟩)⟩

/-- A changed disk has to hold the partitions on it. -/
theorem Lawful.setDisk_iff (law : g.Lawful) {a a' : Disk} (ha : g.disk sid = .ok a)
    (name : a'.name = a.name) :
    (g.setAttributes sid (.disk a')).Lawful ↔ g.checkPartitionsFit sid a' = .ok () := by
  obtain ⟨d, hd, hda⟩ := disk_eq_ok.1 ha
  obtain rfl := sid_of_find? hd
  have isDisk : d.kind = .disk := by rw [Device.kind, hda]; rfl
  have h := altered_setAttributes (a := .disk a') hd isDisk.symm
  have here : (g.setAttributes d.sid (.disk a')).disk d.sid = .ok a' :=
    disk_eq_ok.2 ⟨_, by rw [h.find?, if_pos rfl], rfl⟩
  have elsewhere : ∀ {x b}, x ≠ d.sid →
      ((g.setAttributes d.sid (.disk a')).disk x = .ok b ↔ g.disk x = .ok b) := by
    intro x b ne
    rw [disk_eq_ok, disk_eq_ok, h.find?, if_neg ne]
  have tables : ∀ {x t}, (g.setAttributes d.sid (.disk a')).partitionTable x = .ok t ↔
      g.partitionTable x = .ok t := h.attributesOf_iff (by simp [hda, Attributes.partitionTable?])
  have layouts : ∀ {table}, (g.setAttributes d.sid (.disk a')).partAt table = g.partAt table :=
    h.partAt_eq law (by simp [hda, Attributes.partition?])
  have names := h.unused_of_name?_eq law (by simp [Device.name?, hda, Attributes.name?, name])
  rw [h.lawful_iff law, and_iff_right names, checkPartitionsFit_eq_ok law.valid ha]
  constructor
  · intro all table t x p ht hp hx
    have layout := all (tables.2 ht) hp here
    rw [layouts] at layout
    exact (layout.suits hx).fits
  · intro fits table disk t b ht hp hb
    rw [layouts]
    by_cases same : disk = d.sid
    · subst same
      obtain rfl := Except.ok.inj (here.symm.trans hb)
      have layout := law.arranged (tables.1 ht) hp ha
      exact layout.move fun hx => { layout.suits hx with fits := fits (tables.1 ht) hp hx }
    · exact law.arranged (tables.1 ht) hp ((elsewhere same).1 hb)

/-- What the check of a disk does not read can change. -/
theorem Lawful.setDisk (law : g.Lawful) {a a' : Disk} (ha : g.disk sid = .ok a)
    (name : a'.name = a.name) (sizeK : a'.sizeK = a.sizeK)
    (sectorSize : a'.sectorSize = a.sectorSize) : (g.setAttributes sid (.disk a')).Lawful := by
  refine (law.setDisk_iff ha name).2 ((checkPartitionsFit_eq_ok law.valid ha).2 fun ht hp hx => ?_)
  have fits := ((law.arranged ht hp ha).suits hx).fits
  obtain ⟨n, k, z, rotational, transport⟩ := a'
  subst name sizeK sectorSize
  exact fits

/-! ### Filesystems and user data -/

/-- No rule reads the attributes of a filesystem. -/
theorem Lawful.setFilesystem (law : g.Lawful) {fs : Filesystem} (h : g.filesystem sid = .ok fs)
    (fs' : Filesystem) : (g.setAttributes sid (.filesystem fs')).Lawful := by
  obtain ⟨d, hd, ha⟩ := filesystem_eq_ok.1 h
  have isFilesystem : d.kind = .filesystem := by rw [Device.kind, ha]; rfl
  have h := altered_setAttributes (a := .filesystem fs') hd isFilesystem.symm
  exact h.lawful law (by rw [Device.name?, Device.name?, ha]; rfl) (by rw [ha]; rfl)
    (by rw [ha]; rfl) (by rw [ha]; rfl)

/-- No rule reads user data. -/
theorem Lawful.setUserData (law : g.Lawful) (hd : g.find? sid = some d) (u : UserData) :
    (g.setUserData sid u).Lawful := (altered_setUserData hd).lawful law rfl rfl rfl rfl

/-! ### Partition tables -/

/-- A changed table has to accept the partitions that it has. -/
theorem Lawful.setPartitionTable_iff (law : g.Lawful) {t t' : PartitionTable}
    (ht : g.partitionTable sid = .ok t) : (g.setAttributes sid (.partitionTable t')).Lawful ↔
      (g.setAttributes sid (.partitionTable t')).checkLayout sid = .ok () := by
  obtain ⟨d, hd, hda⟩ := partitionTable_eq_ok.1 ht
  obtain rfl := sid_of_find? hd
  have isTable : d.kind = .partitionTable := by rw [Device.kind, hda]; rfl
  have h := altered_setAttributes (a := .partitionTable t') hd isTable.symm
  have here : (g.setAttributes d.sid (.partitionTable t')).partitionTable d.sid = .ok t' :=
    partitionTable_eq_ok.2 ⟨_, by rw [h.find?, if_pos rfl], rfl⟩
  refine ⟨fun law' => law'.valid.checkLayout here, fun accepted => ?_⟩
  have elsewhere : ∀ {x s}, x ≠ d.sid →
      ((g.setAttributes d.sid (.partitionTable t')).partitionTable x = .ok s ↔
        g.partitionTable x = .ok s) := by
    intro x s ne
    rw [partitionTable_eq_ok, partitionTable_eq_ok, h.find?, if_neg ne]
  have disks : ∀ {x a}, (g.setAttributes d.sid (.partitionTable t')).disk x = .ok a ↔
      g.disk x = .ok a := h.attributesOf_iff (by simp [hda, Attributes.disk?])
  have layouts : ∀ {table}, (g.setAttributes d.sid (.partitionTable t')).partAt table =
      g.partAt table := h.partAt_eq law (by simp [hda, Attributes.partition?])
  refine (h.lawful_iff law).2 ⟨by simp [Device.name?, Attributes.name?], ?_⟩
  intro table disk s a hs hp ha
  by_cases same : table = d.sid
  · subst same
    refine arranged_of_checkLayout (h.whole law.whole) ?_ hs ((h.parent?_eq law _).trans hp) ha ?_
      accepted
    · intro child parent
      rw [h.sitsOn_iff, h.parent?_eq law]
      exact law.sitsOn_iff
    · intro x px
      obtain ⟨p, hx⟩ := law.valid.exists_partition ht ((h.parent?_eq law x).symm.trans px)
      refine ⟨p, (h.attributesOf_iff ?_).2 hx⟩
      simp [hda, Attributes.partition?]
  · rw [layouts]
    exact law.arranged ((elsewhere same).1 hs) hp (disks.1 ha)

end StoragePlan.Devicegraph
