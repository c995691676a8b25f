import StoragePlan.Proofs.Operations

/-!
# What comes of an operation

An operation on a lawful devicegraph does one of a few things (`Operation.outcome`): nothing, or it
creates a device with the next sid, changes one device in place, removes devices that can go
together or removes all. No single change is one of both the type and the region of a partition, and
none takes the bytes out of the sectors of a disk (`Gradual`).
-/

namespace StoragePlan

open Edit Devicegraph

/-- Not both the type and the region of a partition change, and sectors do not lose their bytes. -/
structure Gradual (d d' : Device) : Prop where
  partition : ∀ {p p'}, d.attributes = .partition p → d'.attributes = .partition p' →
    p'.type = p.type ∨ p'.region = p.region
  disk : ∀ {a a'}, d.attributes = .disk a → d'.attributes = .disk a' → a.sectorSize ≠ 0 →
    a'.sectorSize ≠ 0

theorem Gradual.userData (d : Device) (u : UserData) : Gradual d { d with userData := u } := by
  refine ⟨fun {p p'} hp hp' => .inl ?_, fun {a a'} ha ha' => ?_⟩
  · rw [Attributes.partition.inj (hp.symm.trans hp')]
  · rw [Attributes.disk.inj (ha.symm.trans ha')]
    exact id

namespace Operation

/-- The sids that an operation hands out. -/
def handed (s : Editor) : Operation → List Sid
  | checked (.create c) =>
    match c.perform s with
    | .ok sid _ => [sid]
    | .error _ _ => []
  | _ => []

/-- What comes of an operation. -/
inductive Outcome (s : Editor) (op : Operation) (s' : Editor) : Prop
  | unchanged (graph : s'.graph = s.graph) (supply : s'.supply = s.supply)
    (handed : op.handed s = [])
  | created (c : Creation) (accepted : c.verdict s.graph = .ok ())
    (graph : s'.graph = c.unchecked s.supply.next s.graph) (supply : s'.supply = s.supply.advance)
    (handed : op.handed s = [s.supply.next])
  | altered {d d' : Device} (altered : Altered s.graph s'.graph d d') (gradual : Gradual d d')
    (supply : s'.supply = s.supply) (handed : op.handed s = [])
  | shrunk {gone : List Sid} (shrunk : Shrunk s.graph s'.graph gone)
    (detachable : s.graph.Detachable gone) (supply : s'.supply = s.supply)
    (handed : op.handed s = [])
  | cleared (graph : s'.graph = .empty) (supply : s'.supply = s.supply) (handed : op.handed s = [])

variable {s s' : Editor} {op : Operation} {sid : Sid}

namespace Outcome

/-- An edit that asks first does nothing where the question fails. -/
theorem ask {α β : Type} {question : Devicegraph → Except Failure α} {f : α → Edit β}
    (handed : op.handed s = [])
    (h : ∀ a, question s.graph = .ok a → Outcome s op ((f a).after s)) :
    Outcome s op ((Edit.ask question >>= f).after s) := by
  cases hq : question s.graph with
  | error e =>
    rw [Step.after_of_error (Step.bind_of_error (ask_of_error hq))]
    exact .unchanged rfl rfl handed
  | ok a =>
    have step : (Edit.ask question >>= f) s = f a s := Step.bind_of_ok (ask_of_ok hq)
    rw [Step.after, step]
    exact h a hq

theorem setDisk {a a' : Disk} (ha : s.graph.disk sid = .ok a)
    (graph : s'.graph = s.graph.setAttributes sid (.disk a')) (supply : s'.supply = s.supply)
    (handed : op.handed s = []) (sized : a.sectorSize ≠ 0 → a'.sectorSize ≠ 0) :
    Outcome s op s' := by
  obtain ⟨d, hd, hda⟩ := disk_eq_ok.1 ha
  refine .altered (graph ▸ altered_setAttributes hd (by rw [Device.kind, hda]; rfl)) ⟨?_, ?_⟩ supply
    handed
  · rintro p p' hp
    rw [hda] at hp
    cases hp
  · rintro b b' hb ⟨⟩
    obtain rfl := Attributes.disk.inj (hda.symm.trans hb)
    exact sized

theorem setPartition {p p' : Partition} (hp : s.graph.partition sid = .ok p)
    (graph : s'.graph = s.graph.setAttributes sid (.partition p')) (supply : s'.supply = s.supply)
    (handed : op.handed s = []) (single : p'.type = p.type ∨ p'.region = p.region) :
    Outcome s op s' := by
  obtain ⟨d, hd, hda⟩ := partition_eq_ok.1 hp
  refine .altered (graph ▸ altered_setAttributes hd (by rw [Device.kind, hda]; rfl)) ⟨?_, ?_⟩ supply
    handed
  · rintro q q' hq ⟨⟩
    obtain rfl := Attributes.partition.inj (hda.symm.trans hq)
    exact single
  · rintro a a' ha
    rw [hda] at ha
    cases ha

/-- What is neither a disk nor a partition can change freely. -/
theorem setOther {d : Device} {a : Attributes} (hd : s.graph.find? sid = some d)
    (kind : a.kind = d.kind) (other : d.kind ≠ .disk ∧ d.kind ≠ .partition)
    (graph : s'.graph = s.graph.setAttributes sid a) (supply : s'.supply = s.supply)
    (handed : op.handed s = []) : Outcome s op s' := by
  refine .altered (graph ▸ altered_setAttributes hd kind) ⟨fun hp => ?_, fun ha => ?_⟩ supply handed
  · exact absurd (isPartition_of_attributes hp) other.2
  · exact absurd (by rw [Device.kind, ha]; rfl) other.1

theorem changeDisk (sid : Sid) {f : Disk → Disk} (sized : ∀ a, (f a).sectorSize = a.sectorSize)
    (handed : op.handed s = []) : Outcome s op ((Edit.changeDisk sid f).after s) :=
  ask handed fun a ha => setDisk ha rfl rfl handed fun h => by rwa [sized]

theorem changeFilesystem (sid : Sid) (f : Filesystem → Filesystem) (handed : op.handed s = []) :
    Outcome s op ((Edit.changeFilesystem sid f).after s) := by
  refine ask handed fun fs hfs => ?_
  obtain ⟨d, hd, hda⟩ := filesystem_eq_ok.1 hfs
  have kind : d.kind = .filesystem := by rw [Device.kind, hda]; rfl
  exact setOther hd (by rw [kind]; rfl) (by simp [kind]) rfl rfl handed

theorem create (s : Editor) (c : Creation) :
    Outcome s (.checked (.create c)) (c.perform.after s) := by
  have checks := c.checksFirst s
  cases verdict : c.verdict s.graph with
  | error f =>
    have refused := checks.refused verdict
    rw [Step.after_of_error refused]
    exact .unchanged rfl rfl (by rw [handed, refused])
  | ok _ =>
    obtain ⟨sid, s₁, performed, created⟩ := checks.accepted verdict
    rw [Step.after_of_ok performed]
    exact .created c verdict created.graph created.supply (by rw [handed, performed, ← created.sid])

theorem change (s : Editor) (c : GuardedChange) :
    Outcome s (.checked (.change c)) (c.perform.after s) := by
  rcases (c.checksFirst s).after with same | ⟨accepted, _, changed⟩
  · rw [same]
    exact .unchanged rfl rfl rfl
  · obtain ⟨graph, supply⟩ := changed
    have addressed := GuardedChange.addressed_of_accepted accepted
    cases c with
    | diskSizeK sid sizeK =>
      obtain ⟨a, ha⟩ := addressed
      exact setDisk ha (graph.trans (withDisk_of_ok ha)) supply rfl id
    | diskSectorSize sid sectorSize =>
      obtain ⟨⟨a, ha⟩, nonzero⟩ := addressed
      exact setDisk ha (graph.trans (withDisk_of_ok ha)) supply rfl fun _ => nonzero
    | partitionTableType sid ptType =>
      obtain ⟨t, ht⟩ := addressed
      obtain ⟨d, hd, hda⟩ := partitionTable_eq_ok.1 ht
      have kind : d.kind = .partitionTable := by rw [Device.kind, hda]; rfl
      exact setOther hd (by rw [kind]; rfl) (by simp [kind]) graph supply rfl
    | partitionRegion sid region =>
      obtain ⟨p, hp⟩ := addressed
      exact setPartition hp (graph.trans (withPartition_of_ok hp)) supply rfl (.inl rfl)
    | partitionType sid type =>
      obtain ⟨p, hp⟩ := addressed
      exact setPartition hp (graph.trans (withPartition_of_ok hp)) supply rfl (.inr rfl)
    | partitionName sid name =>
      obtain ⟨p, hp⟩ := addressed
      exact setPartition hp (graph.trans (withPartition_of_ok hp)) supply rfl (.inl rfl)

theorem remove (law : s.graph.Lawful) (sid : Sid) :
    Outcome s (.remove sid) ((Edit.remove sid).after s) := by
  rcases (remove_checksFirst law sid).after with same | ⟨_, _, gone, removal, _, changed⟩
  · rw [same]
    exact .unchanged rfl rfl rfl
  · exact .shrunk (changed.graph ▸ shrunk_foldl ..) (law.detachable_removal removal).reverse
      changed.supply rfl

end Outcome

/-- An operation does one of these things, whether it succeeds or fails. -/
theorem outcome (law : s.graph.Lawful) (op : Operation) : Outcome s op (op.perform.after s) := by
  cases op with
  | checked e =>
    cases e with
    | create c =>
      have same : (Operation.perform (.checked (.create c))).after s = c.perform.after s :=
        Step.after_bind_pure ()
      rw [same]
      exact .create s c
    | change c => exact .change s c
  | setDiskRotational sid rotational => exact .changeDisk sid (fun _ => rfl) rfl
  | setDiskTransport sid transport => exact .changeDisk sid (fun _ => rfl) rfl
  | setPartitionId sid id =>
    exact .ask rfl fun p hp => .setPartition hp rfl rfl rfl (.inl rfl)
  | setPartitionBoot sid boot =>
    exact .ask rfl fun p hp => .setPartition hp rfl rfl rfl (.inl rfl)
  | setFilesystemType sid fsType => exact .changeFilesystem sid _ rfl
  | setFilesystemLabel sid label => exact .changeFilesystem sid _ rfl
  | setFilesystemUuid sid uuid => exact .changeFilesystem sid _ rfl
  | addMountpoint sid mountpoint => exact .changeFilesystem sid _ rfl
  | removeMountpoint sid mountpoint =>
    rw [perform, Step.after_bind_pure]
    refine .ask rfl fun fs _ => ?_
    rw [Step.after_bind_pure]
    exact .changeFilesystem sid _ rfl
  | setMountpoints sid mountpoints => exact .changeFilesystem sid _ rfl
  | setMountBy sid mountBy => exact .changeFilesystem sid _ rfl
  | setFstabOptions sid fstabOptions => exact .changeFilesystem sid _ rfl
  | setUserData sid key value =>
    rw [perform, Step.after_bind_pure]
    refine .ask rfl fun d hd => ?_
    exact .altered (altered_setUserData (find_eq_ok.1 hd)) (.userData d _) rfl rfl
  | remove sid =>
    rw [perform, Step.after_bind_pure]
    exact .remove law sid
  | clear => exact .cleared rfl rfl rfl

namespace Outcome

/-- No device comes in but the one that is created. -/
theorem contains (h : Outcome s op s') {x : Sid} (hx : s'.graph.contains x = true) :
    s.graph.contains x = true ∨
      x = s.supply.next ∧ op.handed s = [x] ∧ s'.supply = s.supply.advance := by
  obtain ⟨d, hd⟩ := contains_iff.1 hx
  cases h with
  | unchanged graph => exact .inl (graph ▸ hx)
  | created c accepted graph supply handed =>
    rw [graph, Creation.unchecked, find?_place] at hd
    split at hd
    · next new => exact .inr ⟨new, by rw [handed, new], supply⟩
    · exact .inl (contains_iff.2 ⟨d, hd⟩)
  | altered altered =>
    refine .inl (contains_iff.2 ?_)
    rw [altered.find?] at hd
    split at hd
    · next here => exact ⟨_, here ▸ altered.found⟩
    · exact ⟨d, hd⟩
  | shrunk shrunk => exact .inl (contains_iff.2 ⟨d, (shrunk.find?_eq_some.1 hd).2⟩)
  | cleared graph =>
    rw [graph] at hd
    cases (find?_eq_some.1 hd).1

/-- A sid is taken out of the supply exactly if it is handed out, and then it is in use. -/
theorem supply (h : Outcome s op s') : op.handed s = [] ∧ s'.supply = s.supply ∨
    op.handed s = [s.supply.next] ∧ s'.supply = s.supply.advance ∧
      s'.graph.contains s.supply.next = true := by
  cases h with
  | unchanged _ supply handed => exact .inl ⟨handed, supply⟩
  | created _ _ graph supply handed =>
    refine .inr ⟨handed, supply, contains_iff.2 ?_⟩
    rw [graph, Creation.unchecked, find?_place, if_pos rfl]
    exact ⟨_, rfl⟩
  | altered _ _ supply handed => exact .inl ⟨handed, supply⟩
  | shrunk _ _ supply handed => exact .inl ⟨handed, supply⟩
  | cleared _ supply handed => exact .inl ⟨handed, supply⟩

end Outcome

end Operation

end StoragePlan
