import StoragePlan.Editor.Change
import StoragePlan.Editor.Create
import StoragePlan.Proofs.Changing
import StoragePlan.Proofs.Growing
import StoragePlan.Proofs.Shrinking

/-!
# What edits do

An edit that may be refused first asks the devicegraph and then acts (`ChecksFirst`): whether it
succeeds is decided before anything changes, and acting does not fail. This module says for each
edit what it asks and what it makes of the devicegraph; `..._checksFirst` are the edits that ask
about more than the device itself.
-/

namespace StoragePlan

/-- The device that is created next. -/
def Editor.newDevice (s : Editor) (attributes : Attributes) : Device :=
  { sid := s.supply.next, attributes }

/-! ### Steps -/

namespace Step

variable {σ α β : Type} {x : Step σ α} {f : α → Step σ β} {s s' : σ}

/-- The state that a step leaves behind, whether it succeeds or fails. -/
def after (x : Step σ α) (s : σ) : σ :=
  match x s with
  | .ok _ s' => s'
  | .error _ s' => s'

theorem after_of_ok {a : α} (h : x s = .ok a s') : x.after s = s' := by rw [after, h]

theorem after_of_error {e : Failure} (h : x s = .error e s') : x.after s = s' := by rw [after, h]

/-- To forget a result changes nothing. -/
theorem after_bind_pure (b : β) : (x >>= fun _ => pure b).after s = x.after s := by
  simp only [after, bind, EStateM.bind]
  cases x s <;> rfl

/-- After a success, the rest goes on. -/
theorem bind_of_ok {a : α} (h : x s = .ok a s') : (x >>= f) s = f a s' := by
  simp only [bind, EStateM.bind, h]

/-- A failure is the end. -/
theorem bind_of_error {e : Failure} (h : x s = .error e s') : (x >>= f) s = .error e s' := by
  simp only [bind, EStateM.bind, h]

/-- Nothing is caught where nothing fails. -/
theorem tryCatch_of_ok {handle : Failure → Step σ α} {a : α} (h : x s = .ok a s') :
    (tryCatch x handle) s = .ok a s' := by
  simp only [tryCatch, MonadExcept.tryCatch, MonadExceptOf.tryCatch, tryCatchThe,
    EStateM.tryCatch, h]

theorem bind_eq_ok {b : β} {s'' : σ} :
    (x >>= f) s = .ok b s'' ↔ ∃ a s', x s = .ok a s' ∧ f a s' = .ok b s'' := by
  simp only [bind, EStateM.bind]
  cases h : x s <;> simp

/-- A failure that is told otherwise is still one. -/
@[simp] theorem mapFailure_eq_ok {change : Failure → Failure} {a : α} :
    x.mapFailure change s = .ok a s' ↔ x s = .ok a s' := by
  simp only [mapFailure]
  cases x s <;> simp

@[simp] theorem after_mapFailure {change : Failure → Failure} :
    (x.mapFailure change).after s = x.after s := by
  simp only [mapFailure, after]
  cases x s <;> rfl

/-- One step for each element succeeds when the first step does and then the others. -/
theorem forM_cons_eq_ok {step : α → Step σ Unit} {a : α} {rest : List α} :
    (a :: rest).forM step s = .ok () s' ↔ ∃ s₁, step a s = .ok () s₁ ∧
      rest.forM step s₁ = .ok () s' := by
  rw [List.forM_eq_forM, List.forM_cons, bind_eq_ok]
  constructor
  · rintro ⟨_, s₁, first, others⟩
    exact ⟨s₁, first, others⟩
  · rintro ⟨s₁, first, others⟩
    exact ⟨(), s₁, first, others⟩

end Step

namespace Edit

open Step

variable {α β : Type} {s : Editor}

theorem ask_of_ok {question : Devicegraph → Except Failure α} {a : α}
    (h : question s.graph = .ok a) : ask question s = .ok a s := by rw [ask, h]

theorem ask_of_error {question : Devicegraph → Except Failure α} {e : Failure}
    (h : question s.graph = .error e) : ask question s = .error e s := by rw [ask, h]

/-- An edit that asks and then keeps the rules keeps the rules. -/
theorem lawful_after_ask {question : Devicegraph → Except Failure α} {f : α → Edit β}
    (law : s.graph.Lawful)
    (h : ∀ a, question s.graph = .ok a → ((f a).after s).graph.Lawful) :
    ((ask question >>= f).after s).graph.Lawful := by
  cases hq : question s.graph with
  | error e =>
    rw [after_of_error (bind_of_error (ask_of_error hq))]
    exact law
  | ok a =>
    have step : (ask question >>= f) s = f a s := bind_of_ok (ask_of_ok hq)
    rw [after, step]
    exact h a hq

/-- The verdict decides whether the step succeeds. A refused step changes nothing. -/
structure ChecksFirst (x : Edit α) (s : Editor) (verdict : Except Failure Unit)
    (done : α → Editor → Prop) : Prop where
  refused : ∀ {e}, verdict = .error e → x s = .error e s
  accepted : verdict = .ok () → ∃ a s', x s = .ok a s' ∧ done a s'

namespace ChecksFirst

variable {x : Edit α} {f : α → Edit β} {done : α → Editor → Prop} {done' : β → Editor → Prop}

/-- A step that cannot be refused. -/
theorem act (h : ∃ a s', x s = .ok a s' ∧ done a s') : ChecksFirst x s (.ok ()) done :=
  ⟨fun refused => (by cases refused), fun _ => h⟩

/-- A question at the beginning is a part of the verdict. -/
theorem ask {question : Devicegraph → Except Failure α} {verdict : α → Except Failure Unit}
    (h : ∀ a, question s.graph = .ok a → ChecksFirst (f a) s (verdict a) done') :
    ChecksFirst (Edit.ask question >>= f) s (question s.graph >>= verdict) done' := by
  cases hq : question s.graph with
  | error e =>
    refine ⟨fun refused => ?_, fun accepted => (by cases accepted)⟩
    obtain rfl : e = _ := Except.error.inj refused
    exact bind_of_error (ask_of_error hq)
  | ok a =>
    refine ⟨fun refused => ?_, fun accepted => ?_⟩
    · rw [bind_of_ok (ask_of_ok hq)]
      exact (h a hq).refused refused
    · rw [bind_of_ok (ask_of_ok hq)]
      exact (h a hq).accepted accepted

/-- A check just before acting is the end of the verdict. -/
theorem check {question : Devicegraph → Except Failure Unit} {k : Unit → Edit β}
    (h : question s.graph = .ok () → ∃ b s', k () s = .ok b s' ∧ done' b s') :
    ChecksFirst (Edit.ask question >>= k) s (question s.graph) done' := by
  rw [← bind_pure (question s.graph)]
  exact .ask fun _ accepted => .act (h accepted)

/-- What cannot fail can come at the end. -/
theorem andThen {verdict : Except Failure Unit} (h : ChecksFirst x s verdict done)
    (rest : ∀ a s', verdict = .ok () → done a s' → ∃ b s'', f a s' = .ok b s'' ∧ done' b s'') :
    ChecksFirst (x >>= f) s verdict done' := by
  refine ⟨fun refused => bind_of_error (h.refused refused), fun accepted => ?_⟩
  obtain ⟨a, s', hx, hdone⟩ := h.accepted accepted
  rw [bind_of_ok hx]
  exact rest a s' accepted hdone

/-- A step that succeeds was accepted and has done what it is for. -/
theorem of_ok {verdict : Except Failure Unit} (h : ChecksFirst x s verdict done) {a : α}
    {s' : Editor} (performed : x s = .ok a s') : verdict = .ok () ∧ done a s' := by
  cases hv : verdict with
  | error e =>
    rw [h.refused hv] at performed
    cases performed
  | ok u =>
    obtain ⟨b, s₁, hx, hdone⟩ := h.accepted hv
    rw [performed] at hx
    cases hx
    exact ⟨rfl, hdone⟩

/-- A step that checks first leaves its state alone or does what it is for. -/
theorem after {verdict : Except Failure Unit} (h : ChecksFirst x s verdict done) :
    x.after s = s ∨ verdict = .ok () ∧ ∃ a, done a (x.after s) := by
  cases hv : verdict with
  | error e => exact .inl (after_of_error (h.refused hv))
  | ok u =>
    obtain ⟨a, s', hx, hdone⟩ := h.accepted hv
    rw [after_of_ok hx]
    exact .inr ⟨rfl, a, hdone⟩

end ChecksFirst

/-! ### Creating devices -/

/-- A device that was just added is joined to nothing. -/
theorem findHolder_new (g : Devicegraph) (d : Device) (parent : Sid) :
    ((g.addDevice d).findHolder parent d.sid).toOption = none := by
  have apart : ((g.addDevice d).edges.find? fun e =>
      e.source == ⟨parent, 0⟩ && e.target == ⟨d.sid, 0⟩) = none := by
    refine List.find?_eq_none.2 fun e he joins => ?_
    obtain ⟨old, _, rfl⟩ := List.mem_map.1 he
    rw [Bool.and_eq_true, beq_iff_eq, beq_iff_eq] at joins
    exact Ref.shadow_ne old.target joins.2
  unfold Devicegraph.findHolder
  cases (g.addDevice d).find parent with
  | error e => rfl
  | ok p =>
    cases (g.addDevice d).find d.sid with
    | error e => rfl
    | ok c => simp only [bind, Except.bind, apart, Except.toOption]

/-- The devicegraph was changed, and no sid was taken. -/
structure Changed (s : Editor) (g : Devicegraph) (_ : α) (s' : Editor) : Prop where
  graph : s'.graph = g
  supply : s'.supply = s.supply

/-- Devices are joined if both are there and not joined yet. -/
theorem addHolder_checksFirst (source target : Sid) (kind : HolderKind) :
    ChecksFirst (addHolder source target kind) s
      (do
        let _ ← s.graph.find source
        let d ← s.graph.find target
        if (s.graph.findHolder source target).toOption.isSome then
          throw ↑(TopologyFault.invalidParentCount target d.kind 2 (.exactly 1)))
      (Changed s (s.graph.addEdge source target kind)) := by
  refine .ask fun _ _ => .ask fun d _ => ?_
  have state : (get : Edit Editor) s = .ok s s := rfl
  cases joined : (s.graph.findHolder source target).toOption.isSome with
  | true =>
    refine ⟨fun refused => ?_, fun accepted => by cases accepted⟩
    rw [← Except.error.inj refused, bind_of_ok state, joined]
    rfl
  | false =>
    refine .act ?_
    rw [bind_of_ok state, joined]
    exact ⟨(), _, rfl, rfl, rfl⟩

/-- A device that was just added can be joined to its parent. -/
theorem addHolder_new {g : Devicegraph} {d p : Device} {parent : Sid} (kind : HolderKind)
    (hs : s.graph = g.addDevice d) (hp : (g.addDevice d).find? parent = some p) :
    ∃ s', addHolder parent d.sid kind s = .ok () s' ∧
      Changed s ((g.addDevice d).addEdge parent d.sid kind) () s' := by
  have accepted := (addHolder_checksFirst (s := s) parent d.sid kind).accepted
  have new : (g.addDevice d).find? d.sid = some d := by
    rw [Devicegraph.find?_addDevice, if_pos rfl]
  rw [hs] at accepted
  simp only [Devicegraph.find_eq_ok.2 hp, Devicegraph.find_eq_ok.2 new, findHolder_new] at accepted
  obtain ⟨_, s', joined, changed⟩ := accepted rfl
  exact ⟨s', joined, changed⟩

/-- A device was created, with the next sid. -/
structure Created (s : Editor) (attributes : Attributes) (parent? : Option Sid) (sid : Sid)
    (s' : Editor) : Prop where
  sid : sid = s.supply.next
  graph : s'.graph = s.graph.place (s.newDevice attributes) parent?
  supply : s'.supply = s.supply.advance

theorem addDevice_eq (a : Attributes) : ∃ sid s', addDevice a s = .ok sid s' ∧
    Created s a none sid s' := ⟨_, _, rfl, rfl, rfl, rfl⟩

/-- A device that there is room for is added and joined to its parent. -/
theorem join_added {parent : Sid} {a : Attributes}
    (accepted : s.graph.checkPlacement parent a.kind = .ok ()) : ∃ sid s₁ s₂,
      addDevice a s = .ok sid s₁ ∧ addHolder parent sid a.kind.parentHolderKind s₁ = .ok () s₂ ∧
      Created s a (some parent) sid s₂ := by
  obtain ⟨_, s₁, added, rfl, graph, supply⟩ := addDevice_eq (s := s) a
  obtain ⟨p, hp⟩ : ∃ p, (s.graph.addDevice (s.newDevice a)).find? parent = some p := by
    obtain ⟨p, hp, _⟩ := Attempt.bind_eq_ok.1 accepted
    rw [Devicegraph.find?_addDevice]
    split
    · exact ⟨_, rfl⟩
    · exact ⟨p, Devicegraph.find_eq_ok.1 hp⟩
  obtain ⟨s₂, joined, graph₂, supply₂⟩ := addHolder_new a.kind.parentHolderKind graph hp
  exact ⟨_, s₁, s₂, added, joined, rfl, graph₂, supply₂.trans supply⟩

/-- A device is put on another one if there is room for it. -/
theorem addChild_checksFirst (parent : Sid) (a : Attributes) :
    ChecksFirst (addChild parent a) s (s.graph.checkPlacement parent a.kind)
      (Created s a (some parent)) := by
  refine .check fun accepted => ?_
  obtain ⟨sid, s₁, s₂, added, joined, created⟩ := join_added accepted
  rw [bind_of_ok added]
  exact ⟨sid, s₂, bind_of_ok (tryCatch_of_ok joined), created⟩

theorem describe_of_found {sid : Sid} {d : Device} (hd : s.graph.find? sid = some d) :
    describe sid s = .ok d.description s := by
  rw [describe, bind_of_ok (ask_of_ok (Devicegraph.find_eq_ok.2 hd))]
  rfl

namespace Created

variable {a : Attributes} {parent? : Option Sid} {sid : Sid} {s' : Editor}

/-- The new device is there. -/
theorem found (h : Created s a parent? sid s') : s'.graph.find? sid = some (s.newDevice a) := by
  rw [h.graph, Devicegraph.find?_place, h.sid, if_pos]
  rfl

/-- What was there still is, or the new device is there in its place. -/
theorem still_found (h : Created s a parent? sid s') {x : Sid} {d : Device}
    (hd : s.graph.find? x = some d) : ∃ d', s'.graph.find? x = some d' := by
  rw [h.graph, Devicegraph.find?_place]
  split
  · exact ⟨_, rfl⟩
  · exact ⟨d, hd⟩

end Created

theorem createDisk_checksFirst (name : String) (sizeK : Nat) :
    ChecksFirst (createDisk name sizeK) s (s.graph.checkNameUnused name none)
      (Created s (.disk { name, sizeK }) none) := by
  refine .check fun _ => ?_
  obtain ⟨sid, s₁, added, created⟩ := addDevice_eq (s := s) (.disk { name, sizeK })
  rw [bind_of_ok added, bind_of_ok (describe_of_found created.found)]
  exact ⟨sid, _, rfl, created.sid, created.graph, created.supply⟩

/-- A device is put on another one and reported. -/
theorem addReported_checksFirst (parent : Sid) (a : Attributes) :
    ChecksFirst (do
        let sid ← addChild parent a
        log .debug ("Created " ++ (← describe sid) ++ " on " ++ (← describe parent))
        return sid) s
      (s.graph.checkPlacement parent a.kind) (Created s a (some parent)) := by
  refine (addChild_checksFirst parent a).andThen fun sid s₁ accepted created => ?_
  obtain ⟨d, hd, _⟩ := Attempt.bind_eq_ok.1 accepted
  obtain ⟨d', hd'⟩ := created.still_found (Devicegraph.find_eq_ok.1 hd)
  rw [bind_of_ok (describe_of_found created.found), bind_of_ok (describe_of_found hd')]
  exact ⟨sid, _, rfl, created.sid, created.graph, created.supply⟩

theorem createPartitionTable_checksFirst (disk : Sid) (ptType : PtType) :
    ChecksFirst (createPartitionTable disk ptType) s
      (s.graph.checkPlacement disk .partitionTable)
      (Created s (.partitionTable ⟨ptType⟩) (some disk)) := addReported_checksFirst disk _

theorem createFilesystem_checksFirst (blkDevice : Sid) (fsType : FsType) :
    ChecksFirst (createFilesystem blkDevice fsType) s
      (s.graph.checkPlacement blkDevice .filesystem)
      (Created s (.filesystem { fsType }) (some blkDevice)) := addReported_checksFirst blkDevice _

theorem createPartition_checksFirst (table : Sid) (name : String) (type : PartitionType)
    (region : Region) :
    ChecksFirst (createPartition table name type region) s
      (do
        let p : Partition := { name, type, region, id := type.defaultId }
        let _ ← s.graph.partitionTable table
        s.graph.checkNameUnused name none
        s.graph.checkPartitionPlacement table p none
        s.graph.checkPlacement table .partition)
      (Created s (.partition { name, type, region, id := type.defaultId }) (some table)) := by
  refine .ask fun _ _ => .ask fun _ _ => .ask fun _ _ => ?_
  refine (addChild_checksFirst table _).andThen fun sid s₁ _ created => ?_
  rw [bind_of_ok (describe_of_found created.found)]
  exact ⟨sid, _, rfl, created.sid, created.graph, created.supply⟩

end Edit

/-! ### Changing devices -/

namespace Devicegraph

/-- Changes the attributes of a disk without any check. -/
def withDisk (g : Devicegraph) (sid : Sid) (f : Disk → Disk) : Devicegraph :=
  match g.disk sid with
  | .ok a => g.setAttributes sid (.disk (f a))
  | .error _ => g

/-- Changes the attributes of a partition without any check. -/
def withPartition (g : Devicegraph) (sid : Sid) (f : Partition → Partition) : Devicegraph :=
  match g.partition sid with
  | .ok p => g.setAttributes sid (.partition (f p))
  | .error _ => g

/-- What is asked before a partition changes. -/
def checkChanged (g : Devicegraph) (sid : Sid) (f : Partition → Partition) : Except Failure Unit := do
  let p ← g.partition sid
  let table ← g.partitionTableOf sid
  g.checkNameUnused (f p).name (some sid)
  g.checkPartitionPlacement table (f p) (some sid)

theorem withDisk_of_ok {g : Devicegraph} {sid : Sid} {f : Disk → Disk} {a : Disk}
    (h : g.disk sid = .ok a) : g.withDisk sid f = g.setAttributes sid (.disk (f a)) := by
  rw [withDisk, h]

theorem withPartition_of_ok {g : Devicegraph} {sid : Sid} {f : Partition → Partition}
    {p : Partition} (h : g.partition sid = .ok p) :
    g.withPartition sid f = g.setAttributes sid (.partition (f p)) := by
  rw [withPartition, h]

/-- A changed disk breaks no rule exactly if the partitions on it fit. -/
theorem Lawful.withDisk_iff {g : Devicegraph} (law : g.Lawful) {sid : Sid} {a : Disk}
    (ha : g.disk sid = .ok a) {f : Disk → Disk} (name : (f a).name = a.name) :
    (g.withDisk sid f).Lawful ↔ g.checkPartitionsFit sid (f a) = .ok () := by
  rw [withDisk_of_ok ha, law.setDisk_iff ha name]

/-- A changed partition breaks no rule exactly if it passes what is asked. -/
theorem Lawful.withPartition_iff {g : Devicegraph} (law : g.Lawful) {sid : Sid}
    (hp : ∃ p, g.partition sid = .ok p) (f : Partition → Partition) :
    (g.withPartition sid f).Lawful ↔ g.checkChanged sid f = .ok () := by
  obtain ⟨p, hp⟩ := hp
  obtain ⟨d, hd, ha⟩ := partition_eq_ok.1 hp
  obtain ⟨table, _, ht, _⟩ := law.valid.exists_table hd (isPartition_of_attributes ha)
  have htable : g.partitionTableOf sid = .ok table :=
    Attempt.bind_eq_ok.2 ⟨p, hp, singleParent_eq_ok.2 ht⟩
  rw [withPartition_of_ok hp, law.setPartition_iff hp ht]
  simp only [checkChanged, Attempt.bind_eq_ok, hp, htable, Except.ok.injEq, exists_eq_left']
  constructor
  · intro h
    exact ⟨(), h⟩
  · rintro ⟨_, h⟩
    exact h

end Devicegraph

namespace Edit

open Step

variable {α β : Type} {s : Editor}

theorem changeDisk_eq {sid : Sid} {a : Disk} (h : s.graph.disk sid = .ok a) (f : Disk → Disk) :
    ∃ s', changeDisk sid f s = .ok () s' ∧ Changed s (s.graph.withDisk sid f) () s' := by
  refine ⟨_, bind_of_ok (ask_of_ok h), ?_, rfl⟩
  rw [Devicegraph.withDisk_of_ok h]

theorem setDiskSizeK_checksFirst (sid : Sid) (sizeK : Nat) :
    ChecksFirst (setDiskSizeK sid sizeK) s
      (do
        let a ← s.graph.disk sid
        s.graph.checkPartitionsFit sid { a with sizeK })
      (Changed s (s.graph.withDisk sid fun a => { a with sizeK })) :=
  .ask fun _ ha => .check fun _ => ⟨(), changeDisk_eq ha _⟩

theorem setDiskSectorSize_checksFirst (sid : Sid) (sectorSize : Nat) :
    ChecksFirst (setDiskSectorSize sid sectorSize) s
      (do
        let a ← s.graph.disk sid
        if sectorSize = 0 then throw ↑(TopologyFault.invalidSectorSize a.name)
        s.graph.checkPartitionsFit sid { a with sectorSize })
      (Changed s (s.graph.withDisk sid fun a => { a with sectorSize })) := by
  refine .ask fun a ha => ?_
  by_cases zero : sectorSize = 0
  · rw [if_pos zero, if_pos zero]
    exact ⟨fun refused => by rw [← Except.error.inj refused]; rfl, fun accepted => by cases accepted⟩
  · rw [if_neg zero, if_neg zero]
    exact .check fun _ => ⟨(), changeDisk_eq ha _⟩

theorem setPartitionTableType_checksFirst (sid : Sid) (ptType : PtType) :
    ChecksFirst (setPartitionTableType sid ptType) s
      (do
        let _ ← s.graph.partitionTable sid
        (s.graph.setAttributes sid (.partitionTable ⟨ptType⟩)).checkLayout sid)
      (Changed s (s.graph.setAttributes sid (.partitionTable ⟨ptType⟩))) :=
  .ask fun _ _ => .check fun _ => ⟨(), _, rfl, rfl, rfl⟩

theorem changePartition_checksFirst (sid : Sid) (f : Partition → Partition) :
    ChecksFirst (changePartition sid f) s (s.graph.checkChanged sid f)
      (Changed s (s.graph.withPartition sid f)) := by
  refine .ask fun p hp => .ask fun table _ => .ask fun _ _ => .check fun _ => ?_
  refine ⟨(), _, rfl, ?_, rfl⟩
  rw [Devicegraph.withPartition_of_ok hp]

/-! ### Removing devices -/

/-- Devices that are there are dropped one after another. -/
theorem forM_drop {sids : List Sid} (distinct : sids.Nodup)
    (found : ∀ sid ∈ sids, ∃ d, s.graph.find? sid = some d) :
    ∃ s', sids.forM drop s = .ok () s' ∧
      Changed s (sids.foldl Devicegraph.eraseDevice s.graph) () s' := by
  induction sids generalizing s with
  | nil => exact ⟨s, rfl, rfl, rfl⟩
  | cons sid rest ih =>
    obtain ⟨once, distinct⟩ := List.nodup_cons.1 distinct
    obtain ⟨⟨d, hd⟩, found⟩ := List.forall_mem_cons.1 found
    obtain ⟨s₁, dropped, graph, supply⟩ : ∃ s₁, drop sid s = .ok () s₁ ∧
        Changed s (s.graph.eraseDevice sid) () s₁ :=
      ⟨_, bind_of_ok (ask_of_ok (Devicegraph.find_eq_ok.2 hd)), rfl, rfl⟩
    obtain ⟨s', rest, graph', supply'⟩ := @ih s₁ distinct fun x hx => by
      obtain ⟨c, hc⟩ := found x hx
      refine ⟨c, ?_⟩
      rw [graph, Devicegraph.find?_eraseDevice, if_neg, hc]
      rintro rfl
      exact once hx
    refine ⟨s', forM_cons_eq_ok.2 ⟨s₁, dropped, rest⟩, graph'.trans ?_, supply'.trans supply⟩
    rw [graph, List.foldl_cons]

/-- A device goes with all that has to go with it. -/
theorem remove_checksFirst (law : s.graph.Lawful) (sid : Sid) :
    ChecksFirst (remove sid) s (do let _ ← s.graph.removal sid)
      fun n s' => ∃ gone, s.graph.removal sid = .ok gone ∧ n = gone.length ∧
        Changed s (gone.reverse.foldl Devicegraph.eraseDevice s.graph) () s' := by
  refine .ask fun gone removal => .act ?_
  obtain ⟨s', dropped, changed⟩ := forM_drop (s := s)
    (List.nodup_reverse.2 (Devicegraph.nodup_removal removal)) fun x hx =>
      law.found_of_mem_removal removal (List.mem_reverse.1 hx)
  exact ⟨_, _, bind_of_ok dropped, gone, removal, rfl, changed.graph, changed.supply⟩

/-! ### Loading a document -/

/-- The check leaves all but the log as it was. -/
theorem check_eq_ok {s' : Editor} : check s = .ok () s' ↔ s.graph.check = .ok () ∧
    s' = { s with log := s.log.write s.graph.checkRecords } := by
  let logged : Editor := { s with log := s.log.write s.graph.checkRecords }
  change ask Devicegraph.check logged = .ok () s' ↔ _
  cases valid : s.graph.check with
  | error f =>
    rw [ask_of_error (s := logged) valid]
    simp
  | ok _ =>
    rw [ask_of_ok (s := logged) valid, and_iff_right rfl]
    exact ⟨fun h => (EStateM.Result.ok.inj h).2.symm, fun h => h ▸ rfl⟩

/-- A document that is loaded was checked. -/
theorem check_of_loadText {text : String} {s' : Editor} (h : loadText text s = .ok () s') :
    s'.graph.check = .ok () := by
  cases hd : Document.ofText? text with
  | none =>
    simp only [loadText, hd] at h
    cases h
  | some d =>
    simp only [loadText, hd, load, bind_eq_ok, Step.within, mapFailure_eq_ok] at h
    obtain ⟨_, _, _, _, _, _, checked⟩ := h
    obtain ⟨valid, rfl⟩ := check_eq_ok.1 checked
    exact valid

end Edit

end StoragePlan
