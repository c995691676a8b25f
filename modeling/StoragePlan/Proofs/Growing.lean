import StoragePlan.Proofs.Lawful

/-!
# Adding a device

A new device comes with a sid that stands for nothing and with one holder, from the device it is put
on; a disk comes without a holder (`place`). What was there stays as it was, but for the count of
children and the layout of the table that a partition is put into (`Grown`). So the new devicegraph
is lawful exactly if the checks before the addition succeed (`Grown.lawful_iff`).
-/

namespace StoragePlan

namespace DeviceKind

theorem validChildren_zero (k : DeviceKind) : k.validChildren.contains 0 = true := by
  cases k <;> decide

theorem validParentCount_zero {k : DeviceKind} (h : k = disk) :
    k.validParentCount.contains 0 = true := by
  subst h
  decide

theorem validParentCount_one {k : DeviceKind} (h : k ≠ disk) :
    k.validParentCount.contains 1 = true := by
  cases k <;> simp_all [validParentCount, Cardinality.contains, Cardinality.exactly]

end DeviceKind

namespace Devicegraph

open Attempt

variable {g g' : Devicegraph} {d : Device} {parent? : Option Sid}

/-- Adds a device on another one, or on nothing. -/
def place (g : Devicegraph) (d : Device) : Option Sid → Devicegraph
  | none => g.addDevice d
  | some parent => (g.addDevice d).addEdge parent d.sid d.kind.parentHolderKind

/-- The holder from what a new device is put on. -/
def joint (d : Device) : Option Sid → List Edge
  | none => []
  | some parent => [⟨⟨parent, 0⟩, ⟨d.sid, 0⟩, d.kind.parentHolderKind⟩]

/-- The devicegraph `g'` has the new device `d` in addition. -/
structure Grown (g g' : Devicegraph) (d : Device) (parent? : Option Sid) : Prop where
  whole : g'.Whole
  find? : ∀ x, g'.find? x = if x = d.sid then some d else g.find? x
  edges : g'.edges = joint d parent? ++ g.edges
  fresh : g.find? d.sid = none
  found : ∀ {parent}, parent? = some parent → ∃ p, g.find? parent = some p
  rooted : parent? = none ↔ d.kind = .disk

/-! ### Adding devices and holders -/

/-- Without a device of the sid nothing is shadowed. -/
theorem addDevice_eq (whole : g.Whole) (fresh : g.find? d.sid = none) :
    (g.addDevice d).nodes = ⟨d, 0⟩ :: g.nodes ∧ (g.addDevice d).edges = g.edges := by
  have other : ∀ r ∈ g.nodes.map Node.ref, r.sid ≠ d.sid := by
    intro r hr same
    obtain ⟨c, hc⟩ := find?_of_anchor (whole.depth_of_anchor hr ▸ hr)
    rw [same, fresh] at hc
    cases hc
  have nodes : g.nodes.map (Node.shadow d.sid) = g.nodes := by
    refine (List.map_congr_left fun n hn => ?_).trans (List.map_id _)
    exact if_neg (other n.ref (List.mem_map_of_mem hn))
  have edges : g.edges.map (Edge.shadow d.sid) = g.edges := by
    refine (List.map_congr_left fun e he => ?_).trans (List.map_id _)
    obtain ⟨hs, ht⟩ := g.anchored e he
    simp only [Edge.shadow, Ref.shadow, if_neg (other _ hs), if_neg (other _ ht), id]
  exact ⟨congrArg (_ :: ·) nodes, edges⟩

/-- A device that is added answers to its sid, and nothing else does any more. -/
theorem find?_addDevice (g : Devicegraph) (d : Device) (x : Sid) :
    (g.addDevice d).find? x = if x = d.sid then some d else g.find? x := by
  have old : ∀ c : Device, (⟨c, 0⟩ : Node) ∈ g.nodes.map (Node.shadow d.sid) ↔
      c.sid ≠ d.sid ∧ (⟨c, 0⟩ : Node) ∈ g.nodes := by
    intro c
    rw [List.mem_map]
    constructor
    · rintro ⟨n, hn, shadow⟩
      unfold Node.shadow at shadow
      split at shadow
      · cases congrArg Node.depth shadow
      · next ne =>
        subst shadow
        exact ⟨ne, hn⟩
    · rintro ⟨ne, hn⟩
      exact ⟨_, hn, if_neg ne⟩
  refine Option.ext fun c => ?_
  rw [find?_eq_some, addDevice, List.mem_cons, old]
  split
  · next here =>
    subst here
    constructor
    · rintro ⟨new | ⟨ne, _⟩, hs⟩
      · exact congrArg (some ∘ Node.device) new.symm
      · exact absurd hs ne
    · rintro ⟨rfl⟩
      exact ⟨.inl rfl, rfl⟩
  · next ne =>
    rw [find?_eq_some]
    constructor
    · rintro ⟨new | ⟨_, hn⟩, rfl⟩
      · exact absurd (congrArg (Device.sid ∘ Node.device) new) ne
      · exact ⟨hn, rfl⟩
    · rintro ⟨hn, rfl⟩
      exact ⟨.inr ⟨ne, hn⟩, rfl⟩

/-- A devicegraph in which no device is shadowed has no other device of a sid that is added. -/
theorem of_whole_addDevice (h : (g.addDevice d).Whole) : g.Whole ∧ g.find? d.sid = none := by
  have clear : ∀ n ∈ g.nodes, n.depth = 0 ∧ n.device.sid ≠ d.sid := by
    intro n hn
    have depth := h _ (List.mem_cons_of_mem _ (List.mem_map_of_mem hn))
    unfold Node.shadow at depth
    split at depth
    · cases depth
    · next ne => exact ⟨depth, ne⟩
  refine ⟨fun n hn => (clear n hn).1, Option.eq_none_iff_forall_ne_some.2 fun c hc => ?_⟩
  obtain ⟨hn, hs⟩ := find?_eq_some.1 hc
  exact (clear _ hn).2 hs

@[simp] theorem nodes_addEdge (source target : Sid) (kind : HolderKind) :
    (g.addEdge source target kind).nodes = g.nodes := by
  unfold addEdge
  split <;> rfl

@[simp] theorem find?_addEdge (source target : Sid) (kind : HolderKind) (x : Sid) :
    (g.addEdge source target kind).find? x = g.find? x := by
  simp only [find?, node?, nodes_addEdge]

/-- A placed device answers to its sid, and nothing else does any more. -/
theorem find?_place (g : Devicegraph) (d : Device) (parent? : Option Sid) (x : Sid) :
    (g.place d parent?).find? x = if x = d.sid then some d else g.find? x := by
  cases parent? with
  | none => exact find?_addDevice g d x
  | some parent => rw [place, find?_addEdge, find?_addDevice]

theorem anchor_of_find? {x : Sid} {c : Device} (h : g.find? x = some c) :
    ⟨x, 0⟩ ∈ g.nodes.map Node.ref := by
  obtain ⟨hn, rfl⟩ := find?_eq_some.1 h
  exact List.mem_map_of_mem hn

/-- A placed device is a new one on its parent. -/
theorem grown_place (whole : g.Whole) (fresh : g.find? d.sid = none)
    (found : ∀ {parent}, parent? = some parent → ∃ p, g.find? parent = some p)
    (rooted : parent? = none ↔ d.kind = .disk) : Grown g (g.place d parent?) d parent? := by
  obtain ⟨nodes, edges⟩ := addDevice_eq whole fresh
  have all : (g.addDevice d).Whole := by
    intro n hn
    rw [nodes] at hn
    rcases List.mem_cons.1 hn with rfl | hn
    · rfl
    · exact whole n hn
  cases parent? with
  | none => exact ⟨all, find?_place g d none, edges, fresh, found, rooted⟩
  | some parent =>
    refine ⟨?_, find?_place g d (some parent), ?_, fresh, found, rooted⟩
    · intro n hn
      exact all n (by simpa [place] using hn)
    · obtain ⟨p, hp⟩ := found rfl
      have ne : parent ≠ d.sid := by
        rintro rfl
        rw [fresh] at hp
        cases hp
      have source : (g.addDevice d).find? parent = some p := by
        rw [find?_addDevice g d, if_neg ne, hp]
      have target : (g.addDevice d).find? d.sid = some d := by
        rw [find?_addDevice g d, if_pos rfl]
      rw [place, addEdge, dif_pos ⟨anchor_of_find? source, anchor_of_find? target⟩]
      exact congrArg (_ :: ·) edges

/-- The checks before an addition count the children with the new one. -/
theorem Lawful.checkPlacement_eq_ok (law : g.Lawful) {parent : Sid} {p : Device}
    (hp : g.find? parent = some p) {kind : DeviceKind} :
    g.checkPlacement parent kind = .ok () ↔ kind.validParents.contains p.kind = true ∧
      p.kind.validChildren.contains ((g.edgesAt .down ⟨parent, 0⟩).length + 1) = true := by
  obtain ⟨l, hl⟩ := children_total hp
  simp only [checkPlacement, bind_eq_ok, find_eq_ok, hp, hl, refuse_bind_eq_ok, refuse_eq_ok,
    pure_eq_ok, Option.some.injEq, Except.ok.injEq, exists_eq_left', Bool.not_eq_true',
    Bool.not_eq_false, law.length_children hl, and_true]

namespace Grown

variable {x table : Sid}

/-! ### The holders -/

theorem find?_new (h : Grown g g' d parent?) : g'.find? d.sid = some d := by
  rw [h.find?, if_pos rfl]

theorem find?_old (h : Grown g g' d parent?) (ne : x ≠ d.sid) : g'.find? x = g.find? x := by
  rw [h.find?, if_neg ne]

theorem ne_of_found (h : Grown g g' d parent?) {c : Device} (hc : g.find? x = some c) :
    x ≠ d.sid := by
  rintro rfl
  rw [h.fresh] at hc
  cases hc

theorem kinds (h : Grown g g' d parent?) {c c' : Device} (hc : g.find? x = some c)
    (hc' : g'.find? x = some c') : c'.kind = c.kind := by
  rw [h.find?_old (h.ne_of_found hc)] at hc'
  rw [Option.some.inj (hc.symm.trans hc')]

/-- No holder was at the new device. -/
theorem edgesAt_new (h : Grown g g' d parent?) (dir : Direction) :
    g.edgesAt dir ⟨d.sid, 0⟩ = [] := by
  refine List.filter_eq_nil_iff.2 fun e he hr => ?_
  have anchored := g.anchored e he
  have anchor : (⟨d.sid, 0⟩ : Ref) ∈ g.nodes.map Node.ref := by
    rw [← eq_of_beq hr]
    cases dir
    · exact anchored.1
    · exact anchored.2
  obtain ⟨c, hc⟩ := find?_of_anchor anchor
  exact h.ne_of_found hc rfl

theorem edgesAt_eq (h : Grown g g' d parent?) (dir : Direction) (r : Ref) :
    g'.edgesAt dir r = (joint d parent?).filter (fun e => e.tail dir == r) ++ g.edgesAt dir r := by
  rw [edgesAt, h.edges, List.filter_append, edgesAt]

theorem sitsOn_iff (h : Grown g g' d parent?) {child parent : Sid} :
    g'.SitsOn child parent ↔ child = d.sid ∧ parent? = some parent ∨ g.SitsOn child parent := by
  unfold SitsOn
  rw [h.edges]
  constructor
  · rintro ⟨e, he, hs, ht⟩
    rcases List.mem_append.1 he with new | old
    · cases parent? with
      | none => cases new
      | some parent =>
        obtain rfl := List.mem_singleton.1 new
        exact .inl ⟨(congrArg Ref.sid ht).symm, congrArg (some ∘ Ref.sid) hs⟩
    · exact .inr ⟨e, old, hs, ht⟩
  · rintro (⟨rfl, rfl⟩ | ⟨e, he, hs, ht⟩)
    · exact ⟨_, List.mem_append_left _ (List.mem_singleton_self _), rfl, rfl⟩
    · exact ⟨e, List.mem_append_right _ he, hs, ht⟩

/-- The new device has the holder from its parent. -/
theorem edgesAt_up_new (h : Grown g g' d parent?) :
    g'.edgesAt .up ⟨d.sid, 0⟩ = joint d parent? := by
  rw [h.edgesAt_eq, h.edgesAt_new, List.append_nil]
  cases parent? <;> simp [joint, Edge.tail]

/-- Nothing is on the new device. -/
theorem edgesAt_down_new (h : Grown g g' d parent?) : g'.edgesAt .down ⟨d.sid, 0⟩ = [] := by
  rw [h.edgesAt_eq, h.edgesAt_new, List.append_nil]
  cases hp : parent? with
  | none => rfl
  | some parent =>
    obtain ⟨p, found⟩ := h.found hp
    simp [joint, Edge.tail, h.ne_of_found found]

theorem edgesAt_up_old (h : Grown g g' d parent?) (ne : x ≠ d.sid) :
    g'.edgesAt .up ⟨x, 0⟩ = g.edgesAt .up ⟨x, 0⟩ := by
  rw [h.edgesAt_eq]
  cases parent? <;> simp [joint, Edge.tail, ne.symm]

/-- The parent of the new device has one more child. -/
theorem length_down_parent (h : Grown g g' d (some x)) :
    (g'.edgesAt .down ⟨x, 0⟩).length = (g.edgesAt .down ⟨x, 0⟩).length + 1 := by
  rw [h.edgesAt_eq]
  simp [joint, Edge.tail]

theorem edgesAt_down_other (h : Grown g g' d parent?) (ne : parent? ≠ some x) :
    g'.edgesAt .down ⟨x, 0⟩ = g.edgesAt .down ⟨x, 0⟩ := by
  rw [h.edgesAt_eq]
  cases parent? with
  | none => rfl
  | some parent =>
    have other : parent ≠ x := fun same => ne (congrArg some same)
    simp [joint, Edge.tail, other]

/-- The new device has the holders that its kind needs. -/
theorem joined_new (h : Grown g g' d parent?) (law : g.Lawful)
    (accepted : ∀ parent, parent? = some parent → g.checkPlacement parent d.kind = .ok ()) :
    g'.Joined d := by
  have above := h.edgesAt_up_new
  have below : d.kind.validChildren.contains (g'.edgesAt .down ⟨d.sid, 0⟩).length = true := by
    rw [h.edgesAt_down_new]
    exact DeviceKind.validChildren_zero _
  cases hparent : parent? with
  | none =>
    rw [hparent, joint] at above
    refine ⟨⟨?_, ?_, below⟩, ?_⟩
    · simp [above]
    · rw [above]
      exact DeviceKind.validParentCount_zero (h.rooted.1 hparent)
    · simp [above]
  | some parent =>
    obtain ⟨p, hp⟩ := h.found hparent
    rw [hparent, joint] at above
    refine ⟨⟨fun e he q hq => ?_, ?_, below⟩, fun e he => ?_⟩
    · rw [above] at he
      obtain rfl := List.mem_singleton.1 he
      have found : g'.find? parent = some q.device := by rw [Devicegraph.find?, hq]; rfl
      rw [h.find?_old (h.ne_of_found hp)] at found
      exact ((law.checkPlacement_eq_ok found).1 (accepted parent hparent)).1
    · rw [above]
      refine DeviceKind.validParentCount_one fun isDisk => ?_
      simp [h.rooted.2 isDisk] at hparent
    · rw [above] at he
      rw [List.mem_singleton.1 he]

/-- The holders are right when there is room for the new device on its parent. -/
theorem joined_iff (h : Grown g g' d parent?) (law : g.Lawful) :
    (∀ {x c}, g'.find? x = some c → g'.Joined c) ↔
      ∀ parent, parent? = some parent → g.checkPlacement parent d.kind = .ok () := by
  constructor
  · rintro joined parent rfl
    obtain ⟨p, hp⟩ := h.found rfl
    obtain rfl := sid_of_find? hp
    have hp' : g'.find? p.sid = some p := (h.find?_old (h.ne_of_found hp)).trans hp
    rw [law.checkPlacement_eq_ok hp, ← h.length_down_parent]
    refine ⟨?_, (joined hp').below⟩
    have new := (joined h.find?_new).kinds
    rw [h.edgesAt_up_new] at new
    obtain ⟨hn, _⟩ := find?_eq_some.1 hp'
    exact new _ (List.mem_singleton_self _) ⟨p, 0⟩ (node?_eq_some.2 ⟨hn, rfl⟩)
  · intro accepted x c hc
    by_cases new : x = d.sid
    · subst new
      obtain rfl := Option.some.inj (h.find?_new.symm.trans hc)
      exact h.joined_new law accepted
    · rw [h.find?_old new] at hc
      obtain rfl := sid_of_find? hc
      refine (law.joined hc).carry h.whole rfl rfl (h.edgesAt_up_old new) ?_ h.kinds
      by_cases parent : parent? = some c.sid
      · subst parent
        rw [h.length_down_parent]
        exact ((law.checkPlacement_eq_ok hc).1 (accepted c.sid rfl)).2
      · rw [h.edgesAt_down_other parent]
        exact (law.joined hc).below

/-! ### Names -/

/-- The names differ when the name of the new device is unused. -/
theorem named_iff (h : Grown g g' d parent?) (law : g.Lawful) :
    (∀ {x y b c name}, g'.find? x = some b → g'.find? y = some c → b.name? = some name →
      c.name? = some name → x = y) ↔
      ∀ name, d.name? = some name → g.checkNameUnused name none = .ok () := by
  constructor
  · intro named name hn
    refine checkNameUnused_eq_ok.2 fun {x c} hc hcn => ?_
    have ne := h.ne_of_found hc
    exact absurd (named h.find?_new ((h.find?_old ne).trans hc) hn hcn).symm ne
  · intro unused x y b c name hb hc hbn hcn
    have new : ∀ {z e}, g.find? z = some e → d.name? = some name → e.name? ≠ some name := by
      intro z e he hn hen
      cases checkNameUnused_eq_ok.1 (unused name hn) he hen
    by_cases hx : x = d.sid <;> by_cases hy : y = d.sid
    · rw [hx, hy]
    · subst hx
      obtain rfl := Option.some.inj (h.find?_new.symm.trans hb)
      exact absurd hcn (new ((h.find?_old hy).symm.trans hc) hbn)
    · subst hy
      obtain rfl := Option.some.inj (h.find?_new.symm.trans hc)
      exact absurd hbn (new ((h.find?_old hx).symm.trans hb) hcn)
    · exact law.named ((h.find?_old hx).symm.trans hb) ((h.find?_old hy).symm.trans hc) hbn hcn

/-! ### Layouts -/

/-- Every device stays where it is, and the new one is where it was put. -/
theorem parent?_eq (h : Grown g g' d parent?) (law : g.Lawful)
    (joined : ∀ {x c}, g'.find? x = some c → g'.Joined c) (x : Sid) :
    g'.parent? x = if x = d.sid then parent? else g.parent? x := by
  refine Option.ext fun parent => ?_
  rw [← sitsOn_iff_of_joined h.whole joined, h.sitsOn_iff, law.sitsOn_iff]
  split
  · next new =>
    subst new
    rw [and_iff_right rfl, or_iff_left_iff_imp]
    intro hs
    obtain ⟨c, hc⟩ := law.valid.child_found hs
    exact absurd rfl (h.ne_of_found hc)
  · next ne => simp [ne]

/-- No partition is in a new table, and a new device that is no partition is in no table. -/
theorem partAt_eq (h : Grown g g' d parent?) (law : g.Lawful)
    (joined : ∀ {x c}, g'.find? x = some c → g'.Joined c)
    (other : parent? = some table → d.kind ≠ .partition) : g'.partAt table = g.partAt table := by
  funext x
  refine Option.ext fun p => ?_
  rw [partAt_eq_some, partAt_eq_some, h.parent?_eq law joined, partition_eq_ok, partition_eq_ok]
  by_cases new : x = d.sid
  · subst new
    simp only [if_true, h.find?_new, h.fresh, Option.some.injEq, exists_eq_left', reduceCtorEq,
      false_and, exists_false, and_false, iff_false, not_and]
    intro hp ha
    exact other hp (isPartition_of_attributes ha)
  · rw [if_neg new, h.find?_old new]

/-- A new partition is put into its table. -/
theorem partAt_update (h : Grown g g' d (some table)) (law : g.Lawful)
    (joined : ∀ {x c}, g'.find? x = some c → g'.Joined c) {p : Partition}
    (ha : d.attributes = .partition p) :
    g'.partAt table = Function.update (g.partAt table) d.sid (some p) := by
  funext x
  by_cases new : x = d.sid
  · subst new
    rw [Function.update_self, partAt_eq_some, h.parent?_eq law joined, if_pos rfl]
    exact ⟨rfl, partition_eq_ok.2 ⟨d, h.find?_new, ha⟩⟩
  · rw [Function.update_of_ne new]
    refine Option.ext fun q => ?_
    rw [partAt_eq_some, partAt_eq_some, h.parent?_eq law joined, if_neg new, partition_eq_ok,
      partition_eq_ok, h.find?_old new]

/-- Nothing is in a new table. -/
theorem partAt_new (h : Grown g g' d parent?)
    (joined : ∀ {x c}, g'.find? x = some c → g'.Joined c) : g'.partAt d.sid = fun _ => none := by
  funext x
  refine Option.eq_none_iff_forall_ne_some.2 fun p hp => ?_
  obtain ⟨e, he, source, _⟩ := (sitsOn_iff_of_joined h.whole joined).2 (partAt_eq_some.1 hp).1
  have onNew := mem_edgesAt_down.2 ⟨he, source⟩
  rw [h.edgesAt_down_new] at onNew
  cases onNew

/-- A table that was there has its type and its disk as before. -/
theorem table_iff (h : Grown g g' d parent?) (law : g.Lawful)
    (joined : ∀ {x c}, g'.find? x = some c → g'.Joined c) (ne : table ≠ d.sid)
    {t : PartitionTable} {disk : Sid} {a : Disk} :
    (g'.partitionTable table = .ok t ∧ g'.parent? table = some disk ∧ g'.disk disk = .ok a) ↔
      g.partitionTable table = .ok t ∧ g.parent? table = some disk ∧ g.disk disk = .ok a := by
  rw [partitionTable_eq_ok, partitionTable_eq_ok, h.find?_old ne, h.parent?_eq law joined,
    if_neg ne]
  refine and_congr_right fun _ => and_congr_right fun hp => ?_
  obtain ⟨c, hc⟩ := law.valid.parent_found hp
  rw [disk_eq_ok, disk_eq_ok, h.find?_old (h.ne_of_found hc)]

/-- The new partition is compared with all partitions of its table. -/
theorem exists_siblings (h : Grown g g' d parent?) (law : g.Lawful) {t : PartitionTable}
    {disk : Sid} {a : Disk} (ht : g.partitionTable table = .ok t)
    (hp : g.parent? table = some disk) (ha : g.disk disk = .ok a) (p : Partition) :
    ∃ siblings, Others (g.partAt table) d.sid siblings ∧
      (g.checkPartitionPlacement table p none = .ok () ↔
        Suits t.ptType a p ∧ checkSiblings t.ptType p siblings = .ok ()) := by
  have absent : g.partAt table d.sid = none := by
    refine Option.eq_none_iff_forall_ne_some.2 fun q hq => ?_
    obtain ⟨c, hc, _⟩ := partition_eq_ok.1 (partAt_eq_some.1 hq).2
    exact h.ne_of_found hc rfl
  exact checkPartitionPlacement_eq_ok d.sid p law.whole law.sitsOn_iff (.inr ⟨rfl, absent⟩) ht hp ha
    fun x px => law.valid.exists_partition ht px

/-- The layouts are right when a new partition is accepted in its table. -/
theorem arranged_iff (h : Grown g g' d parent?) (law : g.Lawful)
    (joined : ∀ {x c}, g'.find? x = some c → g'.Joined c) :
    (∀ {table disk t a}, g'.partitionTable table = .ok t → g'.parent? table = some disk →
      g'.disk disk = .ok a → Arranged t.ptType a (g'.partAt table)) ↔
      ∀ table p, parent? = some table → d.attributes = .partition p →
        g.checkPartitionPlacement table p none = .ok () := by
  constructor
  · rintro all table p rfl hda
    obtain ⟨td, htd⟩ := h.found rfl
    have fits := ((law.checkPlacement_eq_ok htd).1 ((h.joined_iff law).1 joined table rfl)).1
    rw [isPartition_of_attributes hda, DeviceKind.partition_on] at fits
    obtain ⟨t, hta⟩ := attributes_of_isPartitionTable fits
    have ht := partitionTable_eq_ok.2 ⟨td, htd, hta⟩
    obtain ⟨disk, a, hp, ha⟩ := law.valid.exists_disk ht
    obtain ⟨ht', hp', ha'⟩ := (h.table_iff law joined (h.ne_of_found htd)).2 ⟨ht, hp, ha⟩
    have layout := all ht' hp' ha'
    rw [h.partAt_update law joined hda] at layout
    obtain ⟨siblings, others, iff⟩ := h.exists_siblings law ht hp ha p
    exact iff.2 ⟨layout.suits (Function.update_self ..),
      layout.checked (Function.update_self ..) (others.update _)⟩
  · intro placed table disk t a ht' hp' ha'
    by_cases new : table = d.sid
    · subst new
      rw [h.partAt_new joined]
      exact .empty _ _
    · obtain ⟨ht, hp, ha⟩ := (h.table_iff law joined new).1 ⟨ht', hp', ha'⟩
      have layout := law.arranged ht hp ha
      by_cases put : parent? = some table ∧ d.kind = .partition
      · obtain ⟨rfl, isPartition⟩ := put
        obtain ⟨p, hda⟩ := attributes_of_isPartition isPartition
        obtain ⟨siblings, others, iff⟩ := h.exists_siblings law ht hp ha p
        obtain ⟨suits, fit⟩ := iff.1 (placed table p rfl hda)
        rw [h.partAt_update law joined hda]
        exact layout.put suits others fit
      · rw [h.partAt_eq law joined fun hparent hk => put ⟨hparent, hk⟩]
        exact layout

/-- The new devicegraph is lawful when the device is accepted before it is added. -/
theorem lawful_iff (h : Grown g g' d parent?) (law : g.Lawful) : g'.Lawful ↔
    (∀ parent, parent? = some parent → g.checkPlacement parent d.kind = .ok ()) ∧
    (∀ name, d.name? = some name → g.checkNameUnused name none = .ok ()) ∧
    ∀ table p, parent? = some table → d.attributes = .partition p →
      g.checkPartitionPlacement table p none = .ok () := by
  rw [← h.joined_iff law, ← h.named_iff law]
  constructor
  · intro law'
    exact ⟨law'.joined, law'.named,
      (h.arranged_iff law law'.joined).1 law'.arranged⟩
  · rintro ⟨joined, named, placed⟩
    exact ⟨h.whole, joined, named,
      (h.arranged_iff law joined).2 placed⟩

end Grown

theorem whole_of_place (h : (g.place d parent?).Whole) : (g.addDevice d).Whole := by
  cases parent? with
  | none => exact h
  | some parent =>
    intro n hn
    exact h n (by simpa [place] using hn)

/-- A placed device has to have a sid that stands for nothing, and to be accepted. -/
theorem Lawful.place_iff (law : g.Lawful)
    (found : ∀ {parent}, parent? = some parent → ∃ p, g.find? parent = some p)
    (rooted : parent? = none ↔ d.kind = .disk) : (g.place d parent?).Lawful ↔
      g.find? d.sid = none ∧
      (∀ parent, parent? = some parent → g.checkPlacement parent d.kind = .ok ()) ∧
      (∀ name, d.name? = some name → g.checkNameUnused name none = .ok ()) ∧
      ∀ table p, parent? = some table → d.attributes = .partition p →
        g.checkPartitionPlacement table p none = .ok () := by
  constructor
  · intro law'
    have fresh := (of_whole_addDevice (whole_of_place law'.whole)).2
    exact ⟨fresh, ((grown_place law.whole fresh found rooted).lawful_iff law).1 law'⟩
  · rintro ⟨fresh, accepted⟩
    exact ((grown_place law.whole fresh found rooted).lawful_iff law).2 accepted

end Devicegraph

end StoragePlan
