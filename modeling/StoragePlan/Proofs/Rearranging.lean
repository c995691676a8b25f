import StoragePlan.Proofs.Documents

/-!
# The order of devices and holders

A devicegraph keeps its nodes and edges in the order in which they came. Nothing that is read off it
depends on that order: `Rearranged` devicegraphs pass the check together (`check_iff`) and show the
same document (`document_eq`), for a document lists devices by their sids and holders by their ends.

So a document can be written down in any order, too (`Document.Reordered`). The devicegraph of a
coherent document shows the document in another order (`Document.Coherent.reordered`), and a checked
devicegraph is that of its document but for the order (`Lawful.rearranged_document`).
-/

namespace StoragePlan

/-! ### The order of holders -/

namespace Holder

theorem before_iff {a b : Holder} : a.before b = true ↔ a.source < b.source ∨
    a.source = b.source ∧ (a.target < b.target ∨
      a.target = b.target ∧ a.kind.rank ≤ b.kind.rank) := by
  simp only [before, Ordering.isLE_then_iff_or, Nat.compare_eq_lt, Nat.compare_eq_eq,
    Nat.isLE_compare]

theorem before_total (a b : Holder) : (a.before b || b.before a) = true := by
  rw [Bool.or_eq_true, before_iff, before_iff]
  grind

theorem before_trans (a b c : Holder) (h : a.before b = true) (h' : b.before c = true) :
    a.before c = true := by
  rw [before_iff] at *
  grind

/-- Holders that come before each other are one. -/
theorem eq_of_before {a b : Holder} (h : a.before b = true) (h' : b.before a = true) : a = b := by
  obtain ⟨source, target, kind⟩ := a
  obtain ⟨source', target', kind'⟩ := b
  rw [before_iff] at h h'
  have kinds : kind.rank = kind'.rank → kind = kind' := by
    cases kind <;> cases kind' <;> simp [HolderKind.rank]
  grind

end Holder

/-- The devices come by sid, and the holders by source and target. -/
structure Document.Ordered (d : Document) : Prop where
  devices : d.devices.Pairwise fun a b => a.sid < b.sid
  holders : d.holders.Pairwise fun a b =>
    a.source < b.source ∨ a.source = b.source ∧ a.target < b.target

namespace Devicegraph

open Attempt

variable {g h : Devicegraph} {x y : Sid}

theorem holders_sorted (g : Devicegraph) : g.holders.Pairwise fun a b => a.before b = true :=
  List.pairwise_mergeSort Holder.before_trans Holder.before_total _

/-- The document of a devicegraph is in order if no two holders join the same devices. -/
theorem ordered_document (single : (g.holders.map fun h => (h.source, h.target)).Nodup) :
    g.document.Ordered := by
  refine ⟨g.devices_ascending, ?_⟩
  refine (g.holders_sorted.and (List.pairwise_map.1 single)).imp fun {a b} ⟨before, apart⟩ => ?_
  rw [Holder.before_iff] at before
  simp only [Prod.mk.injEq, ne_eq, not_and] at apart
  obtain source | ⟨source, target | ⟨target, _⟩⟩ := before
  · exact .inl source
  · exact .inr ⟨source, target⟩
  · exact absurd target (apart source)

/-! ### Rearranged devicegraphs -/

/-- The nodes and edges are the same, in any order. -/
structure Rearranged (g h : Devicegraph) : Prop where
  nodes : g.nodes.Perm h.nodes
  edges : g.edges.Perm h.edges

namespace Rearranged

theorem symm (same : g.Rearranged h) : h.Rearranged g := ⟨same.nodes.symm, same.edges.symm⟩

theorem node?_eq (same : g.Rearranged h) (r : Ref) : g.node? r = h.node? r := by
  ext n
  rw [node?_eq_some, node?_eq_some, same.nodes.mem_iff]

theorem find?_eq (same : g.Rearranged h) (x : Sid) : g.find? x = h.find? x := by
  rw [find?, find?, same.node?_eq]

theorem attributesOf_eq {α : Type} (same : g.Rearranged h) (kind : DeviceKind)
    (read : Attributes → Option α) (x : Sid) :
    g.attributesOf kind read x = h.attributesOf kind read x := by
  simp only [attributesOf, find, same.find?_eq]

theorem edgesAt_perm (same : g.Rearranged h) (dir : Direction) (r : Ref) :
    (g.edgesAt dir r).Perm (h.edgesAt dir r) := same.edges.filter _

theorem sitsOn_iff (same : g.Rearranged h) : g.SitsOn x y ↔ h.SitsOn x y := by
  simp only [SitsOn, same.edges.mem_iff]

/-- The devices are listed by their sids, so they come in one order. -/
theorem devices_eq (same : g.Rearranged h) : g.devices = h.devices :=
  devices_eq_of_mem_iff h.devices_ascending fun d => by rw [mem_devices, same.find?_eq]

/-- The holders are listed by their ends, so they come in one order. -/
theorem holders_eq (same : g.Rearranged h) : g.holders = h.holders := by
  have listed := same.edges.map Edge.holder
  have perm : g.holders.Perm h.holders :=
    (List.mergeSort_perm ..).trans (listed.trans (List.mergeSort_perm ..).symm)
  exact perm.eq_of_pairwise (fun a b _ _ => Holder.eq_of_before) g.holders_sorted h.holders_sorted

theorem document_eq (same : g.Rearranged h) : g.document = h.document := by
  rw [document, document, same.devices_eq, same.holders_eq]

theorem joined {d : Device} (same : g.Rearranged h) (joined : g.Joined d) : h.Joined d := by
  have above := same.edgesAt_perm .up ⟨d.sid, 0⟩
  refine ⟨⟨fun e he p hp => ?_, ?_, ?_⟩, fun e he => ?_⟩
  · exact joined.kinds e (above.mem_iff.2 he) p (same.node?_eq _ ▸ hp)
  · exact above.length_eq ▸ joined.above
  · exact (same.edgesAt_perm .down ⟨d.sid, 0⟩).length_eq ▸ joined.below
  · exact joined.holders e (above.mem_iff.2 he)

theorem lawful (same : g.Rearranged h) (law : g.Lawful) : h.Lawful := by
  have whole : h.Whole := fun n hn => law.whole n (same.nodes.mem_iff.2 hn)
  have joined : ∀ {x d}, h.find? x = some d → h.Joined d := fun hd =>
    same.joined (law.joined (same.find?_eq _ ▸ hd))
  have parent?_eq : ∀ x, g.parent? x = h.parent? x := by
    intro x
    ext p
    rw [← law.sitsOn_iff, ← sitsOn_iff_of_joined whole joined, same.sitsOn_iff]
  have partAt_eq : ∀ table, g.partAt table = h.partAt table := by
    intro table
    funext x
    rw [partAt, partAt, parent?_eq, partition, partition, same.attributesOf_eq]
  refine ⟨whole, joined, fun hc hd => ?_, fun ht hdisk hd => ?_⟩
  · rw [← same.find?_eq] at hc hd
    exact law.named hc hd
  · rw [partitionTable, ← same.attributesOf_eq] at ht
    rw [disk, ← same.attributesOf_eq] at hd
    rw [← parent?_eq] at hdisk
    rw [← partAt_eq]
    exact law.arranged ht hdisk hd

/-- The order of nodes and edges does not matter to the check. -/
theorem check_iff (same : g.Rearranged h) : g.check = .ok () ↔ h.check = .ok () := by
  rw [check_eq_ok, check_eq_ok]
  exact ⟨same.lawful, same.symm.lawful⟩

end Rearranged

/-! ### Nodes and devices, edges and holders -/

namespace Whole

/-- The node of a device is told by its device. -/
theorem map_device (whole : g.Whole) : (g.nodes.map Node.device).map (⟨·, 0⟩) = g.nodes := by
  rw [List.map_map]
  conv_rhs => rw [← List.map_id g.nodes]
  refine List.map_congr_left fun n hn => ?_
  rw [Function.comp_apply, ← whole n hn]
  rfl

/-- The edge of a holder is told by its holder. -/
theorem map_holder (whole : g.Whole) : (g.edges.map Edge.holder).map Holder.edge = g.edges := by
  rw [List.map_map]
  conv_rhs => rw [← List.map_id g.edges]
  refine List.map_congr_left fun e he => ?_
  obtain ⟨source, target⟩ := g.anchored e he
  rw [Function.comp_apply, Holder.edge, Edge.holder, ← whole.depth_of_anchor source,
    ← whole.depth_of_anchor target]
  rfl

theorem devices_perm (whole : g.Whole) : g.devices.Perm (g.nodes.map Node.device) := by
  rw [devices, List.filter_eq_self.2 fun n hn => by simp [whole n hn]]
  exact List.mergeSort_perm ..

end Whole

theorem holders_perm (g : Devicegraph) : g.holders.Perm (g.edges.map Edge.holder) :=
  List.mergeSort_perm ..

/-- A device sits on another one if a holder is listed. -/
theorem Whole.sitsOn_iff_holders (whole : g.Whole) {child parent : Sid} :
    g.SitsOn child parent ↔ ∃ j ∈ g.holders, j.source = parent ∧ j.target = child := by
  simp only [SitsOn, g.holders_perm.mem_iff, List.mem_map]
  constructor
  · rintro ⟨e, he, source, target⟩
    exact ⟨e.holder, ⟨e, he, rfl⟩, congrArg Ref.sid source, congrArg Ref.sid target⟩
  · rintro ⟨_, ⟨e, he, rfl⟩, rfl, rfl⟩
    obtain ⟨source, target⟩ := g.anchored e he
    exact ⟨e, he, whole.depth_of_anchor source, whole.depth_of_anchor target⟩

namespace Filled

variable {devices : List Device} {holders : List Holder}

theorem nodes_perm (filled : Filled g devices holders) : g.nodes.Perm (devices.map (⟨·, 0⟩)) :=
  filled.nodes ▸ (List.reverse_perm devices).map _

theorem edges_perm (filled : Filled g devices holders) : g.edges.Perm (holders.map Holder.edge) :=
  filled.edges ▸ (List.reverse_perm holders).map _

end Filled

/-! ### The document of a devicegraph -/

namespace Lawful

theorem coherent_document (law : g.Lawful) : g.document.Coherent := by
  refine ⟨?_, fun h hh => ?_, ?_⟩
  · exact List.pairwise_map.2 (g.devices_ascending.imp fun lt => Nat.ne_of_lt lt)
  · obtain ⟨e, he, rfl⟩ := List.mem_map.1 (g.holders_perm.mem_iff.1 hh)
    have listed : ∀ {r}, r ∈ g.nodes.map Node.ref → r.sid ∈ g.devices.map Device.sid := by
      intro r hr
      obtain ⟨d, hd⟩ := find?_of_anchor (law.whole.depth_of_anchor hr ▸ hr)
      have same := sid_of_find? hd
      exact same ▸ List.mem_map_of_mem (mem_devices.2 (same ▸ hd))
    exact ⟨listed (g.anchored e he).1, listed (g.anchored e he).2⟩
  · refine (g.holders_perm.map _).nodup_iff.2 ?_
    rw [List.map_map]
    refine List.pairwise_map.2 ((List.pairwise_map.1 law.nodup_targets).imp_of_mem ?_)
    intro e f he hf apart same
    obtain ⟨_, target⟩ := Prod.mk.injEq .. ▸ same
    rw [law.whole.depth_of_anchor (g.anchored e he).2,
      law.whole.depth_of_anchor (g.anchored f hf).2] at apart
    exact apart (congrArg (Ref.mk · 0) target)

/-- A devicegraph that follows the rules is the one of its document. -/
theorem rearranged_document (law : g.Lawful) : g.Rearranged g.document.graph := by
  have filled := law.coherent_document.filled
  refine ⟨?_, ?_⟩
  · have nodes := law.whole.devices_perm.symm.map fun d => (⟨d, 0⟩ : Node)
    rw [law.whole.map_device] at nodes
    exact nodes.trans filled.nodes_perm.symm
  · have edges := g.holders_perm.symm.map Holder.edge
    rw [law.whole.map_holder] at edges
    exact edges.trans filled.edges_perm.symm

end Lawful

end Devicegraph

/-! ### Documents in another order -/

namespace Document

open Devicegraph

variable {d e : Document}

/-- The devices and holders are the same, in any order. -/
structure Reordered (d e : Document) : Prop where
  devices : d.devices.Perm e.devices
  holders : d.holders.Perm e.holders

namespace Reordered

theorem symm (same : d.Reordered e) : e.Reordered d := ⟨same.devices.symm, same.holders.symm⟩

theorem coherent (same : d.Reordered e) (h : d.Coherent) : e.Coherent := by
  have sids := same.devices.map Device.sid
  refine ⟨sids.nodup_iff.1 h.distinct, fun k hk => ?_, (same.holders.map _).nodup_iff.1 h.single⟩
  rw [← sids.mem_iff, ← sids.mem_iff]
  exact h.anchored k (same.holders.mem_iff.2 hk)

theorem rearranged (same : d.Reordered e) (h : d.Coherent) : d.graph.Rearranged e.graph := by
  have filled := h.filled
  have filled' := (same.coherent h).filled
  refine ⟨?_, ?_⟩
  · exact filled.nodes_perm.trans ((same.devices.map _).trans filled'.nodes_perm.symm)
  · exact filled.edges_perm.trans ((same.holders.map _).trans filled'.edges_perm.symm)

end Reordered

/-- The devicegraph of a coherent document shows what the document lists. -/
theorem Coherent.reordered (h : d.Coherent) : d.graph.document.Reordered d := by
  have devices_eq : (d.devices.map fun c => (⟨c, 0⟩ : Node)).map Node.device = d.devices :=
    List.map_map.trans (List.map_id _)
  have holders_eq : (d.holders.map Holder.edge).map Edge.holder = d.holders :=
    List.map_map.trans (List.map_id _)
  have devices := h.filled.nodes_perm.map Node.device
  have holders := h.filled.edges_perm.map Edge.holder
  rw [devices_eq] at devices
  rw [holders_eq] at holders
  exact ⟨h.filled.whole.devices_perm.trans devices, d.graph.holders_perm.trans holders⟩

end Document

end StoragePlan
