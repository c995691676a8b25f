import StoragePlan.Proofs.Editing
import StoragePlan.Proofs.Gaps
import StoragePlan.Proofs.Rearranging

/-!
# What removing a device takes away

With a device goes all that rests on it, and with an extended partition also the logical partitions
of its table with all that rests on them (`GoesWith`). `Edit.remove_exact` says that a removal takes
away just that: it counts the devices that are gone, every other device is listed as before, the
holders between other devices are those from before, and the devicegraph still passes its check.
-/

namespace StoragePlan

namespace Devicegraph

open Attempt

variable {g g' : Devicegraph} {gone : List Sid} {sid x : Sid}

/-! ### What goes -/

/-- The device goes when the one with the sid is removed. -/
def GoesWith (g : Devicegraph) (sid x : Sid) : Prop :=
  ∃ root, (root = sid ∨ g.LogicalIn root sid) ∧ (x = root ∨ g.RestsOn x root)

theorem LogicalIn.logical_found {logical extended : Sid} (h : g.LogicalIn logical extended) :
    ∃ d, g.find? logical = some d := by
  obtain ⟨p, hp, _⟩ := h.isLogical
  obtain ⟨d, hd, _⟩ := partition_eq_ok.1 hp
  exact ⟨d, hd⟩

namespace Lawful

/-- What is there can be removed. -/
theorem removal_total (law : g.Lawful) {d : Device} (hd : g.find? sid = some d) :
    ∃ gone, g.removal sid = .ok gone := by
  obtain ⟨logicals, hlogicals⟩ : ∃ logicals,
      (if d.kind = .partition then g.logicalPartitionsOf sid else pure []) = .ok logicals := by
    split
    · next isPartition =>
      obtain ⟨p, ha⟩ := attributes_of_isPartition isPartition
      exact law.valid.logicalPartitionsOf_total (partition_eq_ok.2 ⟨d, hd, ha⟩)
    · exact ⟨[], rfl⟩
  obtain ⟨families, hfamilies⟩ := mapM_total (f := fun root => g.descendants root true)
    (l := sid :: logicals) fun root isRoot => by
      rcases List.mem_cons.1 isRoot with rfl | isLogical
      · exact descendants_total hd true
      · obtain ⟨c, hc⟩ := ((law.mem_logicals hd hlogicals root).1 isLogical).logical_found
        exact descendants_total hc true
  exact ⟨_, removal_eq_ok.2 ⟨d, logicals, families, hd, hlogicals, hfamilies, rfl⟩⟩

/-- A removal lists what goes with the device. -/
theorem mem_removal_iff (law : g.Lawful) (hl : g.removal sid = .ok gone) :
    x ∈ gone ↔ g.GoesWith sid x := by
  rw [law.mem_removal hl]
  refine exists_congr fun root => ?_
  constructor
  · rintro ⟨all, isRoot, hall, hx⟩
    exact ⟨isRoot, (law.valid.mem_descendants_iff hall).1 hx⟩
  · rintro ⟨isRoot, hx⟩
    obtain ⟨d, hd⟩ : ∃ d, g.find? root = some d := by
      rcases isRoot with rfl | isLogical
      · obtain ⟨d, _, _, hd, _⟩ := removal_eq_ok.1 hl
        exact ⟨d, hd⟩
      · exact isLogical.logical_found
    obtain ⟨all, hall⟩ := descendants_total hd false
    exact ⟨all, isRoot, hall, (law.valid.mem_descendants_iff hall).2 hx⟩

end Lawful

/-! ### What stays -/

namespace Shrunk

/-- The other devices are listed as before. -/
theorem devices_eq (h : Shrunk g g' gone) :
    g'.devices = g.devices.filter fun d => d.sid ∉ gone :=
  devices_eq_of_mem_iff (g.devices_ascending.filter _) fun d => by
    rw [List.mem_filter, mem_devices, h.find?_eq_some, decide_eq_true_eq, and_comm]

/-- The holders between other devices are listed as before. -/
theorem holders_eq (h : Shrunk g g' gone) (whole : g.Whole) :
    g'.holders = g.holders.filter fun j => j.source ∉ gone ∧ j.target ∉ gone := by
  have same : ∀ e ∈ g.edges, Avoids gone e =
      decide (e.holder.source ∉ gone ∧ e.holder.target ∉ gone) := by
    intro e he
    obtain ⟨source, target⟩ := g.anchored e he
    have ends : ∀ {r : Ref}, r ∈ g.nodes.map Node.ref → ((∀ sid ∈ gone, r ≠ ⟨sid, 0⟩) ↔
        r.sid ∉ gone) := by
      intro r hr
      rw [whole.depth_of_anchor hr]
      simp only [ne_eq, Ref.mk.injEq, and_true]
      exact ⟨fun apart went => apart _ went rfl, fun stays x went same => stays (same ▸ went)⟩
    rw [Bool.eq_iff_iff, avoids_iff, decide_eq_true_eq, forall₂_and, ends source, ends target]
    rfl
  have perm : g'.holders.Perm (g.holders.filter fun j => j.source ∉ gone ∧ j.target ∉ gone) := by
    refine (List.mergeSort_perm ..).trans ?_
    refine .trans ?_ ((List.mergeSort_perm ..).symm.filter _)
    rw [h.edges, List.filter_congr same, List.filter_map]
    rfl
  exact perm.eq_of_pairwise (fun a b _ _ => Holder.eq_of_before) g'.holders_sorted
    (g.holders_sorted.filter _)

/-- As many devices are missing as went. -/
theorem numDevices_eq (h : Shrunk g g' gone) (distinct : gone.Nodup)
    (found : ∀ x ∈ gone, ∃ d, g.find? x = some d) :
    g'.numDevices + gone.length = g.numDevices := by
  have went : ((g.devices.filter fun d => d.sid ∈ gone).map Device.sid).Perm gone := by
    have ascending := g.devices_ascending.filter fun d => d.sid ∈ gone
    have sids := (List.pairwise_map.2 ascending).imp fun lt => Nat.ne_of_lt lt
    refine (List.perm_ext_iff_of_nodup sids distinct).2 fun x => ?_
    simp only [List.mem_map, List.mem_filter, mem_devices, decide_eq_true_eq]
    constructor
    · rintro ⟨d, ⟨_, mem⟩, rfl⟩
      exact mem
    · intro mem
      obtain ⟨d, hd⟩ := found x mem
      obtain rfl := sid_of_find? hd
      exact ⟨d, ⟨hd, mem⟩, rfl⟩
  have all := List.length_eq_length_filter_add (l := g.devices) fun d => decide (d.sid ∈ gone)
  have count := went.length_eq
  rw [List.length_map] at count
  rw [numDevices, numDevices, h.devices_eq, all, count, Nat.add_comm]
  simp only [decide_not]

end Shrunk

end Devicegraph

namespace Edit

open Step

/-- In a valid devicegraph a removal fails just for a sid that is not there. Otherwise the devices
that are gone are those that go with the device, it tells how many these are, and all other devices
and the holders between them are as before, in a valid devicegraph. -/
theorem remove_exact {s : Editor} (valid : s.graph.check = .ok ()) (sid : Sid) :
    (s.graph.contains sid = false → remove sid s = .error ↑(MissingFault.device sid) s) ∧
    (s.graph.contains sid = true → ∃ (gone : List Sid) (s' : Editor),
      remove sid s = .ok gone.length s' ∧ gone.Nodup ∧
      (∀ x, x ∈ gone ↔ s.graph.GoesWith sid x) ∧
      s'.graph.numDevices + gone.length = s.graph.numDevices ∧
      s'.graph.devices = s.graph.devices.filter (fun d => d.sid ∉ gone) ∧
      s'.graph.holders = s.graph.holders.filter (fun h => h.source ∉ gone ∧ h.target ∉ gone) ∧
      s'.graph.check = .ok () ∧ s'.supply = s.supply) := by
  have law := Devicegraph.check_eq_ok.1 valid
  have step := remove_checksFirst law sid
  constructor
  · intro absent
    have refused : s.graph.removal sid = .error ↑(MissingFault.device sid) := by
      have missing : s.graph.find sid = .error ↑(MissingFault.device sid) := by
        rw [Devicegraph.find, Devicegraph.contains_eq_false.1 absent]
      simp only [Devicegraph.removal, missing, bind, Except.bind]
    exact step.refused (by rw [refused]; rfl)
  · intro present
    obtain ⟨d, hd⟩ := Devicegraph.contains_iff.1 present
    obtain ⟨gone, removal⟩ := law.removal_total hd
    obtain ⟨_, s', removed, _, same, rfl, graph, supply⟩ := step.accepted (by rw [removal]; rfl)
    obtain rfl := Except.ok.inj (removal.symm.trans same)
    have distinct := Devicegraph.nodup_removal removal
    have shrunk := Devicegraph.shrunk_foldl s.graph gone.reverse
    rw [← graph] at shrunk
    have numDevices := shrunk.numDevices_eq (List.nodup_reverse.2 distinct) fun x hx =>
      law.found_of_mem_removal removal (List.mem_reverse.1 hx)
    refine ⟨gone, s', removed, distinct, fun x => law.mem_removal_iff removal, ?_, ?_, ?_, ?_,
      supply⟩
    · rwa [List.length_reverse] at numDevices
    · simpa using shrunk.devices_eq
    · simpa using shrunk.holders_eq law.whole
    · exact Devicegraph.check_eq_ok.2
        (shrunk.lawful law (law.detachable_removal removal).reverse)

/-- A divided disk with a filesystem on the logical partition. -/
def inUse : Editor where
  graph :=
    (Devicegraph.divided.addDevice ⟨6, .filesystem { fsType := .ext4 }, []⟩).addEdge 5 6 .user

/-- The extended partition goes with the logical one and the filesystem on that. -/
theorem remove_exact_extended : ∃ (gone : List Sid) (s' : Editor),
    remove 4 inUse = .ok gone.length s' ∧ gone.Nodup ∧
      (∀ x, x ∈ gone ↔ inUse.graph.GoesWith 4 x) ∧
      s'.graph.numDevices + gone.length = inUse.graph.numDevices ∧
      s'.graph.devices = inUse.graph.devices.filter (fun d => d.sid ∉ gone) ∧
      s'.graph.holders = inUse.graph.holders.filter (fun h => h.source ∉ gone ∧ h.target ∉ gone) ∧
      s'.graph.check = .ok () ∧ s'.supply = inUse.supply :=
  (remove_exact (by cbv) 4).2 (by cbv)

example : inUse.graph.removal 4 = .ok [4, 5, 6] := by cbv

end Edit

end StoragePlan
