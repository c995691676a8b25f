import Mathlib.Data.List.Permutation
import StoragePlan.Proofs.Editing
import StoragePlan.Proofs.Lawful

/-!
# Reachability

Where every device answers to its sid, the worklist of `explore` finds what holders reach, and what
is listed of the surroundings of a device follows from that alone: its descendants and ancestors,
the leaves and the roots among them (`navigation_exact`). That holds for cycles and for any number
of parents, so also while a document is being loaded, which gives each sid to one device.

The rules add that the way up is short. It is one way, since a device has one parent, and each step
of it leads to a lower tier (`DeviceKind.tier`). So the tier of a device bounds the number of its
ancestors, and the way ends at a disk.

A device that took the sid of another one spoils this: the worklist still gets to the shadowed
device, but a walk that starts at the sid does not (`walks_differ`).
-/

namespace StoragePlan

/-- Questions that all have an answer filter a list as the answers do. -/
theorem Attempt.filterM_of_ok {ε α : Type} {f : α → Except ε Bool} {p : α → Bool} {l : List α}
    (h : ∀ a ∈ l, f a = .ok (p a)) : l.filterM f = .ok (l.filter p) := by
  have collected : ∀ kept, l.filterAuxM f kept = .ok ((l.filter p).reverse ++ kept) := by
    induction l with
    | nil => exact fun _ => rfl
    | cons a rest ih =>
      obtain ⟨here, h⟩ := List.forall_mem_cons.1 h
      intro kept
      rw [List.filterAuxM, here]
      change rest.filterAuxM f (cond (p a) (a :: kept) kept) = _
      rw [ih h]
      cases hp : p a <;> simp [hp]
  rw [List.filterM, collected []]
  simp [bind, Except.bind, pure, Except.pure]

namespace Devicegraph

open Attempt Relation

variable {g : Devicegraph} {dir : Direction} {sid x y : Sid} {d : Device} {itself : Bool}

/-! ### What holders reach -/

/-- A holder leads from the first device to the second one. -/
def LeadsTo (g : Devicegraph) : Direction → Sid → Sid → Prop
  | .down, x, y => g.SitsOn y x
  | .up, x, y => g.SitsOn x y

/-- One or more holders lead from the first device to the second one. -/
def Reaches (g : Devicegraph) (dir : Direction) : Sid → Sid → Prop := TransGen (g.LeadsTo dir)

theorem LeadsTo.found (h : g.LeadsTo dir x y) : ∃ d, g.find? y = some d := by
  cases dir with
  | down => exact SitsOn.child_found h
  | up => exact SitsOn.parent_found h

theorem Reaches.found (h : g.Reaches dir x y) : ∃ d, g.find? y = some d := by
  obtain ⟨_, _, last⟩ := TransGen.tail'_iff.1 h
  exact last.found

/-- What is reached downwards reaches back upwards. -/
theorem reaches_up : g.Reaches .up x y ↔ g.Reaches .down y x := transGen_swap

namespace Whole

theorem mem_next (h : g.Whole) {n : Node} :
    n ∈ g.next dir ⟨sid, 0⟩ ↔ n ∈ g.nodes ∧ g.LeadsTo dir sid n.device.sid := by
  cases dir with
  | down => exact h.mem_next_down
  | up => exact h.mem_next_up

/-- The device that a holder leads to is next. -/
theorem exists_next (h : g.Whole) (leads : g.LeadsTo dir x y) :
    ∃ n ∈ g.next dir ⟨x, 0⟩, n.device.sid = y := by
  obtain ⟨d, hd⟩ := leads.found
  obtain ⟨hn, rfl⟩ := find?_eq_some.1 hd
  exact ⟨⟨d, 0⟩, h.mem_next.2 ⟨hn, leads⟩, rfl⟩

theorem isEmpty_next (h : g.Whole) :
    (g.next dir ⟨x, 0⟩).isEmpty = true ↔ ∀ y, ¬g.LeadsTo dir x y := by
  rw [List.isEmpty_iff, List.eq_nil_iff_forall_not_mem]
  constructor
  · intro none y leads
    obtain ⟨n, hn, _⟩ := h.exists_next leads
    exact none n hn
  · intro none n hn
    exact none _ (h.mem_next.1 hn).2

/-- The worklist finds what the device reaches. The device itself is met if it is on a cycle. -/
theorem mem_explore (h : g.Whole) :
    x ∈ g.explore dir [] [⟨sid, 0⟩] ↔ g.Reaches dir sid x := by
  constructor
  · intro met
    refine (of_mem_explore h (P := g.Reaches dir sid) ?_ ?_ met).resolve_left List.not_mem_nil
    · intro y reached n hn
      exact .tail reached (h.mem_next.1 hn).2
    · intro r hr n hn
      obtain rfl := List.mem_singleton.1 hr
      exact .single (h.mem_next.1 hn).2
  · intro reached
    obtain ⟨_, nexts, closed⟩ := explore_closed h dir [] [⟨sid, 0⟩]
    induction reached with
    | single leads =>
      obtain ⟨n, hn, rfl⟩ := h.exists_next leads
      exact nexts _ List.mem_cons_self n hn
    | tail _ leads met =>
      obtain ⟨n, hn, rfl⟩ := h.exists_next leads
      exact closed _ met List.not_mem_nil n hn

end Whole

/-! ### What is listed -/

/-- The list has the devices that a device reaches, by sid, and the device itself if that is asked
for. -/
structure Lists (g : Devicegraph) (dir : Direction) (sid : Sid) (itself : Bool) (l : List Sid) :
    Prop where
  ascending : l.Pairwise (· < ·)
  mem_iff : ∀ x, x ∈ l ↔ if x = sid then itself = true else g.Reaches dir sid x

/-- The list has those members of another one from which no holder leads on. -/
structure Ends (g : Devicegraph) (dir : Direction) (all l : List Sid) : Prop where
  ascending : l.Pairwise (· < ·)
  mem_iff : ∀ x, x ∈ l ↔ x ∈ all ∧ ∀ y, ¬g.LeadsTo dir x y

namespace Whole

theorem reachable_lists (h : g.Whole) (hd : g.find? sid = some d) (dir : Direction) (itself : Bool) :
    ∃ l, g.reachable dir sid itself = .ok l ∧ g.Lists dir sid itself l := by
  simp only [reachable, find_eq_ok.2 hd]
  refine ⟨_, rfl, SidList.pairwise_ofList _, fun x => ?_⟩
  by_cases same : x = sid
  · cases itself <;> simp [same]
  · cases itself <;> simp [same, h.mem_explore]

theorem lists_of_reachable (h : g.Whole) {l : List Sid}
    (hl : g.reachable dir sid itself = .ok l) : g.Lists dir sid itself l := by
  obtain ⟨d, hd, _⟩ := bind_eq_ok.1 hl
  obtain ⟨l', hl', lists⟩ := h.reachable_lists (find_eq_ok.1 hd) dir itself
  rwa [Except.ok.inj (hl.symm.trans hl')]

/-- What is listed is there. -/
theorem found_of_lists (hd : g.find? sid = some d) {l : List Sid} (lists : g.Lists dir sid itself l)
    (hx : x ∈ l) : ∃ c, g.find? x = some c := by
  have reached := (lists.mem_iff x).1 hx
  by_cases same : x = sid
  · exact ⟨d, same ▸ hd⟩
  · rw [if_neg same] at reached
    exact reached.found

theorem extremes_ends (h : g.Whole) (hd : g.find? sid = some d) {all : List Sid}
    (lists : g.Lists dir sid itself all) : ∃ l, g.extremes dir all = .ok l ∧ g.Ends dir all l := by
  have answers : ∀ x ∈ all, (do
      let _ ← g.find x
      return (g.next dir ⟨x, 0⟩).isEmpty) = .ok (g.next dir ⟨x, 0⟩).isEmpty := by
    intro x hx
    obtain ⟨c, hc⟩ := found_of_lists hd lists hx
    rw [find_eq_ok.2 hc]
    rfl
  refine ⟨_, filterM_of_ok answers, lists.ascending.filter _, fun x => ?_⟩
  rw [List.mem_filter, h.isEmpty_next]

end Whole

/-! ### The way up in a devicegraph that was checked -/

namespace Valid

variable {parent root : Sid}

/-- What holders reach upwards is what the device rests on. -/
theorem reaches_up_iff (h : g.Valid) : g.Reaches .up x y ↔ g.RestsOn x y := by
  have leads : g.LeadsTo .up = fun child parent => g.parent? child = some parent := by
    funext child parent
    exact propext h.sitsOn_iff
  rw [Reaches, leads, RestsOn]

theorem restsOn_iff (hp : g.parent? sid = some parent) :
    g.RestsOn sid x ↔ x = parent ∨ g.RestsOn parent x := by
  rw [RestsOn, TransGen.head'_iff]
  simp only [hp, Option.some.injEq, exists_eq_left', reflTransGen_iff_eq_or_transGen]

theorem not_restsOn (hp : g.parent? sid = none) : ¬g.RestsOn sid x := by
  rw [RestsOn, TransGen.head'_iff]
  simp [hp]

/-- The parent of a device is of a lower tier. -/
theorem exists_lower (h : g.Valid) (hd : g.find? sid = some d) (hp : g.parent? sid = some parent) :
    ∃ p, g.find? parent = some p ∧ p.kind.tier < d.kind.tier := by
  obtain ⟨p, hpd⟩ := h.parent_found hp
  exact ⟨p, hpd, DeviceKind.tier_lt (h.suited hd hpd hp)⟩

/-- Induction on the way up: first the device that has no parent, then from a parent to a child. -/
theorem up_induction (h : g.Valid) {motive : ∀ sid d, g.find? sid = some d → Prop}
    (top : ∀ {sid d} (hd : g.find? sid = some d), g.parent? sid = none → motive sid d hd)
    (next : ∀ {sid d parent p} (hd : g.find? sid = some d) (hpd : g.find? parent = some p),
      g.parent? sid = some parent → p.kind.tier < d.kind.tier → motive parent p hpd →
        motive sid d hd)
    {sid : Sid} {d : Device} (hd : g.find? sid = some d) : motive sid d hd := by
  induction tier : d.kind.tier using Nat.strong_induction_on generalizing sid d with
  | _ n ih =>
    cases hp : g.parent? sid with
    | none => exact top hd hp
    | some parent =>
      obtain ⟨p, hpd, lower⟩ := h.exists_lower hd hp
      exact next hd hpd hp lower (ih p.kind.tier (tier ▸ lower) hpd rfl)

theorem restsOn_of_mem_ancestors (h : g.Valid) {above : List Sid}
    (ha : g.ancestors sid false = .ok above) (hx : x ∈ above) : g.RestsOn sid x := by
  have reached := ((h.whole.lists_of_reachable ha).mem_iff x).1 hx
  by_cases same : x = sid
  · simp [same] at reached
  · rwa [if_neg same, h.reaches_up_iff] at reached

/-- A device has at most as many ancestors as there are tiers below its own. -/
theorem length_ancestors_le (h : g.Valid) (hd : g.find? sid = some d) {above : List Sid}
    (ha : g.ancestors sid false = .ok above) : above.length ≤ d.kind.tier := by
  induction hd using h.up_induction generalizing above with
  | top _ hp =>
    have none : above = [] := List.eq_nil_iff_forall_not_mem.2 fun x hx =>
      not_restsOn hp (h.restsOn_of_mem_ancestors ha hx)
    simp [none]
  | @next sid d parent p _ hpd hp lower ih =>
    obtain ⟨rest, hrest, lists⟩ := h.whole.reachable_lists hpd .up false
    have subset : above ⊆ parent :: rest := by
      intro x hx
      rcases (restsOn_iff hp).1 (h.restsOn_of_mem_ancestors ha hx) with same | further
      · simp [same]
      · by_cases same : x = parent
        · simp [same]
        · refine List.mem_cons_of_mem _ ((lists.mem_iff x).2 ?_)
          rwa [if_neg same, h.reaches_up_iff]
    have distinct : above.Nodup := (h.whole.lists_of_reachable ha).ascending.imp Nat.ne_of_lt
    have le := (distinct.subperm subset).length_le
    have := ih hrest
    rw [List.length_cons] at le
    omega

/-- The way up from a device ends at one disk. -/
theorem exists_root (h : g.Valid) (hd : g.find? sid = some d) : ∃ root disk,
    g.disk root = .ok disk ∧
      ∀ x, (x = sid ∨ g.RestsOn sid x) ∧ g.parent? x = none ↔ x = root := by
  induction hd using h.up_induction with
  | @top sid d hd hp =>
    obtain ⟨a, ha⟩ := attributes_of_isDisk ((h.rooted hd).1 hp)
    refine ⟨sid, a, disk_eq_ok.2 ⟨d, hd, ha⟩, fun x => ?_⟩
    constructor
    · rintro ⟨same | rests, _⟩
      · exact same
      · exact absurd rests (not_restsOn hp)
    · rintro rfl
      exact ⟨.inl rfl, hp⟩
  | next _ _ hp _ ih =>
    obtain ⟨root, a, ha, ends⟩ := ih
    refine ⟨root, a, ha, fun x => ?_⟩
    rw [← ends x, restsOn_iff hp]
    constructor
    · rintro ⟨rfl | above, top⟩
      · rw [hp] at top
        cases top
      · exact ⟨above, top⟩
    · rintro ⟨above, top⟩
      exact ⟨.inr above, top⟩

/-- The roots of a device are one disk. -/
theorem roots_eq (h : g.Valid) (hd : g.find? sid = some d) :
    ∃ root disk, g.roots sid true = .ok [root] ∧ g.disk root = .ok disk := by
  obtain ⟨root, a, ha, ends⟩ := h.exists_root hd
  obtain ⟨above, habove, lists⟩ := h.whole.reachable_lists hd .up true
  obtain ⟨tops, htops, isTop⟩ := h.whole.extremes_ends hd lists
  have mem : ∀ x, x ∈ tops ↔ x = root := by
    intro x
    have top : (∀ y, ¬g.LeadsTo .up x y) ↔ g.parent? x = none := by
      rw [Option.eq_none_iff_forall_ne_some]
      exact forall_congr' fun y => not_congr h.sitsOn_iff
    rw [isTop.mem_iff, lists.mem_iff, top, ← ends x]
    refine and_congr_left fun _ => ?_
    by_cases same : x = sid
    · simp [same]
    · rw [if_neg same, h.reaches_up_iff, or_iff_right same]
  have only : tops = [root] := by
    refine isTop.ascending.eq_of_mem_iff (List.pairwise_singleton _ _) fun x => ?_
    rw [mem, List.mem_singleton]
  exact ⟨root, a, bind_eq_ok.2 ⟨above, habove, only ▸ htops⟩, ha⟩

end Valid

/-- Holders lead into the devices that are no disks. -/
theorem Lawful.mem_targets_iff (law : g.Lawful) {r : Ref} : r ∈ g.edges.map Edge.target ↔
    ∃ d, (g.find? d.sid = some d ∧ d.kind ≠ .disk) ∧ (⟨d.sid, 0⟩ : Ref) = r := by
  rw [List.mem_map]
  constructor
  · rintro ⟨e, he, rfl⟩
    have answers := law.whole.depth_of_anchor (g.anchored e he).2
    obtain ⟨d, hd⟩ := find?_of_anchor (answers ▸ (g.anchored e he).2)
    have same := sid_of_find? hd
    refine ⟨d, ⟨same ▸ hd, fun isDisk => ?_⟩, by rw [answers, same]⟩
    have none := (law.fit hd).above_eq_nil.2 isDisk
    refine List.ne_nil_of_mem (mem_edgesAt_up.2 ⟨he, ?_⟩) none
    rw [answers, same]
  · rintro ⟨d, ⟨hd, notDisk⟩, rfl⟩
    have some := mt (law.fit hd).above_eq_nil.1 notDisk
    obtain ⟨e, he⟩ := List.exists_mem_of_ne_nil _ some
    exact ⟨e, mem_edgesAt_up.1 he⟩

/-- Every device that is no disk has one holder into it. -/
theorem Lawful.numHolders_add (law : g.Lawful) :
    g.numHolders + (g.allOfKind .disk).length = g.numDevices := by
  let held := g.devices.filter fun d => !(d.kind == .disk)
  have distinct : (held.map fun d => (⟨d.sid, 0⟩ : Ref)).Nodup := by
    refine List.Pairwise.map _ (fun a b lt same => ?_) (g.devices_ascending.filter _)
    exact Nat.ne_of_lt lt (Ref.mk.inj same).1
  have targets : (g.edges.map Edge.target).Perm (held.map fun d => (⟨d.sid, 0⟩ : Ref)) := by
    refine (List.perm_ext_iff_of_nodup law.nodup_targets distinct).2 fun r => ?_
    simp only [law.mem_targets_iff, held, List.mem_map, List.mem_filter, mem_devices,
      Bool.not_eq_true', beq_eq_false_iff_ne]
  have count : g.numHolders = held.length := by
    rw [numHolders, ← List.length_map (f := Edge.target), targets.length_eq, List.length_map]
  have split := List.length_eq_length_filter_add (l := g.devices) fun d => d.kind == .disk
  rw [count, numDevices, split, allOfKind, List.length_map, Nat.add_comm]

/-! ### All of it -/

/-- Descendants and ancestors are what holders reach, leaves and roots those among them that lead no
further. In a devicegraph that was checked each device has one root, which is a disk, and at most
three ancestors, and all devices but the disks have one holder into them. -/
theorem navigation_exact (whole : g.Whole) :
    (∀ {sid d}, g.find? sid = some d → ∀ itself, ∃ below above leaves roots,
      g.descendants sid itself = .ok below ∧ g.Lists .down sid itself below ∧
      g.ancestors sid itself = .ok above ∧ g.Lists .up sid itself above ∧
      g.leaves sid itself = .ok leaves ∧ g.Ends .down below leaves ∧
      g.roots sid itself = .ok roots ∧ g.Ends .up above roots) ∧
    (∀ {a b itself below above}, g.descendants a itself = .ok below →
      g.ancestors b itself = .ok above → (b ∈ below ↔ a ∈ above)) ∧
    (g.check = .ok () →
      (∀ {sid d}, g.find? sid = some d →
        ∃ root disk, g.roots sid true = .ok [root] ∧ g.disk root = .ok disk) ∧
      (∀ {sid above}, g.ancestors sid false = .ok above → above.length ≤ 3) ∧
      g.numHolders + (g.allOfKind .disk).length = g.numDevices) := by
  refine ⟨fun {sid d} hd itself => ?_, fun {a b itself below above} hb ha => ?_, fun valid => ?_⟩
  · obtain ⟨below, hbelow, listsBelow⟩ := whole.reachable_lists hd .down itself
    obtain ⟨above, habove, listsAbove⟩ := whole.reachable_lists hd .up itself
    obtain ⟨leaves, hleaves, areLeaves⟩ := whole.extremes_ends hd listsBelow
    obtain ⟨roots, hroots, areRoots⟩ := whole.extremes_ends hd listsAbove
    exact ⟨below, above, leaves, roots, hbelow, listsBelow, habove, listsAbove,
      bind_eq_ok.2 ⟨below, hbelow, hleaves⟩, areLeaves,
      bind_eq_ok.2 ⟨above, habove, hroots⟩, areRoots⟩
  · rw [(whole.lists_of_reachable hb).mem_iff, (whole.lists_of_reachable ha).mem_iff, reaches_up]
    by_cases same : b = a
    · simp [same]
    · rw [if_neg same, if_neg (Ne.symm same)]
  · have law := check_eq_ok.1 valid
    refine ⟨law.valid.roots_eq, fun {sid above} ha => ?_, law.numHolders_add⟩
    obtain ⟨d, hd, _⟩ := bind_eq_ok.1 ha
    have tier : d.kind.tier ≤ 3 := by cases d.kind <;> decide
    exact (law.valid.length_ancestors_le (find_eq_ok.1 hd) ha).trans tier

/-- A partition with the last sid, and a filesystem on it. -/
def lastSid : Devicegraph :=
  let disk : Disk := { name := "/dev/sda", sizeK := 1048576 }
  let partition : Partition := { name := "/dev/sda1", region := ⟨2048, 4096, 512⟩, id := 131 }
  let devices := (((empty.addDevice ⟨1, .disk disk, []⟩).addDevice
    ⟨2, .partitionTable ⟨.gpt⟩, []⟩).addDevice ⟨maxWord, .partition partition, []⟩).addDevice
    ⟨3, .filesystem { fsType := .ext4 }, []⟩
  ((devices.addEdge 1 2 .user).addEdge 2 maxWord .subdevice).addEdge maxWord 3 .user

/-- The filesystem has its disk as its root, and three ancestors. -/
theorem navigation_lastSid :
    (∃ root disk, lastSid.roots 3 true = .ok [root] ∧ lastSid.disk root = .ok disk) ∧
    (∀ above, lastSid.ancestors 3 false = .ok above → above.length ≤ 3) ∧
    lastSid.numHolders + (lastSid.allOfKind .disk).length = lastSid.numDevices := by
  have valid : lastSid.check = .ok () := by cbv
  have found : lastSid.find? 3 = some ⟨3, .filesystem { fsType := .ext4 }, []⟩ := by cbv
  obtain ⟨_, _, checked⟩ := navigation_exact (check_eq_ok.1 valid).whole
  obtain ⟨rooted, short, counted⟩ := checked valid
  exact ⟨rooted found, fun above ha => short ha, counted⟩

/-- Two disks that hold each other are below each other, and the walk ends. -/
example : ((((empty.addDevice ⟨1, .disk { name := "/dev/sda", sizeK := 0 }, []⟩).addDevice
    ⟨2, .disk { name := "/dev/sdb", sizeK := 0 }, []⟩).addEdge 1 2 .user).addEdge 2 1
    .user).descendants 1 false = .ok [2] := by cbv

/-- When a new partition takes the last sid again, the filesystem is no longer found below the
table, although the table is still found above the filesystem. -/
theorem walks_differ : ∃ s', Edit.createPartition 2 "/dev/sda2" .primary ⟨8192, 4096, 512⟩
      { graph := lastSid, supply := ⟨maxWord⟩ } = .ok maxWord s' ∧
    s'.graph.ancestors 3 false = .ok [1, 2, maxWord] ∧
    s'.graph.descendants 2 false = .ok [maxWord] := by
  obtain ⟨sid, s', performed, created⟩ := (Edit.createPartition_checksFirst 2 "/dev/sda2" .primary
    ⟨8192, 4096, 512⟩ (s := { graph := lastSid, supply := ⟨maxWord⟩ })).accepted (by cbv)
  obtain rfl := created.sid
  refine ⟨s', performed, ?_, ?_⟩ <;> rw [created.graph] <;> cbv

end Devicegraph

end StoragePlan
