import StoragePlan.Editor.Basic
import StoragePlan.Proofs.Lawful

/-!
# Removing devices

Devices can go together when everything on them goes too, and with an extended partition the logical
ones (`Detachable`): then no holder is left hanging, and no logical partition without the extended
one it lies in (`Shrunk.lawful`). What is removed along with a device is such a set
(`Lawful.detachable_removal`).
-/

namespace StoragePlan

/-- Where some children may be, fewer may be. -/
theorem DeviceKind.validChildren_mono {k : DeviceKind} {m n : Nat}
    (h : k.validChildren.contains n = true) (le : m ≤ n) : k.validChildren.contains m = true := by
  cases k <;>
    simp_all [validChildren, Cardinality.contains, Cardinality.zero, Cardinality.exactly,
      Cardinality.atMost, Cardinality.any] <;> omega

namespace Devicegraph

open Attempt

variable {g g' : Devicegraph} {gone : List Sid} {sid : Sid}

/-- The holder is at none of the devices. -/
def Avoids (gone : List Sid) (e : Edge) : Bool :=
  gone.all fun sid => e.source != ⟨sid, 0⟩ && e.target != ⟨sid, 0⟩

/-- The devicegraph `g'` has lost the devices `gone`, with their holders. -/
structure Shrunk (g g' : Devicegraph) (gone : List Sid) : Prop where
  whole : g.Whole → g'.Whole
  find? : ∀ x, g'.find? x = if x ∈ gone then none else g.find? x
  edges : g'.edges = g.edges.filter (Avoids gone)

/-- The devices can go together. -/
structure Detachable (g : Devicegraph) (gone : List Sid) : Prop where
  /-- What sits on a device that goes, goes. -/
  closed : ∀ {child parent}, g.parent? child = some parent → parent ∈ gone → child ∈ gone
  /-- The logical partitions go with their extended one. -/
  logicals : ∀ {logical extended}, g.LogicalIn logical extended → extended ∈ gone → logical ∈ gone

/-- The order does not matter. -/
theorem Detachable.reverse (h : g.Detachable gone) : g.Detachable gone.reverse := by
  refine ⟨fun hp went => ?_, fun together went => ?_⟩
  · exact List.mem_reverse.2 (h.closed hp (List.mem_reverse.1 went))
  · exact List.mem_reverse.2 (h.logicals together (List.mem_reverse.1 went))

/-! ### Erasing devices -/

theorem find?_eraseDevice (x : Sid) :
    (g.eraseDevice sid).find? x = if x = sid then none else g.find? x := by
  refine Option.ext fun d => ?_
  rw [find?_eq_some, eraseDevice, List.mem_filter, bne_iff_ne, ne_eq]
  split
  · next here =>
    subst here
    refine iff_of_false ?_ (by simp)
    rintro ⟨⟨_, other⟩, rfl⟩
    exact other rfl
  · next ne =>
    rw [find?_eq_some, and_right_comm, and_iff_left_iff_imp]
    rintro ⟨_, rfl⟩ same
    exact ne (congrArg Ref.sid same)

/-- Erasing devices one after another takes away just them. -/
theorem shrunk_foldl (g : Devicegraph) (gone : List Sid) :
    Shrunk g (gone.foldl eraseDevice g) gone := by
  induction gone generalizing g with
  | nil => exact ⟨id, fun x => rfl, (List.filter_eq_self.2 fun e _ => rfl).symm⟩
  | cons sid rest ih =>
    obtain ⟨whole, find?, edges⟩ := ih (g.eraseDevice sid)
    refine ⟨fun hw => whole fun n hn => hw n (List.mem_of_mem_filter hn), fun x => ?_, ?_⟩
    · rw [List.foldl_cons, find?, find?_eraseDevice]
      by_cases later : x ∈ rest
      · simp [later]
      · simp [later]
    · rw [List.foldl_cons, edges, eraseDevice, List.filter_filter]
      refine List.filter_congr fun e _ => ?_
      rw [Avoids, Avoids, List.all_cons, Bool.and_comm]

namespace Shrunk

variable {x : Sid}

theorem find?_eq_some (h : Shrunk g g' gone) {d : Device} :
    g'.find? x = some d ↔ x ∉ gone ∧ g.find? x = some d := by
  rw [h.find?]
  split
  · next went => simp [went]
  · next stays => simp [stays]

theorem kinds (h : Shrunk g g' gone) {c c' : Device} (hc : g.find? x = some c)
    (hc' : g'.find? x = some c') : c'.kind = c.kind := by
  rw [Option.some.inj (hc.symm.trans (h.find?_eq_some.1 hc').2)]

theorem avoids_iff {e : Edge} :
    Avoids gone e = true ↔ ∀ sid ∈ gone, e.source ≠ ⟨sid, 0⟩ ∧ e.target ≠ ⟨sid, 0⟩ := by
  simp [Avoids]

theorem edgesAt_eq (h : Shrunk g g' gone) (dir : Direction) (r : Ref) :
    g'.edgesAt dir r = (g.edgesAt dir r).filter (Avoids gone) := by
  rw [edgesAt, edgesAt, h.edges, List.filter_comm]

/-- The holder into a device that stays is not lost. -/
theorem avoids_of_stays (law : g.Lawful) (detachable : g.Detachable gone) {e : Edge}
    (he : e ∈ g.edges) (target : e.target = ⟨x, 0⟩) (stays : x ∉ gone) : Avoids gone e = true := by
  have source := law.whole.depth_of_anchor (g.anchored e he).1
  refine avoids_iff.2 fun sid went => ⟨fun same => ?_, fun same => ?_⟩
  · have hs : g.SitsOn x sid := ⟨e, he, same, target⟩
    exact stays (detachable.closed (law.sitsOn_iff.1 hs) went)
  · obtain rfl : x = sid := congrArg Ref.sid (target.symm.trans same)
    exact stays went

/-- A device that stays keeps what it sits on. -/
theorem sitsOn_iff (h : Shrunk g g' gone) (law : g.Lawful) (detachable : g.Detachable gone)
    {child parent : Sid} : g'.SitsOn child parent ↔ child ∉ gone ∧ g.SitsOn child parent := by
  unfold SitsOn
  rw [h.edges]
  constructor
  · rintro ⟨e, he, source, target⟩
    obtain ⟨he, avoids⟩ := List.mem_filter.1 he
    exact ⟨fun went => (avoids_iff.1 avoids child went).2 target, e, he, source, target⟩
  · rintro ⟨stays, e, he, source, target⟩
    have avoids := avoids_of_stays law detachable he target stays
    exact ⟨e, List.mem_filter.2 ⟨he, avoids⟩, source, target⟩

theorem joined (h : Shrunk g g' gone) (law : g.Lawful) (detachable : g.Detachable gone) {c : Device}
    (hc : g'.find? x = some c) : g'.Joined c := by
  obtain ⟨stays, hc⟩ := h.find?_eq_some.1 hc
  obtain rfl := sid_of_find? hc
  refine (law.joined hc).carry (h.whole law.whole) rfl rfl ?_ ?_ h.kinds
  · rw [h.edgesAt_eq]
    refine List.filter_eq_self.2 fun e he => ?_
    obtain ⟨he, target⟩ := mem_edgesAt_up.1 he
    exact avoids_of_stays law detachable he target stays
  · rw [h.edgesAt_eq]
    exact DeviceKind.validChildren_mono (law.joined hc).below (List.length_filter_le _ _)

theorem parent?_eq_some (h : Shrunk g g' gone) (law : g.Lawful) (detachable : g.Detachable gone)
    {parent : Sid} : g'.parent? x = some parent ↔ x ∉ gone ∧ g.parent? x = some parent := by
  rw [← sitsOn_iff_of_joined (h.whole law.whole) (h.joined law detachable),
    h.sitsOn_iff law detachable, law.sitsOn_iff]

theorem partAt_eq_some (h : Shrunk g g' gone) (law : g.Lawful) (detachable : g.Detachable gone)
    {table : Sid} {p : Partition} :
    g'.partAt table x = some p ↔ x ∉ gone ∧ g.partAt table x = some p := by
  rw [Devicegraph.partAt_eq_some, Devicegraph.partAt_eq_some, h.parent?_eq_some law detachable,
    and_assoc, partition_eq_ok, partition_eq_ok]
  refine and_congr_right fun stays => ?_
  rw [h.find?, if_neg stays]

/-- Devices that can go together leave a lawful devicegraph behind. -/
theorem lawful (h : Shrunk g g' gone) (law : g.Lawful) (detachable : g.Detachable gone) :
    g'.Lawful := by
  refine ⟨h.whole law.whole, h.joined law detachable, ?_, ?_⟩
  · intro x y b c name hb hc
    exact law.named (h.find?_eq_some.1 hb).2 (h.find?_eq_some.1 hc).2
  · intro table disk t a ht hp ha
    obtain ⟨c, hc, hca⟩ := partitionTable_eq_ok.1 ht
    obtain ⟨b, hb, hba⟩ := disk_eq_ok.1 ha
    have layout := law.arranged (partitionTable_eq_ok.2 ⟨c, (h.find?_eq_some.1 hc).2, hca⟩)
      ((h.parent?_eq_some law detachable).1 hp).2
      (disk_eq_ok.2 ⟨b, (h.find?_eq_some.1 hb).2, hba⟩)
    refine layout.restrict (fun hx => ((h.partAt_eq_some law detachable).1 hx).2) ?_
    intro x p y q hx isLogical hy isExtended
    obtain ⟨stays, hx⟩ := (h.partAt_eq_some law detachable).1 hx
    obtain ⟨px, hpx⟩ := Devicegraph.partAt_eq_some.1 hx
    obtain ⟨py, hpy⟩ := Devicegraph.partAt_eq_some.1 hy
    refine (h.partAt_eq_some law detachable).2 ⟨fun went => stays ?_, hy⟩
    exact detachable.logicals ⟨⟨q, hpy, isExtended⟩, ⟨p, hpx, isLogical⟩, table, py, px⟩ went

end Shrunk

/-! ### What goes with a device -/

/-- A device and everything on it. -/
theorem mem_descendants_itself {all : List Sid} (h : g.descendants sid true = .ok all) :
    ∃ l, g.descendants sid false = .ok l ∧ ∀ x, x ∈ all ↔ x = sid ∨ x ∈ l := by
  simp only [descendants, reachable, bind_eq_ok, pure_eq_ok] at h ⊢
  obtain ⟨d, hd, rfl⟩ := h
  refine ⟨_, ⟨d, hd, rfl⟩, fun x => ?_⟩
  simp

theorem removal_eq_ok {l : List Sid} : g.removal sid = .ok l ↔ ∃ d logicals families,
    g.find? sid = some d ∧
      (if d.kind = .partition then g.logicalPartitionsOf sid else pure []) = .ok logicals ∧
      (sid :: logicals).mapM (fun root => g.descendants root true) = .ok families ∧
      l = SidList.ofList families.flatten := by
  have sequence : g.removal sid = g.find sid >>= fun d =>
      (if d.kind = .partition then g.logicalPartitionsOf sid else pure []) >>= fun logicals =>
        (sid :: logicals).mapM (fun root => g.descendants root true) >>= fun families =>
          pure (SidList.ofList families.flatten) := by
    refine bind_congr fun d => ?_
    split <;> rfl
  simp only [sequence, bind_eq_ok, find_eq_ok, pure_eq_ok]
  constructor
  · rintro ⟨d, hd, logicals, hlogicals, families, hfamilies, h⟩
    exact ⟨d, logicals, families, hd, hlogicals, hfamilies, h.symm⟩
  · rintro ⟨d, logicals, families, hd, hlogicals, hfamilies, h⟩
    exact ⟨d, hd, logicals, hlogicals, families, hfamilies, h.symm⟩

namespace Lawful

/-- The logical partitions of a device, which has some only if it is an extended partition. -/
theorem mem_logicals (law : g.Lawful) {d : Device} (hd : g.find? sid = some d) {l : List Sid}
    (hl : (if d.kind = .partition then g.logicalPartitionsOf sid else pure []) = .ok l) (x : Sid) :
    x ∈ l ↔ g.LogicalIn x sid := by
  by_cases isExtended : g.IsExtended sid
  · obtain ⟨p, hp, hpe⟩ := id isExtended
    obtain ⟨c, hc, ha⟩ := partition_eq_ok.1 hp
    obtain rfl := Option.some.inj (hd.symm.trans hc)
    rw [if_pos (isPartition_of_attributes ha)] at hl
    obtain ⟨l', hl', mem⟩ := law.valid.logicalPartitionsOf_spec isExtended
    rw [Except.ok.inj (hl.symm.trans hl'), mem]
  · have none : l = [] := by
      split at hl
      · simp only [logicalPartitionsOf, bind_eq_ok] at hl
        obtain ⟨p, hp, hl⟩ := hl
        rw [if_pos fun hpe => isExtended ⟨p, hp, hpe⟩, pure_eq_ok] at hl
        exact hl.symm
      · exact (pure_eq_ok.1 hl).symm
    rw [none]
    exact iff_of_false List.not_mem_nil fun together => isExtended together.isExtended

/-- What goes: the device, its logical partitions, and everything on them. -/
theorem mem_removal (law : g.Lawful) {l : List Sid} (hl : g.removal sid = .ok l) (x : Sid) :
    x ∈ l ↔ ∃ root all, (root = sid ∨ g.LogicalIn root sid) ∧
      g.descendants root false = .ok all ∧ (x = root ∨ x ∈ all) := by
  obtain ⟨d, logicals, families, hd, hlogicals, hfamilies, rfl⟩ := removal_eq_ok.1 hl
  have roots : ∀ root, root ∈ sid :: logicals ↔ root = sid ∨ g.LogicalIn root sid := by
    intro root
    rw [List.mem_cons, law.mem_logicals hd hlogicals]
  simp only [SidList.mem_ofList, List.mem_flatten, mem_mapM hfamilies, roots]
  constructor
  · rintro ⟨all, ⟨root, isRoot, hall⟩, hx⟩
    obtain ⟨below, hbelow, mem⟩ := mem_descendants_itself hall
    exact ⟨root, below, isRoot, hbelow, (mem x).1 hx⟩
  · rintro ⟨root, below, isRoot, hbelow, hx⟩
    obtain ⟨all, hall⟩ := of_mem_mapM hfamilies ((roots root).2 isRoot)
    obtain ⟨below', hbelow', mem⟩ := mem_descendants_itself hall
    obtain rfl := Except.ok.inj (hbelow.symm.trans hbelow')
    exact ⟨all, ⟨root, isRoot, hall⟩, (mem x).2 hx⟩

/-- The devices that go with a device can go together. -/
theorem detachable_removal (law : g.Lawful) {l : List Sid} (hl : g.removal sid = .ok l) :
    g.Detachable l := by
  have mem := law.mem_removal hl
  have closed : ∀ {child parent}, g.parent? child = some parent → parent ∈ l → child ∈ l := by
    intro child parent hp went
    obtain ⟨root, all, isRoot, hall, below⟩ := (mem parent).1 went
    exact (mem child).2 ⟨root, all, isRoot, hall, law.valid.descendants_closed hall hp below⟩
  refine ⟨closed, fun {logical extended} together went => ?_⟩
  obtain ⟨root, all, isRoot, hall, below⟩ := (mem extended).1 went
  rcases below with rfl | below
  · rcases isRoot with rfl | isLogical
    · obtain ⟨p, hp, _⟩ := together.isLogical
      obtain ⟨d, hd, _⟩ := partition_eq_ok.1 hp
      obtain ⟨all, hall⟩ := descendants_total hd false
      exact (mem logical).2 ⟨logical, all, .inr together, hall, .inl rfl⟩
    · obtain ⟨p, hp, hpe⟩ := together.isExtended
      obtain ⟨q, hq, hql⟩ := isLogical.isLogical
      rw [Except.ok.inj (hp.symm.trans hq), hql] at hpe
      cases hpe
  · -- The extended partition is on a root, so its table goes, and with that all that is on it.
    obtain ⟨table, hp, above⟩ := law.valid.parent_of_mem_descendants hall below
    obtain ⟨table', he, hlog⟩ := together.together
    obtain rfl := Option.some.inj (hp.symm.trans he)
    exact closed hlog ((mem table).2 ⟨root, all, isRoot, hall, above⟩)

/-- The devices that go are there. -/
theorem found_of_mem_removal (law : g.Lawful) {l : List Sid} (hl : g.removal sid = .ok l) {x : Sid}
    (hx : x ∈ l) : ∃ d, g.find? x = some d := by
  obtain ⟨root, all, _, hall, rfl | below⟩ := (law.mem_removal hl x).1 hx
  · simp only [descendants, reachable, bind_eq_ok, find_eq_ok] at hall
    obtain ⟨d, hd, _⟩ := hall
    exact ⟨d, hd⟩
  · obtain ⟨parent, hp, _⟩ := law.valid.parent_of_mem_descendants hall below
    exact law.valid.child_found hp

end Lawful

/-- No device goes twice. -/
theorem nodup_removal {l : List Sid} (hl : g.removal sid = .ok l) : l.Nodup := by
  obtain ⟨_, _, _, _, _, _, rfl⟩ := removal_eq_ok.1 hl
  exact (SidList.pairwise_ofList _).imp fun lt => Nat.ne_of_lt lt

end Devicegraph

end StoragePlan
