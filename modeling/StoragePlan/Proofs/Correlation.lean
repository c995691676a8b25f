import StoragePlan.Proofs.Allocation
import StoragePlan.Proofs.Replacement
import StoragePlan.Proofs.Sectors

/-!
# One sid, one device

In a session that only works on devices it created itself, a sid stands for one device: wherever it
is found, the device has the same kind and the same parent, and lies as a logical partition in the
same extended one (`Devicegraph.Agree`). So no plan between two devicegraphs of the session replaces
a device because it moved or changed its kind (`Session.correlated`).

The part on logical partitions rests on the layouts. A logical partition lies inside the extended
one and any other partition beside it, so that a partition cannot change between the two while it
keeps its region, as long as the sectors of its disk have bytes (`Sized`).
-/

namespace StoragePlan

namespace Devicegraph

open Attempt

/-- A sid that is in both devicegraphs stands for one device. -/
structure Agree (g h : Devicegraph) : Prop where
  kind : ∀ {x c d}, g.find? x = some c → h.find? x = some d → d.kind = c.kind
  parent : ∀ {x c d}, g.find? x = some c → h.find? x = some d → h.parent? x = g.parent? x
  logical : ∀ {x c d}, g.find? x = some c → h.find? x = some d →
    ∀ {e}, h.LogicalIn x e ↔ g.LogicalIn x e

/-- The sectors of all disks have bytes. -/
def Sized (g : Devicegraph) : Prop := ∀ x a, g.disk x = .ok a → a.sectorSize ≠ 0

theorem sized_empty : Sized .empty := by
  intro x a ha
  obtain ⟨c, hc, _⟩ := disk_eq_ok.1 ha
  cases (find?_eq_some.1 hc).1

variable {g g' h : Devicegraph} {d d' : Device} {x e table : Sid}

namespace Agree

theorem refl (g : Devicegraph) : g.Agree g := by
  refine ⟨fun hc hd => ?_, fun _ _ => rfl, fun _ _ => Iff.rfl⟩
  rw [Option.some.inj (hc.symm.trans hd)]

theorem symm (agree : g.Agree h) : h.Agree g :=
  ⟨fun hc hd => (agree.kind hd hc).symm, fun hc hd => (agree.parent hd hc).symm,
    fun hc hd => (agree.logical hd hc).symm⟩

theorem empty (g : Devicegraph) : g.Agree .empty := by
  have none : ∀ {x d}, Devicegraph.empty.find? x ≠ some d := by
    intro x d hd
    cases (find?_eq_some.1 hd).1
  exact ⟨fun _ hd => absurd hd none, fun _ hd => absurd hd none, fun _ hd => absurd hd none⟩

/-- A devicegraph agrees with what another one becomes, if nothing comes in that it has. -/
theorem trans (agree : h.Agree g) (changed : g.Agree g')
    (new : ∀ {x}, g'.contains x = true → g.contains x = true ∨ h.contains x = false) :
    h.Agree g' := by
  have middle : ∀ {x c d}, h.find? x = some c → g'.find? x = some d → ∃ b, g.find? x = some b := by
    intro x c d hc hd
    rcases new (contains_iff.2 ⟨d, hd⟩) with old | absent
    · exact contains_iff.1 old
    · exact absurd (contains_iff.2 ⟨c, hc⟩) (by simp [absent])
  refine ⟨fun hc hd => ?_, fun hc hd => ?_, fun hc hd => ?_⟩ <;> obtain ⟨b, hb⟩ := middle hc hd
  · exact (changed.kind hb hd).trans (agree.kind hc hb)
  · exact (changed.parent hb hd).trans (agree.parent hc hb)
  · exact (changed.logical hb hd).trans (agree.logical hc hb)

end Agree

/-! ### Logical partitions -/

/-- A logical partition and an extended one on the same table. -/
theorem logicalIn_iff : g.LogicalIn x e ↔ ∃ table p q, g.partAt table x = some p ∧
    p.type = .logical ∧ g.partAt table e = some q ∧ q.type = .extended := by
  simp only [partAt_eq_some]
  constructor
  · rintro ⟨⟨q, hq, hqe⟩, ⟨p, hp, hpl⟩, table, he, hx⟩
    exact ⟨table, p, q, ⟨hx, hp⟩, hpl, ⟨he, hq⟩, hqe⟩
  · rintro ⟨table, p, q, ⟨hx, hp⟩, hpl, ⟨he, hq⟩, hqe⟩
    exact ⟨⟨q, hq, hqe⟩, ⟨p, hp, hpl⟩, table, he, hx⟩

namespace Lawful

/-- Around a partition is a layout. -/
theorem exists_arranged (law : g.Lawful) {p : Partition} (hx : g.partAt table x = some p) :
    ∃ t disk a, g.partitionTable table = .ok t ∧ g.disk disk = .ok a ∧
      Arranged t.ptType a (g.partAt table) := by
  obtain ⟨hparent, hp⟩ := partAt_eq_some.1 hx
  obtain ⟨t, disk, a, ht, hdisk, ha, _⟩ := law.around_partition hp hparent
  exact ⟨t, disk, a, ht, ha, law.arranged ht hdisk ha⟩

/-- Every logical partition has an extended one. -/
theorem exists_logicalIn (law : g.Lawful) {p : Partition} (hp : g.partition x = .ok p)
    (logical : p.type = .logical) : ∃ e, g.LogicalIn x e := by
  obtain ⟨d, hd, ha⟩ := partition_eq_ok.1 hp
  obtain ⟨table, _, hparent, _⟩ := law.valid.exists_table hd (isPartition_of_attributes ha)
  have hx : g.partAt table x = some p := partAt_eq_some.2 ⟨hparent, hp⟩
  obtain ⟨_, _, _, _, _, layout⟩ := law.exists_arranged hx
  obtain ⟨e, q, he, hq, _⟩ := layout.inside hx logical
  exact ⟨e, logicalIn_iff.2 ⟨table, p, q, hx, logical, he, hq⟩⟩

/-- The extended partition of a logical one is that of its table. -/
theorem extendedPartition_of_logicalIn (law : g.Lawful) (together : g.LogicalIn x e) :
    ∃ table, g.parent? x = some table ∧ g.extendedPartition table = .ok (some e) := by
  obtain ⟨table, p, q, hx, _, he, hq⟩ := logicalIn_iff.1 together
  obtain ⟨t, _, _, ht, _, _⟩ := law.exists_arranged he
  obtain ⟨hparent, hep⟩ := partAt_eq_some.1 he
  exact ⟨table, (partAt_eq_some.1 hx).1,
    (law.valid.extendedPartition_eq_ok ht).2 ⟨q, hparent, hep, hq⟩⟩

theorem exists_partitioned (law : g.Lawful) (sized : g.Sized) {p : Partition}
    (hx : g.partAt table x = some p) : ∃ t a, Partitioned t a (g.partAt table) := by
  obtain ⟨t, disk, a, _, ha, layout⟩ := law.exists_arranged hx
  exact ⟨t.ptType, a, (arranged_iff (sized _ _ ha)).1 layout⟩

end Lawful

/-- A logical partition has its sectors in the extended one. -/
theorem Partitioned.subset_of_logical {t : PtType} {a : Disk} {parts : Sid → Option Partition}
    (layout : Partitioned t a parts) {p q : Partition} (hx : parts x = some p)
    (hp : p.type = .logical) (he : parts e = some q) (hq : q.type = .extended) :
    p.region.sectors ⊆ q.region.sectors := by
  obtain ⟨y, r, hy, hr, inside⟩ := layout.inside hx hp
  obtain rfl := layout.single he hq hy hr
  obtain rfl := Option.some.inj (he.symm.trans hy)
  exact inside

/-- A partition of a layout cannot be inside another one and beside it. -/
theorem Fits.not_disjoint {t : PtType} {a : Disk} {p : Partition} (fits : Fits t a p) {r : Region}
    (inside : p.region.sectors ⊆ r.sectors) : ¬Disjoint p.region.sectors r.sectors := by
  have first : p.region.start ∈ p.region.sectors :=
    ⟨Nat.le_refl _, Nat.lt_add_of_pos_right fits.nonempty⟩
  exact Set.not_disjoint_iff.2 ⟨_, first, inside first⟩

/-! ### Changing a device -/

namespace Altered

/-- The change can be undone. -/
theorem symm (h : Altered g g' d d') (whole : g.Whole) : Altered g' g d' d := by
  refine ⟨h.edges.symm, fun _ => whole, fun x => ?_, ?_, h.sid.symm, h.kind.symm⟩
  · rw [h.sid, h.find?]
    split
    · next here => rw [here, h.found]
    · rfl
  · rw [h.sid, h.find?, if_pos rfl]

/-- A partition is still there, and unchanged unless it is the one that changed. -/
theorem exists_partAt (h : Altered g g' d d') (law : g.Lawful) {p : Partition}
    (hx : g.partAt table x = some p) : ∃ p', g'.partAt table x = some p' ∧
      (x ≠ d.sid → p' = p) ∧
      (x = d.sid → d.attributes = .partition p ∧ d'.attributes = .partition p') := by
  obtain ⟨hparent, hp⟩ := Devicegraph.partAt_eq_some.1 hx
  obtain ⟨c, hc, hca⟩ := partition_eq_ok.1 hp
  by_cases here : x = d.sid
  · subst here
    obtain rfl := Option.some.inj (h.found.symm.trans hc)
    obtain ⟨p', ha⟩ := attributes_of_isPartition (h.kind.trans (isPartition_of_attributes hca))
    refine ⟨p', (h.partAt_eq_some law).2 ⟨hparent, ?_⟩, fun ne => absurd rfl ne,
      fun _ => ⟨hca, ha⟩⟩
    exact partition_eq_ok.2 ⟨d', by rw [h.find?, if_pos rfl], ha⟩
  · refine ⟨p, (h.partAt_eq_some law).2 ⟨hparent, ?_⟩, fun _ => rfl, fun same => absurd same here⟩
    exact partition_eq_ok.2 ⟨c, by rw [h.find?, if_neg here, hc], hca⟩

/-- No single change of a type or a region takes a logical partition out of its extended one. -/
theorem logicalIn_of_logicalIn (h : Altered g g' d d') (law : g.Lawful) (law' : g'.Lawful)
    (sized : g.Sized) (sized' : g'.Sized)
    (gradual : ∀ {p p'}, d.attributes = .partition p → d'.attributes = .partition p' →
      p'.type = p.type ∨ p'.region = p.region)
    (together : g.LogicalIn x e) : g'.LogicalIn x e := by
  obtain ⟨table, p, q, hx, hp, he, hq⟩ := logicalIn_iff.1 together
  obtain ⟨p', hx', keepsX, changesX⟩ := h.exists_partAt law hx
  obtain ⟨q', he', keepsE, _⟩ := h.exists_partAt law he
  obtain ⟨t, a, layout⟩ := law.exists_partitioned sized hx
  obtain ⟨t', a', layout'⟩ := law'.exists_partitioned sized' hx'
  have ne : e ≠ x := by
    rintro rfl
    rw [Option.some.inj (hx.symm.trans he), hq] at hp
    cases hp
  refine logicalIn_iff.2 ⟨table, p', q', hx', ?_, he', ?_⟩
  · by_cases here : x = d.sid
    · -- Otherwise the two would lie beside each other, and the first in the second.
      by_contra notLogical
      obtain ⟨ha, ha'⟩ := changesX here
      obtain rfl := keepsE (here ▸ ne)
      have region := (gradual ha ha').resolve_left fun same => notLogical (same.trans hp)
      have apart := layout'.apart hx' he' ne (iff_of_false notLogical (by simp [hq]))
      rw [region] at apart
      exact (layout.fits hx).not_disjoint (layout.subset_of_logical hx hp he hq) apart
    · rw [keepsX here, hp]
  · by_cases here : e = d.sid
    · -- The logical partition lies in some extended one, which was one before unless it is this.
      have stays : p' = p := keepsX (here ▸ ne.symm)
      obtain ⟨y, r, hy, hr, _⟩ := layout'.inside hx' (stays ▸ hp)
      by_cases same : y = e
      · subst same
        rwa [← Option.some.inj (hy.symm.trans he')]
      · obtain ⟨r', hy', keepsY, _⟩ := (h.symm law.whole).exists_partAt law' hy
        obtain rfl := keepsY (by rw [h.sid, ← here]; exact same)
        exact absurd (layout.single he hq hy' hr) same
    · rw [keepsE here, hq]

theorem sized (h : Altered g g' d d') (gradual : Gradual d d') (sized : g.Sized) : g'.Sized := by
  intro x a' ha'
  obtain ⟨c, hc, hca⟩ := disk_eq_ok.1 ha'
  rw [h.find?] at hc
  split at hc
  · obtain rfl := Option.some.inj hc
    obtain ⟨a, ha⟩ := attributes_of_isDisk (h.kind.symm.trans (by rw [Device.kind, hca]; rfl))
    exact gradual.disk ha hca (sized _ _ (disk_eq_ok.2 ⟨d, h.found, ha⟩))
  · exact sized _ _ (disk_eq_ok.2 ⟨c, hc, hca⟩)

theorem agree (h : Altered g g' d d') (gradual : Gradual d d') (law : g.Lawful) (law' : g'.Lawful)
    (sized : g.Sized) : g.Agree g' := by
  have sized' := h.sized gradual sized
  refine ⟨fun hc hc' => h.kinds hc hc', fun _ _ => h.parent?_eq law _, fun _ _ _ => ⟨?_, ?_⟩⟩
  · refine (h.symm law.whole).logicalIn_of_logicalIn law' law sized' sized fun ha' ha => ?_
    exact (gradual.partition ha ha').imp Eq.symm Eq.symm
  · exact h.logicalIn_of_logicalIn law law' sized sized' gradual.partition

end Altered

/-! ### Adding and removing devices -/

namespace Grown

variable {parent? : Option Sid}

theorem partAt_old (h : Grown g g' d parent?) (law : g.Lawful) (law' : g'.Lawful) (ne : x ≠ d.sid) :
    g'.partAt table x = g.partAt table x := by
  refine Option.ext fun p => ?_
  rw [partAt_eq_some, partAt_eq_some, h.parent?_eq law law'.joined, if_neg ne, partition_eq_ok,
    partition_eq_ok, h.find?_old ne]

theorem sized (h : Grown g g' d parent?) (new : ∀ {a}, d.attributes = .disk a → a.sectorSize ≠ 0)
    (sized : g.Sized) : g'.Sized := by
  intro x a ha
  obtain ⟨c, hc, hca⟩ := disk_eq_ok.1 ha
  rw [h.find?] at hc
  split at hc
  · obtain rfl := Option.some.inj hc
    exact new hca
  · exact sized _ _ (disk_eq_ok.2 ⟨c, hc, hca⟩)

theorem agree (h : Grown g g' d parent?) (law : g.Lawful) (law' : g'.Lawful) : g.Agree g' := by
  refine ⟨fun hc hc' => h.kinds hc hc', fun hc _ => ?_, fun {x c _} hc _ {e} => ?_⟩
  · rw [h.parent?_eq law law'.joined, if_neg (h.ne_of_found hc)]
  · have old : ∀ table, g'.partAt table x = g.partAt table x := fun _ =>
      h.partAt_old law law' (h.ne_of_found hc)
    simp only [logicalIn_iff, old]
    refine exists_congr fun table => exists_congr fun p => exists_congr fun q =>
      and_congr_right fun hx => and_congr_right fun hp => ?_
    by_cases new : e = d.sid
    · -- The logical partition has an extended one already, and there cannot be two.
      obtain ⟨_, _, _, _, _, layout⟩ := law.exists_arranged hx
      obtain ⟨_, _, _, _, _, layout'⟩ := law'.exists_arranged ((old table).trans hx)
      obtain ⟨y, r, hy, hr, _⟩ := layout.inside hx hp
      obtain ⟨_, hyp⟩ := partAt_eq_some.1 hy
      obtain ⟨b, hb, _⟩ := partition_eq_ok.1 hyp
      have hy' := (h.partAt_old law law' (h.ne_of_found hb)).trans hy
      refine iff_of_false ?_ ?_
      · rintro ⟨he, hq⟩
        exact h.ne_of_found hb ((layout'.single he hq hy' hr).trans new)
      · rintro ⟨he, _⟩
        obtain ⟨b', hb', _⟩ := partition_eq_ok.1 (partAt_eq_some.1 he).2
        exact h.ne_of_found hb' new
    · rw [h.partAt_old law law' new]

end Grown

namespace Shrunk

variable {gone : List Sid}

theorem sized (h : Shrunk g g' gone) (sized : g.Sized) : g'.Sized := by
  intro x a ha
  obtain ⟨c, hc, hca⟩ := disk_eq_ok.1 ha
  exact sized _ _ (disk_eq_ok.2 ⟨c, (h.find?_eq_some.1 hc).2, hca⟩)

theorem agree (h : Shrunk g g' gone) (law : g.Lawful) (detachable : g.Detachable gone) :
    g.Agree g' := by
  refine ⟨fun hc hc' => h.kinds hc hc', fun {x c c'} _ hc' => ?_, fun {x c c'} _ hc' {e} => ?_⟩
  · refine Option.ext fun parent => ?_
    rw [h.parent?_eq_some law detachable, and_iff_right (h.find?_eq_some.1 hc').1]
  · have stays := (h.find?_eq_some.1 hc').1
    constructor
    · intro together
      obtain ⟨table, p, q, hx, hp, he, hq⟩ := logicalIn_iff.1 together
      exact logicalIn_iff.2 ⟨table, p, q, ((h.partAt_eq_some law detachable).1 hx).2, hp,
        ((h.partAt_eq_some law detachable).1 he).2, hq⟩
    · intro together
      have staysToo : e ∉ gone := fun went => stays (detachable.logicals together went)
      obtain ⟨table, p, q, hx, hp, he, hq⟩ := logicalIn_iff.1 together
      exact logicalIn_iff.2 ⟨table, p, q, (h.partAt_eq_some law detachable).2 ⟨stays, hx⟩, hp,
        (h.partAt_eq_some law detachable).2 ⟨staysToo, he⟩, hq⟩

end Shrunk

end Devicegraph

namespace Operation.Outcome

open Devicegraph

variable {s s' : Editor} {op : Operation}

/-- An operation leaves devices in place. -/
theorem agree (h : Outcome s op s') (law : s.graph.Lawful) (law' : s'.graph.Lawful)
    (fresh : s.graph.find? s.supply.next = none) (sized : s.graph.Sized) :
    s.graph.Agree s'.graph ∧ s'.graph.Sized := by
  cases h with
  | unchanged graph =>
    rw [graph]
    exact ⟨.refl _, sized⟩
  | created c accepted graph =>
    have grown : Grown s.graph s'.graph (s.newDevice c.attributes) c.parent? := by
      rw [graph]
      exact grown_place law.whole fresh (Creation.found_of_accepted accepted) c.rooted
    refine ⟨grown.agree law law', grown.sized (fun {a} ha => ?_) sized⟩
    cases c with
    | disk name sizeK =>
      rw [← Attributes.disk.inj ha]
      exact (by decide : defaultSectorSize ≠ 0)
    | partitionTable => cases ha
    | partition => cases ha
    | filesystem => cases ha
  | altered altered gradual =>
    exact ⟨altered.agree gradual law law' sized, altered.sized gradual sized⟩
  | shrunk shrunk detachable => exact ⟨shrunk.agree law detachable, shrunk.sized sized⟩
  | cleared graph =>
    rw [graph]
    exact ⟨.empty _, sized_empty⟩

end Operation.Outcome

/-- A supply that has a sid after the next one counts up. -/
theorem SidSupply.next_advance {s : SidSupply} (used : s.next < s.advance.next) :
    s.advance.next = s.next + 1 := by
  unfold advance at used ⊢
  split
  · rfl
  · next more =>
    rw [if_neg more] at used
    exact absurd used (Nat.not_lt_zero _)

namespace Session

variable {s s' : Session} {handed : List Sid} {r : Request} {g : Devicegraph}

/-- Nothing is read, and a prober only knows devicegraphs of the session. -/
structure Inward (s : Session) (r : Request) : Prop where
  reads : ¬r.Loads s
  copies : ∀ {g}, r = .probe (.copying g) → s.Has g

/-- Sids are handed out one by one, and each stands for one device. -/
structure Tracked (s : Session) (handed : List Sid) : Prop extends Allotted s handed where
  next : s.supply.next = 42 + handed.length
  sized : ∀ {g}, s.Has g → g.Sized
  agree : ∀ {g h}, s.Has g → s.Has h → g.Agree h

namespace Tracked

theorem start (environment : Environment) (files : Files) : Tracked { environment, files } [] := by
  refine ⟨.start environment files, rfl, fun has => ?_, fun has has' => ?_⟩
  · exact eq_empty_of_has_start has ▸ Devicegraph.sized_empty
  · rw [eq_empty_of_has_start has']
    exact .empty _

theorem last_free (h : Tracked s handed) (has : s.Has g) : g.contains maxWord = false :=
  Bool.eq_false_iff.2 fun contains =>
    Nat.lt_irrefl _ (Nat.lt_of_lt_of_le (h.below has contains) h.bound)

/-- With few devices the last sid is not reached. -/
theorem spared (h : Tracked s handed) (inward : Inward s r)
    (few : (r.handed s ++ handed).length < 2 ^ 64 - 42) : Spared s r := by
  refine ⟨fun probing _ => h.below (inward.copies probing), fun {k} has => ?_⟩
  have effect := r.effect s
  generalize r.after s = s' at effect has
  cases effect with
  | edited here has' graphs supply handed_eq =>
    rcases graphs has with old | rfl
    · exact h.last_free old
    · refine Bool.eq_false_iff.2 fun contains => ?_
      rcases (Operation.outcome (h.lawful here) _).contains contains with old | ⟨isNext, one, _⟩
      · exact Bool.false_ne_true ((h.last_free here).symm.trans old)
      · have isNext : maxWord = s.supply.next := isNext
        rw [handed_eq, one, List.singleton_append, List.length_cons] at few
        rw [h.next] at isNext
        have beyond : ∀ n : Nat, n + 1 < 2 ^ 64 - 42 → 18446744073709551615 ≠ 42 + n := by omega
        exact beyond _ few isNext
  | arranged graphs =>
    rcases graphs has with old | rfl
    · exact h.last_free old
    · rfl
  | answered _ _ graphs =>
    rcases graphs has with old | rfl
    · exact h.last_free old
    · exact h.last_free (inward.copies rfl)
  | loaded loads => exact absurd loads inward.reads

/-- An edit keeps track of the devices. -/
theorem edited (h : Tracked s handed) (has : s.Has g) (op : Operation)
    (graphs : ∀ {h}, s'.Has h → s.Has h ∨ h = (op.perform.after (s.editor g)).graph)
    (supply : s'.supply = (op.perform.after (s.editor g)).supply)
    (allotted : Allotted s' (op.handed (s.editor g) ++ handed))
    (has' : s'.Has (op.perform.after (s.editor g)).graph) :
    Tracked s' (op.handed (s.editor g) ++ handed) := by
  have out := op.outcome (s := s.editor g) (h.lawful has)
  have fresh : g.find? s.supply.next = none :=
    Devicegraph.contains_eq_false.1 (h.next_free has)
  obtain ⟨changed, sized⟩ := out.agree (h.lawful has) (allotted.lawful has') fresh (h.sized has)
  have agree : ∀ {k}, s.Has k → k.Agree (op.perform.after (s.editor g)).graph := fun old => by
    refine (h.agree old has).trans changed fun contains => ?_
    rcases out.contains contains with found | ⟨rfl, _⟩
    · exact .inl found
    · exact .inr (h.next_free old)
  refine ⟨allotted, ?_, fun hk => ?_, fun hk hk' => ?_⟩
  · rw [supply]
    rcases out.supply with ⟨none, same⟩ | ⟨one, advanced, found⟩
    · rw [none, same]
      exact h.next
    · have used := allotted.below has' found
      rw [supply, advanced] at used
      rw [one, advanced, List.singleton_append, List.length_cons, ← Nat.add_assoc, ← h.next]
      exact SidSupply.next_advance used
  · rcases graphs hk with old | rfl
    · exact h.sized old
    · exact sized
  · rcases graphs hk with old | rfl <;> rcases graphs hk' with old' | rfl
    · exact h.agree old old'
    · exact agree old
    · exact (agree old').symm
    · exact .refl _

/-- Every request keeps track of the devices. -/
theorem step (h : Tracked s handed) (inward : Inward s r)
    (few : (r.handed s ++ handed).length < 2 ^ 64 - 42) :
    Tracked (r.after s) (r.handed s ++ handed) := by
  have allotted := h.toAllotted.step (h.spared inward few)
  have effect := r.effect s
  generalize r.after s = s' at effect allotted
  cases effect with
  | edited has has' graphs supply handed_eq =>
    rw [handed_eq] at allotted ⊢
    exact h.edited has _ graphs supply allotted has'
  | arranged graphs supply none =>
    refine ⟨allotted, by rw [supply, none]; exact h.next, fun hk => ?_, fun hk hk' => ?_⟩
    · rcases graphs hk with old | rfl
      · exact h.sized old
      · exact Devicegraph.sized_empty
    · rcases graphs hk' with old' | rfl
      · rcases graphs hk with old | rfl
        · exact h.agree old old'
        · exact (Devicegraph.Agree.empty _).symm
      · exact .empty _
  | answered _ _ graphs supply =>
    have old : ∀ {k}, s'.Has k → s.Has k := fun hk => by
      rcases graphs hk with old | rfl
      · exact old
      · exact inward.copies rfl
    exact ⟨allotted, by rw [supply]; exact h.next, fun hk => h.sized (old hk),
      fun hk hk' => h.agree (old hk) (old hk')⟩
  | loaded loads => exact absurd loads inward.reads

theorem of_run (run : Run Inward handed s) (few : handed.length < 2 ^ 64 - 42) :
    Tracked s handed := by
  induction run with
  | start environment files => exact .start environment files
  | step _ r inward ih =>
    rw [List.length_append] at few
    have fewer : ∀ m n k : Nat, m + n < k → n < k := by omega
    exact (ih (fewer _ _ _ few)).step inward (by rwa [List.length_append])

end Tracked

end Session

/-! ### Planning -/

namespace Plan

variable {lhs rhs : Devicegraph} {old new : Device} {o : Obstacle}

/-- The obstacles that do not come from changed attributes. -/
def Displaced (o : Obstacle) : Prop := o = .moved ∨ o = .deviceKind

theorem not_displaced_of_ofPartition? {p q : Partition} (h : Obstacle.ofPartition? p q = some o) :
    ¬Displaced o := by
  unfold Obstacle.ofPartition? at h
  split_ifs at h <;> obtain rfl := Option.some.inj h <;> simp [Displaced]

theorem not_displaced_of_ofResize? {t : FsType} {mode : Option ResizeMode}
    (h : Obstacle.ofResize? t mode = some o) : ¬Displaced o := by
  unfold Obstacle.ofResize? at h
  split at h
  · split_ifs at h
    obtain rfl := Option.some.inj h
    simp [Displaced]
  · split_ifs at h
    obtain rfl := Option.some.inj h
    simp [Displaced]
  · cases h

/-- A device that keeps its parents and its kind is replaced for other reasons only. -/
theorem not_displaced {parents : List Sid} (hl : lhs.parents new.sid = .ok parents)
    (hr : rhs.parents new.sid = .ok parents) (kind : old.kind = new.kind)
    (h : obstacle? lhs rhs old new = .ok (some o)) : ¬Displaced o := by
  simp only [obstacle?, hl, hr] at h
  simp only [bind, Except.bind, ne_eq, not_true_eq_false, if_false] at h
  split at h
  · cases h
  · obtain h := Except.ok.inj h
    split_ifs at h
    obtain rfl := Option.some.inj h
    simp [Displaced]
  · exact not_displaced_of_ofPartition? (Except.ok.inj h)
  · split_ifs at h
    · split at h
      · cases h
      · exact not_displaced_of_ofResize? (Except.ok.inj h)
    · obtain rfl := Option.some.inj (Except.ok.inj h)
      simp [Displaced]
  · exfalso
    rw [Device.kind, Device.kind] at kind
    cases ho : old.attributes <;> cases hn : new.attributes <;> simp_all [Attributes.kind]

end Plan

namespace Session

/-- In a session that only works on its own devices, a sid stands for one device in all
devicegraphs: of one kind, on one parent, and if it is a logical partition anywhere, then everywhere
and in one extended partition. So no plan moves a device or makes it one of another kind. -/
theorem correlated {s : Session} {handed : List Sid} (run : Run Inward handed s)
    (few : handed.length < 2 ^ 64 - 42) {a b : String} {g h : Devicegraph}
    (hg : s.graph a = .ok g) (hh : s.graph b = .ok h) :
    (∀ x c d, g.find? x = some c → h.find? x = some d → d.kind = c.kind ∧
      (∃ parents, g.parents x = .ok parents ∧ h.parents x = .ok parents) ∧
      ∀ p, g.partition x = .ok p → p.type = .logical → ∃ table e q, h.partition x = .ok q ∧
        q.type = .logical ∧ g.parent? x = some table ∧ h.parent? x = some table ∧
        g.extendedPartition table = .ok (some e) ∧ h.extendedPartition table = .ok (some e)) ∧
    ∃ l, Plan.hindered g h = .ok l ∧ ∀ d o, (d, o) ∈ l → ¬Plan.Displaced o := by
  have tracked := Tracked.of_run run few
  have agree := tracked.agree ⟨a, hg⟩ ⟨b, hh⟩
  have left := tracked.lawful ⟨a, hg⟩
  have right := tracked.lawful ⟨b, hh⟩
  have parents : ∀ {x c d}, g.find? x = some c → h.find? x = some d →
      g.parents x = .ok (g.parent? x).toList ∧ h.parents x = .ok (g.parent? x).toList := by
    intro x c d hc hd
    refine ⟨left.valid.parents_eq hc, ?_⟩
    rw [right.valid.parents_eq hd, agree.parent hc hd]
  refine ⟨fun x c d hc hd => ⟨agree.kind hc hd, ⟨_, parents hc hd⟩, fun p hp logical => ?_⟩, ?_⟩
  · obtain ⟨e, together⟩ := left.exists_logicalIn hp logical
    have together' := (agree.logical hc hd).2 together
    obtain ⟨q, hq, hql⟩ := together'.isLogical
    obtain ⟨table, hx, he⟩ := left.extendedPartition_of_logicalIn together
    obtain ⟨table', hx', he'⟩ := right.extendedPartition_of_logicalIn together'
    obtain rfl := Option.some.inj (hx'.symm.trans ((agree.parent hc hd).trans hx))
    exact ⟨table', e, q, hq, hql, hx, hx', he, he'⟩
  · obtain ⟨l, hl⟩ := Plan.hindered_total left.valid right.valid
    refine ⟨l, hl, fun d o member => ?_⟩
    obtain ⟨hd, c, hc, obstacle⟩ := (Plan.mem_hindered hl).1 member
    obtain ⟨before, after⟩ := parents hc hd
    exact Plan.not_displaced before after (agree.kind hc hd).symm obstacle

/-! ### A logical partition in two devicegraphs -/

theorem inward_edit (s : Session) (name : String) (op : Operation) : Inward s (.edit name op) :=
  ⟨id, fun probing => by cases probing⟩

/-- A device is created in the staged devicegraph, and nothing else happens. -/
theorem Run.create {s : Session} {handed : List Sid} (run : Run Inward handed s) {g : Devicegraph}
    (staged : s.graph stagingName = .ok g) (c : Creation) (accepted : c.verdict g = .ok ())
    {n : Sid} (supply : s.supply = ⟨n⟩) (more : n < maxWord) : ∃ s', Run Inward (n :: handed) s' ∧
      s'.graph stagingName = .ok (c.unchecked n g) ∧ s'.supply = ⟨n + 1⟩ ∧
      s'.environment = s.environment ∧ s'.others = s.others := by
  obtain ⟨sid, e, performed, created⟩ := (c.checksFirst (s.editor g)).accepted accepted
  obtain rfl : sid = n := created.sid.trans (congrArg SidSupply.next supply)
  have after : (Operation.perform (.checked (.create c))).after (s.editor g) = e :=
    Step.after_of_ok (Step.bind_of_ok performed)
  have changes := graphForChange_eq_ok.2 ⟨by decide, staged⟩
  have handed_eq : Request.handed s (.edit stagingName (.checked (.create c))) = [sid] := by
    rw [Request.handed, changes]
    simp only [Operation.handed, performed]
  have next := run.step (.edit stagingName (.checked (.create c))) (inward_edit ..)
  rw [handed_eq, Request.after, Command.edit_after changes, after] at next
  have advanced : SidSupply.advance ⟨sid⟩ = ⟨sid + 1⟩ := congrArg SidSupply.mk (if_pos more)
  have supply' := created.supply.trans ((congrArg SidSupply.advance supply).trans advanced)
  refine ⟨_, next, ?_, supply', rfl, rfl⟩
  rw [graph_setGraph (by decide), if_pos rfl, created.graph, Editor.newDevice]
  exact congrArg (fun supply : SidSupply => Except.ok (c.unchecked supply.next g)) supply

/-- The staged devicegraph is copied. -/
theorem Run.copy {s : Session} {handed : List Sid} (run : Run Inward handed s) {g : Devicegraph}
    (staged : s.graph stagingName = .ok g) {name : String} (free : s.hasGraph name = false) :
    ∃ s', Run Inward handed s' ∧ s'.graph stagingName = .ok g ∧ s'.graph name = .ok g := by
  have copied := Command.copyGraph_of_free free staged
  have own := Session.not_reserved free
  refine ⟨_, run.step (.copyGraph stagingName name) ⟨id, fun probing => by cases probing⟩, ?_, ?_⟩
  · rw [Request.after, copied.graph, graph_setGraph own.1, if_neg own.2.symm, staged]
  · rw [Request.after, copied.graph, graph_setGraph own.1, if_pos rfl]

/-- The staged devicegraph is changed, and no other one. -/
theorem Run.change {s : Session} {handed : List Sid} (run : Run Inward handed s) {g : Devicegraph}
    (staged : s.graph stagingName = .ok g) (c : GuardedChange) (accepted : c.verdict g = .ok ()) :
    ∃ s', Run Inward handed s' ∧ s'.graph stagingName = .ok (c.unchecked g) ∧
      ∀ name, name ≠ stagingName → s'.graph name = s.graph name := by
  obtain ⟨_, e, performed, changed⟩ := (c.checksFirst (s.editor g)).accepted accepted
  have after : (Operation.perform (.checked (.change c))).after (s.editor g) = e :=
    Step.after_of_ok performed
  have changes := graphForChange_eq_ok.2 ⟨by decide, staged⟩
  have handed_eq : Request.handed s (.edit stagingName (.checked (.change c))) = [] := by
    rw [Request.handed, changes]
    rfl
  have next := run.step (.edit stagingName (.checked (.change c))) (inward_edit ..)
  rw [handed_eq, Request.after, Command.edit_after changes, after] at next
  refine ⟨_, next, ?_, fun name other => ?_⟩
  · rw [graph_setGraph (by decide), if_pos rfl, changed.graph]
    rfl
  · rw [graph_setGraph (by decide), if_neg other]
    rfl

/-- A logical partition that is resized after its devicegraph was copied. -/
theorem correlated_logical : ∃ s g h, Run Inward [45, 44, 43, 42] s ∧
    s.graph stagingName = .ok g ∧ s.graph "before" = .ok h ∧
    (∃ p q, g.partition 45 = .ok p ∧ h.partition 45 = .ok q ∧ p.region ≠ q.region) ∧
    ∃ table e, g.extendedPartition table = .ok (some e) ∧
      h.extendedPartition table = .ok (some e) := by
  let g₁ := Creation.unchecked 42 .empty (.disk "a" 1048576)
  let g₂ := Creation.unchecked 43 g₁ (.partitionTable 42 .msdos)
  let g₃ := Creation.unchecked 44 g₂ (.partition 43 "a1" .extended ⟨2048, 8192, 512⟩)
  let g₄ := Creation.unchecked 45 g₃ (.partition 43 "a5" .logical ⟨4096, 1024, 512⟩)
  let g₅ := GuardedChange.unchecked g₄ (.partitionRegion 45 ⟨4096, 2048, 512⟩)
  obtain ⟨s₁, run, staged, supply, _, others₁⟩ :=
    Run.create (.start {} {}) (g := .empty) rfl (.disk "a" 1048576) (by cbv) rfl (by decide)
  obtain ⟨s₂, run, staged, supply, _, others₂⟩ :=
    run.create staged (.partitionTable 42 .msdos) (by cbv) supply (by decide)
  obtain ⟨s₃, run, staged, supply, _, others₃⟩ :=
    run.create staged (.partition 43 "a1" .extended ⟨2048, 8192, 512⟩) (by cbv) supply (by decide)
  obtain ⟨s₄, run, staged, _, _, others₄⟩ :=
    run.create staged (.partition 43 "a5" .logical ⟨4096, 1024, 512⟩) (by cbv) supply (by decide)
  have others : s₄.others = [] := by rw [others₄, others₃, others₂, others₁]
  have free : s₄.hasGraph "before" = false := by
    rw [hasGraph, others]
    rfl
  obtain ⟨s₅, run, staged, before⟩ := run.copy staged free
  obtain ⟨s₆, run, staged, same⟩ :=
    run.change staged (.partitionRegion 45 ⟨4096, 2048, 512⟩) (by cbv)
  have before := (same "before" (by decide)).trans before
  let p (length : Nat) : Partition :=
    { name := "a5", type := .logical, region := ⟨4096, length, 512⟩
      id := PartitionType.logical.defaultId }
  have found : g₅.partition 45 = .ok (p 2048) := by cbv
  have found' : g₄.partition 45 = .ok (p 1024) := by cbv
  obtain ⟨d, hd, _⟩ := Devicegraph.partition_eq_ok.1 found
  obtain ⟨c, hc, _⟩ := Devicegraph.partition_eq_ok.1 found'
  obtain ⟨devices, _⟩ := correlated run (by decide) staged before
  obtain ⟨table, e, _, _, _, _, _, he, he'⟩ := (devices 45 d c hd hc).2.2 _ found rfl
  exact ⟨s₆, g₅, g₄, run, staged, before, ⟨_, _, found, found', by decide⟩, table, e, he, he'⟩

end Session

end StoragePlan
