import StoragePlan.Proofs.Partitioning

/-!
# Layouts of partition tables

The partitions of a table as a map from sids (`Devicegraph.partAt`), and the rules that
`checkPartitionPlacement` enforces said for all of them at once (`Arranged`). A layout keeps the
rules when every partition that is put into it was checked against the others (`Arranged.put`), and
every partition of a layout that keeps the rules passes that check (`Arranged.checked`). So it is
the same to check each partition of a table and to check only those that change.
-/

namespace StoragePlan

namespace Region

/-- The one region contains the other when it starts before and ends after it, in the range. -/
theorem contains_eq_true {outer inner : Region} : outer.contains inner = .ok true ↔
    outer.sectorSize = inner.sectorSize ∧ outer.start ≤ inner.start ∧
      inner.start + inner.length ≤ outer.start + outer.length ∧
      outer.start + outer.length ≤ maxWord := by
  unfold contains
  by_cases size : outer.sectorSize = inner.sectorSize
  · by_cases start : inner.start < outer.start
    · simp [size, start]
    · by_cases ends : inner.start + inner.length ≤ maxWord
      · by_cases outerEnds : outer.start + outer.length ≤ maxWord
        · simp [size, start, stop, ends, outerEnds, bind, Except.bind, pure, Except.pure]
          omega
        · simp [size, start, stop, ends, outerEnds, bind, Except.bind]
      · simp [size, start, stop, ends, bind, Except.bind]
        omega
  · simp [size]

/-- A region stays inside another when it loses sectors and the other gains some. -/
theorem contains_of_fitsIn {outer outer' inner inner' : Region}
    (h : outer.contains inner = .ok true) (hi : inner'.FitsIn inner) (ho : outer.FitsIn outer')
    (ends : outer'.start + outer'.length ≤ maxWord) : outer'.contains inner' = .ok true := by
  rw [contains_eq_true] at h ⊢
  obtain ⟨size, start, inside, _⟩ := h
  have := hi.start
  have := hi.length
  have := ho.start
  have := ho.length
  refine ⟨?_, by omega, by omega, ends⟩
  rw [← ho.sectorSize, size, hi.sectorSize]

/-- It does not matter which region comes first. -/
theorem overlaps_comm {a b : Region} : a.overlaps b = .ok false ↔ b.overlaps a = .ok false := by
  simp only [overlaps_eq_false]
  constructor
  · rintro (h | h | ⟨ha, hb, h⟩)
    · exact .inr (.inl h)
    · exact .inl h
    · exact .inr (.inr ⟨hb, ha, h.symm⟩)
  · rintro (h | h | ⟨ha, hb, h⟩)
    · exact .inr (.inl h)
    · exact .inl h
    · exact .inr (.inr ⟨hb, ha, h.symm⟩)

end Region

namespace Devicegraph

open Attempt

/-! ### One partition among the others -/

theorem checkInsideExtended_eq_ok {logical : Partition} {extended? : Option Region} :
    checkInsideExtended logical extended? = .ok () ↔
      ∃ r, extended? = some r ∧ r.contains logical.region = .ok true := by
  cases extended? with
  | none => simp [checkInsideExtended]
  | some r =>
    simp only [checkInsideExtended, bind_eq_ok, ofRegion_eq_ok, Option.some.injEq, exists_eq_left']
    constructor
    · rintro ⟨inside, h, hs⟩
      cases inside with
      | true => exact h
      | false => cases hs
    · intro h
      exact ⟨true, h, rfl⟩

/-- A logical partition lies inside the extended one, apart from the other logical ones. -/
theorem checkSiblings_of_logical {table : PtType} {candidate : Partition}
    {siblings : List Partition} (hk : candidate.type = .logical) :
    checkSiblings table candidate siblings = .ok () ↔
      (∃ e, siblings.find? (fun p => p.type == .extended) = some e ∧
        e.region.contains candidate.region = .ok true) ∧
      ∀ q ∈ siblings, q.type = .logical → candidate.region.overlaps q.region = .ok false := by
  unfold checkSiblings
  simp only [hk, check_bind_eq_ok, checkInsideExtended_eq_ok, checkNoOverlap_eq_ok,
    List.mem_filter, Option.map_eq_some_iff, beq_iff_eq, and_imp]
  simp only [↓existsAndEq, true_and, and_comm]

/-- Any other partition finds room, apart from the others that are not logical, and every logical
one lies inside the extended one, which is the only one. -/
theorem checkSiblings_of_nonLogical {table : PtType} {candidate : Partition}
    {siblings : List Partition} (hk : candidate.type ≠ .logical) :
    checkSiblings table candidate siblings = .ok () ↔
      (siblings.filter fun p => p.type != .logical).length + 1 ≤ table.maxPrimary ∧
      (candidate.type = .extended → ∀ q ∈ siblings, q.type ≠ .extended) ∧
      (∀ q ∈ siblings, q.type ≠ .logical → candidate.region.overlaps q.region = .ok false) ∧
      ∀ l ∈ siblings, l.type = .logical → ∃ e, e.region.contains l.region = .ok true ∧
        if candidate.type = .extended then e = candidate
        else siblings.find? (fun p => p.type == .extended) = some e := by
  unfold checkSiblings
  cases type : candidate.type with
  | logical => exact absurd type hk
  | primary =>
    simp only [reduceCtorEq, if_false, refuse_bind_eq_ok, check_bind_eq_ok, forM_eq_ok,
      checkInsideExtended_eq_ok, checkNoOverlap_eq_ok, List.mem_filter, Option.map_eq_some_iff,
      Nat.not_lt, bne_iff_ne, ne_eq, beq_iff_eq, and_imp, false_implies, true_and]
    simp only [↓existsAndEq, true_and, and_comm]
  | extended =>
    simp only [if_true, refuse_bind_eq_ok, Nat.not_lt, forall_const]
    refine and_congr_right fun _ => ?_
    cases found : siblings.find? fun p => p.type == .extended with
    | none =>
      have only : ∀ q ∈ siblings, q.type ≠ .extended := by simpa using found
      simp only [check_bind_eq_ok, forM_eq_ok, checkInsideExtended_eq_ok, checkNoOverlap_eq_ok,
        List.mem_filter, bne_iff_ne, ne_eq, beq_iff_eq, and_imp, Option.some.injEq]
      simp only [↓existsAndEq, and_iff_right only, and_true, true_and]
    | some e =>
      have isExtended : e.type = .extended := by simpa using List.find?_some found
      have mem := List.mem_of_find?_eq_some found
      refine iff_of_false (fun h => ?_) fun h => h.1 e mem isExtended
      cases h

/-- A partition that a table of the type can hold on the disk, whatever else is in the table. -/
structure Suits (table : PtType) (disk : Disk) (p : Partition) : Prop where
  nonempty : p.region.isEmpty = false
  ends : p.region.start + p.region.length ≤ maxWord
  supported : table.supports p.type = true
  fits : checkFits p disk = .ok ()

/-! ### All partitions of a table -/

/-- The partitions of a table keep the rules. -/
structure Arranged (table : PtType) (disk : Disk) (parts : Sid → Option Partition) : Prop where
  suits : ∀ {x p}, parts x = some p → Suits table disk p
  /-- Two logical partitions share no sector, and neither do two others. -/
  apart : ∀ {x y p q}, parts x = some p → parts y = some q → y ≠ x →
    (p.type = .logical ↔ q.type = .logical) → p.region.overlaps q.region = .ok false
  room : {x | ∃ p, parts x = some p ∧ p.type ≠ .logical}.encard ≤ table.maxPrimary
  single : ∀ {x y p q}, parts x = some p → p.type = .extended → parts y = some q →
    q.type = .extended → y = x
  inside : ∀ {x p}, parts x = some p → p.type = .logical → ∃ y q, parts y = some q ∧
    q.type = .extended ∧ q.region.contains p.region = .ok true

/-- The partitions of a table but the one at `sid`. -/
def Others (parts : Sid → Option Partition) (sid : Sid) (siblings : List Partition) : Prop :=
  ∃ sids : List Sid, sids.Nodup ∧ (∀ x, x ∈ sids ↔ x ≠ sid ∧ ∃ p, parts x = some p) ∧
    siblings = sids.filterMap parts

namespace Others

variable {parts : Sid → Option Partition} {sid : Sid} {siblings : List Partition}

theorem mem_iff (h : Others parts sid siblings) {q : Partition} :
    q ∈ siblings ↔ ∃ x, x ≠ sid ∧ parts x = some q := by
  obtain ⟨sids, _, mem, rfl⟩ := h
  rw [List.mem_filterMap]
  constructor
  · rintro ⟨x, hx, hq⟩
    exact ⟨x, ((mem x).1 hx).1, hq⟩
  · rintro ⟨x, ne, hq⟩
    exact ⟨x, (mem x).2 ⟨ne, q, hq⟩, hq⟩

/-- The one partition does not matter to the others. -/
theorem update (h : Others parts sid siblings) (p : Option Partition) :
    Others (Function.update parts sid p) sid siblings := by
  obtain ⟨sids, distinct, mem, rfl⟩ := h
  have same : ∀ x, x ≠ sid → Function.update parts sid p x = parts x := fun x ne =>
    Function.update_of_ne ne _ _
  refine ⟨sids, distinct, fun x => ?_, ?_⟩
  · rw [mem]
    refine and_congr_right fun ne => ?_
    rw [same x ne]
  · refine List.filterMap_congr fun x hx => ?_
    exact (same x ((mem x).1 hx).1).symm

/-- How many of the others are not logical. -/
theorem length_nonLogical (h : Others parts sid siblings) :
    ((siblings.filter fun p => p.type != .logical).length : ENat) =
      {x | x ≠ sid ∧ ∃ p, parts x = some p ∧ p.type ≠ .logical}.encard := by
  obtain ⟨sids, distinct, mem, rfl⟩ := h
  let isCounted := fun x => (parts x).any fun p => p.type != .logical
  have count : ((sids.filterMap parts).filter fun p => p.type != .logical).length =
      (sids.filter isCounted).length := by
    rw [← List.countP_eq_length_filter, ← List.countP_eq_length_filter, List.countP_filterMap]
    refine List.countP_congr fun x _ => ?_
    cases hx : parts x <;> simp [isCounted, hx]
  have counted : {x | x ≠ sid ∧ ∃ p, parts x = some p ∧ p.type ≠ .logical} =
      ((sids.filter isCounted).toFinset : Set Sid) := by
    ext x
    simp only [Set.mem_ofPred_eq, List.coe_toFinset, List.mem_filter, mem, isCounted,
      Option.any_eq_true, bne_iff_ne]
    constructor
    · rintro ⟨ne, p, hp, hk⟩
      exact ⟨⟨ne, p, hp⟩, p, hp, hk⟩
    · rintro ⟨⟨ne, _⟩, p, hp, hk⟩
      exact ⟨ne, p, hp, hk⟩
  rw [counted, Set.encard_coe_eq_coe_finsetCard, List.toFinset_card_of_nodup (distinct.filter _),
    count]

/-- There is room for all when there is room for one beside the others. -/
theorem encard_nonLogical_le (h : Others parts sid siblings) {n : Nat}
    (room : (siblings.filter fun p => p.type != .logical).length + 1 ≤ n) :
    {x | ∃ p, parts x = some p ∧ p.type ≠ .logical}.encard ≤ n := by
  have covered : {x | ∃ p, parts x = some p ∧ p.type ≠ .logical} ⊆
      insert sid {x | x ≠ sid ∧ ∃ p, parts x = some p ∧ p.type ≠ .logical} := by
    rintro x ⟨q, hx, hq⟩
    by_cases same : x = sid
    · exact .inl same
    · exact .inr ⟨same, q, hx, hq⟩
  calc {x | ∃ p, parts x = some p ∧ p.type ≠ .logical}.encard
      ≤ (insert sid {x | x ≠ sid ∧ ∃ p, parts x = some p ∧ p.type ≠ .logical}).encard :=
        Set.encard_le_encard covered
    _ ≤ {x | x ≠ sid ∧ ∃ p, parts x = some p ∧ p.type ≠ .logical}.encard + 1 :=
        Set.encard_insert_le ..
    _ ≤ n := by
        rw [← h.length_nonLogical]
        exact_mod_cast room

/-- The extended partition among the others, if the table has only one. -/
theorem find?_extended (h : Others parts sid siblings) {x : Sid} {e : Partition} (hx : x ≠ sid)
    (he : parts x = some e) (isExtended : e.type = .extended)
    (single : ∀ y q, y ≠ sid → parts y = some q → q.type = .extended → y = x) :
    siblings.find? (fun p => p.type == .extended) = some e := by
  have mem := h.mem_iff.2 ⟨x, hx, he⟩
  obtain ⟨q, hq⟩ := Option.isSome_iff_exists.1 <|
    (List.find?_isSome (p := fun p : Partition => p.type == .extended)).2
      ⟨e, mem, by simp [isExtended]⟩
  obtain ⟨y, hy, hyq⟩ := h.mem_iff.1 (List.mem_of_find?_eq_some hq)
  obtain rfl := single y q hy hyq (by simpa using List.find?_some hq)
  rw [hq, ← hyq, he]

end Others

namespace Arranged

variable {table table' : PtType} {disk disk' : Disk} {parts parts' : Sid → Option Partition}
  {sid : Sid} {p : Partition} {siblings : List Partition}

/-- A table without partitions. -/
theorem empty (table : PtType) (disk : Disk) : Arranged table disk fun _ => none := by
  refine ⟨?_, ?_, ?_, ?_, ?_⟩ <;> simp

/-- Each partition gets along with the others. -/
theorem checked (h : Arranged table disk parts) (hp : parts sid = some p)
    (others : Others parts sid siblings) : checkSiblings table p siblings = .ok () := by
  have apart : ∀ q ∈ siblings, (p.type = .logical ↔ q.type = .logical) →
      p.region.overlaps q.region = .ok false := by
    intro q hq same
    obtain ⟨y, ne, hy⟩ := others.mem_iff.1 hq
    exact h.apart hp hy ne same
  by_cases hk : p.type = .logical
  · rw [checkSiblings_of_logical hk]
    obtain ⟨y, e, hy, isExtended, inside⟩ := h.inside hp hk
    have ne : y ≠ sid := by
      rintro rfl
      obtain rfl := Option.some.inj (hp.symm.trans hy)
      simp [hk] at isExtended
    refine ⟨⟨e, ?_, inside⟩, fun q hq hqk => apart q hq (by simp [hk, hqk])⟩
    exact others.find?_extended ne hy isExtended fun z q _ hz hq => h.single hy isExtended hz hq
  · rw [checkSiblings_of_nonLogical hk]
    refine ⟨?_, ?_, fun q hq hqk => apart q hq (by simp [hk, hqk]), ?_⟩
    · have insert : {x | ∃ q, parts x = some q ∧ q.type ≠ .logical} =
          insert sid {x | x ≠ sid ∧ ∃ q, parts x = some q ∧ q.type ≠ .logical} := by
        ext x
        by_cases same : x = sid
        · subst same
          simp [hp, hk]
        · simp [same]
      have room := h.room
      rw [insert, Set.encard_insert_of_notMem (by simp), ← others.length_nonLogical] at room
      exact_mod_cast room
    · intro isExtended q hq hqe
      obtain ⟨y, ne, hy⟩ := others.mem_iff.1 hq
      exact ne (h.single hp isExtended hy hqe)
    · intro l hl hlk
      obtain ⟨x, _, hx⟩ := others.mem_iff.1 hl
      obtain ⟨y, e, hy, isExtended, inside⟩ := h.inside hx hlk
      refine ⟨e, inside, ?_⟩
      by_cases same : y = sid
      · subst same
        obtain rfl := Option.some.inj (hp.symm.trans hy)
        simp [isExtended]
      · rw [if_neg fun he => same (h.single hp he hy isExtended)]
        exact others.find?_extended same hy isExtended fun z q _ hz hq =>
          h.single hy isExtended hz hq

/-- A layout in which each partition gets along with the others keeps the rules. -/
theorem of_checked (suits : ∀ {x p}, parts x = some p → Suits table disk p)
    (checked : ∀ {x p}, parts x = some p → ∃ siblings, Others parts x siblings ∧
      checkSiblings table p siblings = .ok ()) : Arranged table disk parts := by
  refine ⟨suits, fun {x y p q} hx hy ne same => ?_, ?_, fun {x y p q} hx hp hy hq => ?_,
    fun {x p} hx hk => ?_⟩
  · obtain ⟨siblings, others, fit⟩ := checked hx
    exact apart_of_checkSiblings fit (others.mem_iff.2 ⟨y, ne, hy⟩) same
  · by_cases none : ∃ x p, parts x = some p ∧ p.type ≠ .logical
    · obtain ⟨x, p, hx, hk⟩ := none
      obtain ⟨siblings, others, fit⟩ := checked hx
      obtain ⟨room, _⟩ := (checkSiblings_of_nonLogical hk).1 fit
      exact others.encard_nonLogical_le room
    · have nothing : {x | ∃ p, parts x = some p ∧ p.type ≠ .logical} = ∅ := by
        ext x
        simp only [Set.mem_ofPred_eq, Set.mem_empty_iff_false, iff_false]
        exact fun ⟨p, hx, hk⟩ => none ⟨x, p, hx, hk⟩
      simp [nothing]
  · obtain ⟨siblings, others, fit⟩ := checked hx
    obtain ⟨_, only, _⟩ := (checkSiblings_of_nonLogical (by simp [hp])).1 fit
    by_contra ne
    exact only hp q (others.mem_iff.2 ⟨y, ne, hy⟩) hq
  · obtain ⟨siblings, others, fit⟩ := checked hx
    obtain ⟨⟨e, he, inside⟩, _⟩ := (checkSiblings_of_logical hk).1 fit
    obtain ⟨y, _, hy⟩ := others.mem_iff.1 (List.mem_of_find?_eq_some he)
    exact ⟨y, e, hy, by simpa using List.find?_some he, inside⟩

/-- A checked partition can be put into the layout, at a new place or at that of another one. -/
theorem put (h : Arranged table disk parts) (suits : Suits table disk p)
    (others : Others parts sid siblings) (fit : checkSiblings table p siblings = .ok ()) :
    Arranged table disk (Function.update parts sid (some p)) := by
  have cases : ∀ {x q}, Function.update parts sid (some p) x = some q →
      x = sid ∧ q = p ∨ x ≠ sid ∧ parts x = some q := by
    intro x q hx
    by_cases same : x = sid
    · subst same
      rw [Function.update_self] at hx
      exact .inl ⟨rfl, (Option.some.inj hx).symm⟩
    · rw [Function.update_of_ne same] at hx
      exact .inr ⟨same, hx⟩
  have kept : ∀ {x q}, x ≠ sid → parts x = some q →
      Function.update parts sid (some p) x = some q := fun ne hx => by
    rw [Function.update_of_ne ne, hx]
  refine ⟨fun {x q} hx => ?_, fun {x y q r} hx hy ne same => ?_, ?_,
    fun {x y q r} hx hq hy hr => ?_, fun {x q} hx hk => ?_⟩
  · rcases cases hx with ⟨_, rfl⟩ | ⟨_, hx⟩
    · exact suits
    · exact h.suits hx
  · rcases cases hx with ⟨rfl, rfl⟩ | ⟨nx, oldx⟩ <;>
      rcases cases hy with ⟨rfl, rfl⟩ | ⟨ny, oldy⟩
    · exact absurd rfl ne
    · exact apart_of_checkSiblings fit (others.mem_iff.2 ⟨y, ny, oldy⟩) same
    · exact Region.overlaps_comm.1
        (apart_of_checkSiblings fit (others.mem_iff.2 ⟨x, nx, oldx⟩) same.symm)
    · exact h.apart oldx oldy ne same
  · by_cases hk : p.type = .logical
    · refine (Set.encard_le_encard ?_).trans h.room
      rintro x ⟨q, hx, hq⟩
      rcases cases hx with ⟨_, rfl⟩ | ⟨_, hx⟩
      · exact absurd hk hq
      · exact ⟨q, hx, hq⟩
    · exact (others.update (some p)).encard_nonLogical_le
        ((checkSiblings_of_nonLogical hk).1 fit).1
  · have only : ∀ {z : Sid} {e : Partition}, z ≠ sid → parts z = some e → e.type = .extended →
        p.type ≠ .extended := by
      intro z e nz hz he isExtended
      obtain ⟨_, none, _⟩ := (checkSiblings_of_nonLogical (by simp [isExtended])).1 fit
      exact none isExtended e (others.mem_iff.2 ⟨z, nz, hz⟩) he
    rcases cases hx with ⟨rfl, rfl⟩ | ⟨nx, oldx⟩ <;>
      rcases cases hy with ⟨rfl, rfl⟩ | ⟨ny, oldy⟩
    · rfl
    · exact absurd hq (only ny oldy hr)
    · exact absurd hr (only nx oldx hq)
    · exact h.single oldx hq oldy hr
  · by_cases logical : p.type = .logical
    · -- The extended partition that the new one lies in was there before, and is the only one.
      obtain ⟨⟨e, he, inside⟩, _⟩ := (checkSiblings_of_logical logical).1 fit
      have isExtended : e.type = .extended := by simpa using List.find?_some he
      obtain ⟨y, ny, hy⟩ := others.mem_iff.1 (List.mem_of_find?_eq_some he)
      rcases cases hx with ⟨_, rfl⟩ | ⟨_, hx⟩
      · exact ⟨y, e, kept ny hy, isExtended, inside⟩
      · obtain ⟨z, f, hz, hf, inside⟩ := h.inside hx hk
        obtain rfl := h.single hy isExtended hz hf
        exact ⟨z, f, kept ny hz, hf, inside⟩
    · obtain ⟨_, _, _, all⟩ := (checkSiblings_of_nonLogical logical).1 fit
      rcases cases hx with ⟨_, rfl⟩ | ⟨nx, hx⟩
      · exact absurd hk logical
      · obtain ⟨e, inside, he⟩ := all q (others.mem_iff.2 ⟨x, nx, hx⟩) hk
        split_ifs at he with isExtended
        · exact ⟨sid, p, Function.update_self .., isExtended, he ▸ inside⟩
        · obtain ⟨y, ny, hy⟩ := others.mem_iff.1 (List.mem_of_find?_eq_some he)
          exact ⟨y, e, kept ny hy, by simpa using List.find?_some he, inside⟩

/-- Partitions can go as long as no logical one loses the extended one. -/
theorem restrict (h : Arranged table disk parts)
    (fewer : ∀ {x p}, parts' x = some p → parts x = some p)
    (held : ∀ {x p y q}, parts' x = some p → p.type = .logical → parts y = some q →
      q.type = .extended → parts' y = some q) : Arranged table disk parts' := by
  refine ⟨fun hx => h.suits (fewer hx), fun hx hy => h.apart (fewer hx) (fewer hy), ?_,
    fun hx hp hy hq => h.single (fewer hx) hp (fewer hy) hq, fun hx hk => ?_⟩
  · refine (Set.encard_le_encard ?_).trans h.room
    rintro x ⟨p, hx, hk⟩
    exact ⟨p, fewer hx, hk⟩
  · obtain ⟨y, q, hy, isExtended, inside⟩ := h.inside (fewer hx) hk
    exact ⟨y, q, held hx hk hy isExtended, isExtended, inside⟩

/-- The disk only matters to each partition by itself. -/
theorem move (h : Arranged table disk parts)
    (suits : ∀ {x p}, parts x = some p → Suits table disk' p) : Arranged table disk' parts :=
  ⟨suits, h.apart, h.room, h.single, h.inside⟩

end Arranged

/-! ### The layouts of a devicegraph -/

variable {g : Devicegraph} {table sid : Sid}

/-- The partition at a sid, if it is in the table. -/
def partAt (g : Devicegraph) (table sid : Sid) : Option Partition :=
  if g.parent? sid = some table then (g.partition sid).toOption else none

theorem partAt_eq_some {p : Partition} :
    g.partAt table sid = some p ↔ g.parent? sid = some table ∧ g.partition sid = .ok p := by
  unfold partAt
  split
  · next hp => cases g.partition sid <;> simp [hp, Except.toOption]
  · next hp => simp [hp]

theorem children_ascending {l : List Sid} (h : g.children sid = .ok l) : l.Pairwise (· < ·) := by
  simp only [children, neighbors, bind_eq_ok, pure_eq_ok] at h
  obtain ⟨_, _, rfl⟩ := h
  exact SidList.pairwise_ofList _

section

variable {t : PartitionTable} {d : Disk} {disk : Sid} {replaces : Option Sid}

/-- The partitions that a candidate is compared with are the others of the table. -/
theorem others_of_mapM (whole : g.Whole)
    (sits : ∀ {child parent}, g.SitsOn child parent ↔ g.parent? child = some parent)
    (stands : replaces = some sid ∨ replaces = none ∧ g.partAt table sid = none) {all : List Sid}
    {siblings : List Partition} (hall : g.children table = .ok all)
    (hs : (all.filter fun x => some x != replaces).mapM g.partition = .ok siblings) :
    Others (g.partAt table) sid siblings := by
  have child : ∀ {x}, x ∈ all ↔ g.parent? x = some table := fun {x} => by
    rw [whole.mem_children hall, sits]
  have found : ∀ x ∈ all.filter fun x => some x != replaces, ∃ p, g.partition x = .ok p :=
    fun x hx => of_mem_mapM hs hx
  refine ⟨all.filter fun x => some x != replaces, ?_, fun x => ?_, ?_⟩
  · exact ((children_ascending hall).imp fun lt => Nat.ne_of_lt lt).filter _
  · constructor
    · intro hx
      obtain ⟨p, hp⟩ := found x hx
      obtain ⟨hx, ne⟩ := List.mem_filter.1 hx
      have present := partAt_eq_some.2 ⟨child.1 hx, hp⟩
      refine ⟨?_, p, present⟩
      rintro rfl
      rcases stands with rfl | ⟨_, absent⟩
      · simp at ne
      · rw [present] at absent
        cases absent
    · rintro ⟨ne, p, hp⟩
      refine List.mem_filter.2 ⟨child.2 (partAt_eq_some.1 hp).1, ?_⟩
      rcases stands with rfl | ⟨rfl, _⟩
      · simpa using ne
      · rfl
  · rw [mapM_eq_filterMap hs]
    refine List.filterMap_congr fun x hx => ?_
    rw [partAt, if_pos (child.1 (List.mem_filter.1 hx).1)]

/-- A candidate passes its check when it suits the table and gets along with the others. -/
theorem checkPartitionPlacement_eq_ok (sid : Sid) (candidate : Partition) (whole : g.Whole)
    (sits : ∀ {child parent}, g.SitsOn child parent ↔ g.parent? child = some parent)
    (stands : replaces = some sid ∨ replaces = none ∧ g.partAt table sid = none)
    (ht : g.partitionTable table = .ok t) (hp : g.parent? table = some disk)
    (hd : g.disk disk = .ok d)
    (parts : ∀ x, g.parent? x = some table → ∃ p, g.partition x = .ok p) :
    ∃ siblings, Others (g.partAt table) sid siblings ∧
      (g.checkPartitionPlacement table candidate replaces = .ok () ↔
        Suits t.ptType d candidate ∧ checkSiblings t.ptType candidate siblings = .ok ()) := by
  obtain ⟨td, htd, _⟩ := partitionTable_eq_ok.1 ht
  obtain ⟨all, hall⟩ := children_total htd
  obtain ⟨siblings, hs⟩ := mapM_total (f := g.partition)
    (l := all.filter fun x => some x != replaces) fun x hx => parts x <| by
      rw [← sits, ← whole.mem_children hall]
      exact (List.mem_filter.1 hx).1
  refine ⟨siblings, others_of_mapM whole sits stands hall hs, ?_⟩
  simp only [checkPartitionPlacement, refuse_bind_eq_ok, bind_eq_ok, ht, singleParent_eq_ok.2 hp,
    hd, hall, hs, Except.ok.injEq, exists_eq_left', ofRegion_eq_ok]
  have ends : (∃ stop, candidate.region.stop = .ok stop) ↔
      candidate.region.start + candidate.region.length ≤ maxWord := by
    unfold Region.stop
    split <;> simp_all
  constructor
  · rintro ⟨nonempty, stop, hstop, supported, _, fits, get⟩
    exact ⟨⟨by simpa using nonempty, ends.1 ⟨stop, hstop⟩, by simpa using supported, fits⟩, get⟩
  · rintro ⟨⟨nonempty, inRange, supported, fits⟩, get⟩
    obtain ⟨stop, hstop⟩ := ends.2 inRange
    exact ⟨by simp [nonempty], stop, hstop, by simp [supported], (), fits, get⟩

/-- All partitions of a table are accepted in it. -/
def checkLayout (g : Devicegraph) (table : Sid) : Except Failure Unit := do
  (← g.partitions table).forM fun p => do
    g.checkPartitionPlacement table (← g.partition p) (some p)

/-- Where all partitions of a table are accepted, they keep the rules. -/
theorem arranged_of_checkLayout (whole : g.Whole)
    (sits : ∀ {child parent}, g.SitsOn child parent ↔ g.parent? child = some parent)
    (ht : g.partitionTable table = .ok t) (hp : g.parent? table = some disk)
    (hd : g.disk disk = .ok d)
    (parts : ∀ x, g.parent? x = some table → ∃ p, g.partition x = .ok p)
    (accepted : g.checkLayout table = .ok ()) : Arranged t.ptType d (g.partAt table) := by
  obtain ⟨l, hl, all⟩ := bind_eq_ok.1 accepted
  have member : ∀ {x p}, g.partAt table x = some p → x ∈ l := by
    intro x p hx
    obtain ⟨px, hpart⟩ := partAt_eq_some.1 hx
    obtain ⟨c, hc, hca⟩ := partition_eq_ok.1 hpart
    simp only [partitions, bind_eq_ok, pure_eq_ok] at hl
    obtain ⟨_, _, children, hchildren, rfl⟩ := hl
    refine List.mem_filter.2 ⟨(whole.mem_children hchildren).2 (sits.2 px), ?_⟩
    simp [hc, isPartition_of_attributes hca]
  have checked : ∀ {x p}, g.partAt table x = some p → Suits t.ptType d p ∧
      ∃ siblings, Others (g.partAt table) x siblings ∧
        checkSiblings t.ptType p siblings = .ok () := by
    intro x p hx
    obtain ⟨q, hq, placed⟩ := bind_eq_ok.1 (forM_eq_ok.1 all x (member hx))
    obtain rfl := Except.ok.inj ((partAt_eq_some.1 hx).2.symm.trans hq)
    obtain ⟨siblings, others, iff⟩ := checkPartitionPlacement_eq_ok x p whole sits (.inl rfl) ht hp
      hd parts
    obtain ⟨suits, fit⟩ := iff.1 placed
    exact ⟨suits, siblings, others, fit⟩
  exact .of_checked (fun hx => (checked hx).1) fun hx => (checked hx).2

end

namespace Valid

/-- A partition table sits on a disk. -/
theorem exists_disk (h : g.Valid) {t : PartitionTable} (ht : g.partitionTable table = .ok t) :
    ∃ disk d, g.parent? table = some disk ∧ g.disk disk = .ok d := by
  obtain ⟨td, htd, ha⟩ := partitionTable_eq_ok.1 ht
  have isTable : td.kind = .partitionTable := by rw [Device.kind, ha]; rfl
  obtain ⟨disk, hp⟩ := h.exists_parent htd (by simp [isTable])
  obtain ⟨p, hpd⟩ := h.parent_found hp
  obtain ⟨d, hd⟩ := attributes_of_isDisk (h.isDisk_of_child htd hpd hp isTable)
  exact ⟨disk, d, hp, disk_eq_ok.2 ⟨p, hpd, hd⟩⟩

/-- All partitions of a table are accepted. -/
theorem checkLayout (h : g.Valid) {t : PartitionTable} (ht : g.partitionTable table = .ok t) :
    g.checkLayout table = .ok () := by
  obtain ⟨l, hl⟩ := Valid.partitions_total ht
  refine bind_eq_ok.2 ⟨l, hl, forM_eq_ok.2 fun x hx => ?_⟩
  have px := (h.mem_partitions hl).1 hx
  obtain ⟨p, hp⟩ := h.exists_partition ht px
  obtain ⟨c, hc, ha⟩ := partition_eq_ok.1 hp
  exact bind_eq_ok.2 ⟨p, hp, h.placed hc ha px⟩

/-- The partitions of a table keep the rules. -/
theorem arranged (h : g.Valid) {t : PartitionTable} {disk : Sid} {d : Disk}
    (ht : g.partitionTable table = .ok t) (hp : g.parent? table = some disk)
    (hd : g.disk disk = .ok d) : Arranged t.ptType d (g.partAt table) :=
  arranged_of_checkLayout h.whole h.sitsOn_iff ht hp hd (fun _ px => h.exists_partition ht px)
    (h.checkLayout ht)

end Valid

end Devicegraph

end StoragePlan
