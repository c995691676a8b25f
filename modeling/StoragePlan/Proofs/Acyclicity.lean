import Mathlib.Data.List.Permutation
import Mathlib.Logic.Relation
import StoragePlan.Plan.Basic
import StoragePlan.Proofs.Schedule
import StoragePlan.Proofs.Stages

/-!
# Every pair of valid devicegraphs has a plan

Each rule leads to a place of higher rank (`rises_of_precedes`), so that no place has to come before
itself and the places can be put in order. With the lookups in the chains and in the rules, none of
which fails for valid devicegraphs, `Plan.between` succeeds exactly for two devicegraphs that pass
their checks.
-/

namespace StoragePlan.Plan

open Attempt

namespace Setting

variable {s : Setting} {replaced : List Sid}

namespace Sound

/-! ### Stages of the ends of chains -/

theorem height_delete (h : s.Sound replaced) {c : Chain} {sid : Sid} {old : Device}
    (hc : s.deletes? sid = some c) (ho : s.lhs.find? sid = some old) :
    s.height c = old.attributes.height := by
  obtain ⟨_, phase, rfl⟩ := h.find?_chains.1 hc
  simp [height, phase, ho]

theorem height_of_not_delete {c : Chain} {new : Device} (phase : c.phase ≠ .delete)
    (hn : s.rhs.find? c.sid = some new) : s.height c = new.attributes.height := by
  simp [height, phase, hn]

/-- A device is taken away by the last action of the chain that deletes it. -/
theorem occurs_removal (h : s.Sound replaced) {sid : Sid} {c : Chain} {old : Device}
    (hc : s.deletes? sid = some c) (ho : s.lhs.find? sid = some old) :
    s.Occurs c.last c (c.kinds.length - 1) (removal old.attributes) := by
  obtain ⟨old', goes, hk⟩ := h.of_deletes? hc
  obtain rfl := Option.some.inj (ho.symm.trans goes.before)
  obtain ⟨before, same, _⟩ := deleteKinds_eq old.attributes
  refine ⟨(h.find?_chains.1 hc).1, by simp [hk, same], ?_⟩
  simp only [Chain.last, hk, same, List.length_append, List.length_singleton]
  omega

/-- A device is brought by the first action of the chain that creates it. -/
theorem occurs_addition (h : s.Sound replaced) {sid : Sid} {c : Chain} {new : Device}
    (hc : s.creates? sid = some c) (hn : s.rhs.find? sid = some new) :
    s.Occurs c.first c 0 (addition new.attributes) := by
  obtain ⟨new', comes, hk⟩ := h.of_creates? hc
  obtain rfl := Option.some.inj (hn.symm.trans comes.after)
  obtain ⟨after, same, _⟩ := createKinds_eq new.attributes
  exact ⟨(h.find?_chains.1 hc).1, by simp [hk, same], rfl⟩

theorem staged_deletes_last (h : s.Sound replaced) {sid : Sid} {c : Chain} {old : Device}
    (hc : s.deletes? sid = some c) (ho : s.lhs.find? sid = some old) :
    s.Staged c.last (1 + old.attributes.height) := by
  refine ⟨c, _, _, h.occurs_removal hc ho, ?_⟩
  rw [h.height_delete hc ho, (h.find?_chains.1 hc).2.1]
  cases old.attributes <;> rfl

theorem staged_creates_first (h : s.Sound replaced) {sid : Sid} {c : Chain} {new : Device}
    (hc : s.creates? sid = some c) (hn : s.rhs.find? sid = some new) :
    s.Staged c.first (10 - new.attributes.height) := by
  obtain ⟨_, phase, rfl⟩ := h.find?_chains.1 hc
  refine ⟨c, _, _, h.occurs_addition hc hn, ?_⟩
  rw [height_of_not_delete (by simp [phase]) hn, phase]
  cases new.attributes <;> rfl

/-- What is no filesystem goes in one stage. -/
theorem staged_deletes_first (h : s.Sound replaced) {sid : Sid} {c : Chain} {old : Device}
    (hc : s.deletes? sid = some c) (ho : s.lhs.find? sid = some old) (hk : old.kind ≠ .filesystem) :
    s.Staged c.first (1 + old.attributes.height) := by
  obtain ⟨old', goes, hkinds⟩ := h.of_deletes? hc
  obtain rfl := Option.some.inj (ho.symm.trans goes.before)
  obtain ⟨before, same, _, none⟩ := deleteKinds_eq old.attributes
  have last : c.last = c.first := by simp [Chain.last, hkinds, same, none hk]
  exact last ▸ h.staged_deletes_last hc ho

/-- What is no filesystem comes in one stage. -/
theorem staged_creates_last (h : s.Sound replaced) {sid : Sid} {c : Chain} {new : Device}
    (hc : s.creates? sid = some c) (hn : s.rhs.find? sid = some new) (hk : new.kind ≠ .filesystem) :
    s.Staged c.last (10 - new.attributes.height) := by
  obtain ⟨new', comes, hkinds⟩ := h.of_creates? hc
  obtain rfl := Option.some.inj (hn.symm.trans comes.after)
  obtain ⟨mem, phase, rfl⟩ := h.find?_chains.1 hc
  obtain ⟨after, same, _, marks⟩ := createKinds_eq new.attributes
  have lt : c.kinds.length - 1 < c.kinds.length := by simp [hkinds, same]
  have place : c.first + (c.kinds.length - 1) = c.last := by
    simp only [Chain.last]
    omega
  refine ⟨c, _, _, place ▸ Occurs.of_lt mem lt, ?_⟩
  rw [height_of_not_delete (by simp [phase]) hn, phase]
  have member : c.kinds[c.kinds.length - 1] ∈ addition new.attributes :: after :=
    (hkinds.trans same) ▸ List.getElem_mem lt
  rcases List.mem_cons.1 member with first | later
  · rw [first]
    cases new.attributes <;> rfl
  · rcases marks hk _ later with mark | mark <;> rw [mark] <;> rfl

theorem staged_resizing (h : s.Sound replaced) {sid : Sid} {mode : ResizeMode} {i : Nat}
    {new : Device} (hi : s.Resizing i sid mode) (hn : s.rhs.find? sid = some new) :
    s.Staged i (if mode = .grow then 10 - new.attributes.height else 1 + new.attributes.height) := by
  obtain ⟨c, k, occurs, rfl⟩ := hi
  obtain ⟨phase, _⟩ := occurs.resizePartition h
  refine ⟨c, k, _, occurs, ?_⟩
  rw [height_of_not_delete (by simp [phase]) hn]
  cases mode <;> rfl

theorem staged_following (h : s.Sound replaced) {sid : Sid} {mode : ResizeMode} {i : Nat}
    (hi : s.Following i sid mode) : s.Staged i (if mode = .grow then 10 else 1) := by
  obtain ⟨c, k, occurs, rfl⟩ := hi
  obtain ⟨phase, old, new, o, n, stays, _, ha, _⟩ := occurs.resizeFilesystem h
  refine ⟨c, k, _, occurs, ?_⟩
  rw [height_of_not_delete (by simp [phase]) stays.after, ha]
  cases mode <;> rfl

/-! ### Links and paths -/

theorem rising (h : s.Sound replaced) {c : Chain} (hc : c ∈ s.chains) :
    ∃ lo hi, Rising c.phase (s.height c) lo hi c.kinds := by
  cases h.shape hc with
  | @delete old phase goes hk =>
    have same := h.height_delete (h.find?_chains.2 ⟨hc, phase, rfl⟩) goes.before
    rw [same, phase, hk]
    exact ⟨_, _, rising_deleteKinds _⟩
  | @partition old new o n phase stays ho hn hk =>
    rw [height_of_not_delete (by simp [phase]) stays.after, phase, hk]
    exact ⟨_, _, rising_partitionChanges o n (Attributes.height_le _)⟩
  | @filesystem old new o n resize phase stays ho hn _ hk =>
    rw [height_of_not_delete (by simp [phase]) stays.after, phase, hk, hn]
    exact ⟨_, _, rising_filesystemChanges o n resize⟩
  | @create new phase comes hk =>
    rw [height_of_not_delete (by simp [phase]) comes.after, phase, hk]
    exact ⟨_, _, rising_createKinds _⟩

theorem link_rises (h : s.Sound replaced) {c : Chain} {k : Nat} (hc : c ∈ s.chains)
    (hk : k + 1 < c.kinds.length) : s.Rises (c.first + k) (c.first + k + 1) := by
  obtain ⟨lo, hi, rising⟩ := h.rising hc
  have le := List.pairwise_iff_getElem.1 rising.pairwise k (k + 1) (by omega) hk (Nat.lt_succ_self k)
  have occurs := Occurs.of_lt hc (Nat.lt_of_succ_lt hk)
  have occurs' := Occurs.of_lt hc hk
  refine ⟨⟨_, _, _, occurs⟩, ⟨_, _, _, occurs'⟩, ?_⟩
  rw [Nat.add_assoc, occurs.rank_eq h, occurs'.rank_eq h]
  rcases lt_or_eq_of_le le with lt | eq
  · exact Prod.Lex.toLex_lt_toLex.2 (.inl lt)
  · refine Prod.Lex.toLex_lt_toLex.2 (.inr ⟨eq, ?_⟩)
    exact Prod.Lex.toLex_lt_toLex.2 (.inr ⟨rfl, by omega⟩)

end Sound

/-- The function reads the uses of paths off the actions of one kind; swap space has no path. -/
def Reads (f : Action × Nat → Option PathUse) (kind : String → ActionKind) : Prop :=
  ∀ a i u, f (a, i) = some u ↔
    u.path ≠ swapMountpoint ∧ a.kind = kind u.path ∧ a.sid = u.sid ∧ i = u.place

theorem exists_reads_mount (actions : List Action) : ∃ f, Reads f .mount ∧
    mounts actions = actions.zipIdx.filterMap f := by
  refine ⟨_, fun a i u => ⟨fun hu => ?_, ?_⟩, rfl⟩
  · dsimp only at hu
    split at hu
    · next path hk =>
      split at hu
      · cases hu
      · next ne =>
        obtain rfl := Option.some.inj hu
        exact ⟨ne, hk, rfl, rfl⟩
    · cases hu
  · rintro ⟨ne, hk, sid, place⟩
    simp [hk, ne, sid, place]

theorem exists_reads_unmount (actions : List Action) : ∃ f, Reads f .unmount ∧
    unmounts actions = actions.zipIdx.filterMap f := by
  refine ⟨_, fun a i u => ⟨fun hu => ?_, ?_⟩, rfl⟩
  · dsimp only at hu
    split at hu
    · next path hk =>
      split at hu
      · cases hu
      · next ne =>
        obtain rfl := Option.some.inj hu
        exact ⟨ne, hk, rfl, rfl⟩
    · cases hu
  · rintro ⟨ne, hk, sid, place⟩
    simp [hk, ne, sid, place]

namespace Reads

variable {f : Action × Nat → Option PathUse} {kind : String → ActionKind}

theorem mem_iff (hf : Reads f kind) (h : s.Sound replaced) {u : PathUse} :
    u ∈ s.actions.zipIdx.filterMap f ↔
      u.path ≠ swapMountpoint ∧ ∃ c k, s.Occurs u.place c k (kind u.path) ∧ c.sid = u.sid := by
  simp only [mem_filterMap_zipIdx, h.getElem?_actions, hf _ _ u]
  constructor
  · rintro ⟨_, _, ⟨c, k, _, occurs, rfl⟩, ne, rfl, sid, rfl⟩
    exact ⟨ne, c, k, occurs, sid⟩
  · rintro ⟨ne, c, k, occurs, sid⟩
    exact ⟨_, _, ⟨c, k, _, occurs, rfl⟩, ne, rfl, sid, rfl⟩

/-- What is read off the actions one by one has different places. -/
theorem places_ne (hf : Reads f kind) (actions : List Action) :
    (actions.zipIdx.filterMap f).Pairwise fun a b => a.place ≠ b.place := by
  have places : actions.zipIdx.Pairwise fun x y => x.2 ≠ y.2 := by
    rw [← List.pairwise_map, List.zipIdx_map_snd]
    exact List.nodup_range'
  refine places.filterMap f fun x y ne a ha b hb same => ne ?_
  rw [((hf _ _ a).1 ha).2.2.2, ((hf _ _ b).1 hb).2.2.2, same]

end Reads

/-- Of two neighbors in an ordered list the first is before the second. -/
theorem of_mem_inSequence {α : Type} {f : α → Nat} {r : α → α → Prop} {l : List α}
    (h : l.Pairwise r) {i j : Nat} (hd : (i, j) ∈ inSequence (l.map f)) :
    ∃ a ∈ l, ∃ b ∈ l, r a b ∧ f a = i ∧ f b = j := by
  obtain ⟨k, hk, same⟩ := List.getElem_of_mem hd
  simp only [inSequence, List.length_zip, List.length_tail, List.length_map] at hk
  simp only [inSequence, List.getElem_zip, List.getElem_tail, List.getElem_map, Prod.mk.injEq] at same
  have lt : k + 1 < l.length := by omega
  exact ⟨_, List.getElem_mem _, _, List.getElem_mem lt,
    List.pairwise_iff_getElem.1 h k (k + 1) (by omega) lt (Nat.lt_succ_self k), same⟩

theorem mountsBefore_iff {a b : PathUse} : mountsBefore a b = true ↔
    toLex (a.path, toLex (a.sid, a.place)) ≤ toLex (b.path, toLex (b.sid, b.place)) := by
  simp only [Prod.Lex.toLex_le_toLex, mountsBefore]
  split
  · next same => simp [same]
  · next ne => simp [ne]

theorem unmountsBefore_iff {a b : PathUse} : unmountsBefore a b = true ↔
    toLex (OrderDual.toDual a.path, toLex (a.sid, a.place)) ≤
      toLex (OrderDual.toDual b.path, toLex (b.sid, b.place)) := by
  simp only [Prod.Lex.toLex_le_toLex, unmountsBefore]
  split
  · next same => simp [same]
  · next ne => simp [ne]

theorem sorted_by_key {κ : Type} [LinearOrder κ] {before : PathUse → PathUse → Bool}
    {key : PathUse → κ} (h : ∀ a b, before a b = true ↔ key a ≤ key b) (l : List PathUse) :
    (l.mergeSort before).Pairwise fun a b => key a ≤ key b := by
  refine (List.pairwise_mergeSort (fun a b c hab hbc => ?_) (fun a b => ?_) l).imp (h _ _).1
  · exact (h a c).2 (le_trans ((h a b).1 hab) ((h b c).1 hbc))
  · simpa [h] using le_total (key a) (key b)

/-- Neighbors in a list that is sorted by keys. -/
theorem of_neighbors {κ : Type} [LinearOrder κ] {before : PathUse → PathUse → Bool}
    {key : PathUse → κ} (h : ∀ a b, before a b = true ↔ key a ≤ key b) {l : List PathUse}
    (distinct : l.Pairwise fun a b => a.place ≠ b.place) {i j : Nat}
    (hd : (i, j) ∈ inSequence ((l.mergeSort before).map PathUse.place)) :
    ∃ a ∈ l, ∃ b ∈ l, (key a ≤ key b ∧ a.place ≠ b.place) ∧ a.place = i ∧ b.place = j := by
  have distinct' := distinct.perm (List.mergeSort_perm l before).symm fun h => h.symm
  obtain ⟨a, ha, b, hb, rest⟩ := of_mem_inSequence ((sorted_by_key h l).and distinct') hd
  exact ⟨a, List.mem_mergeSort.1 ha, b, List.mem_mergeSort.1 hb, rest⟩

/-- Uses of paths that are sorted by keys of the paths go up if their actions do with the keys. -/
theorem Reads.rises_of_neighbors {f : Action × Nat → Option PathUse} {kind : String → ActionKind}
    (hf : Reads f kind) (h : s.Sound replaced) {κ : Type} [LinearOrder κ]
    {before : PathUse → PathUse → Bool} {key : String → κ}
    (order : ∀ a b, before a b = true ↔ toLex (key a.path, toLex (a.sid, a.place)) ≤
      toLex (key b.path, toLex (b.sid, b.place)))
    (lt : ∀ {path path' phase phase' height height'}, key path < key path' →
      (kind path).key phase height < (kind path').key phase' height')
    (eq : ∀ {path path' phase phase' height height'}, key path = key path' →
      (kind path).key phase height = (kind path').key phase' height') {i j : Nat}
    (hd : (i, j) ∈ inSequence
      (((s.actions.zipIdx.filterMap f).mergeSort before).map PathUse.place)) : s.Rises i j := by
  obtain ⟨a, ha, b, hb, ⟨le, ne⟩, rfl, rfl⟩ := of_neighbors order (hf.places_ne _) hd
  obtain ⟨_, c, k, occurs, sid⟩ := (hf.mem_iff h).1 ha
  obtain ⟨_, c', k', occurs', sid'⟩ := (hf.mem_iff h).1 hb
  refine ⟨⟨_, _, _, occurs⟩, ⟨_, _, _, occurs'⟩, ?_⟩
  rw [occurs.rank_eq h, occurs'.rank_eq h, sid, sid']
  rcases Prod.Lex.toLex_le_toLex.1 le with before | ⟨same, le⟩
  · exact Prod.Lex.toLex_lt_toLex.2 (.inl (lt before))
  · refine Prod.Lex.toLex_lt_toLex.2 (.inr ⟨eq same, lt_of_le_of_ne le fun same => ne ?_⟩)
    exact congrArg (fun x => (ofLex x).2) same

namespace Sound

theorem mem_mounts (h : s.Sound replaced) {u : PathUse} : u ∈ mounts s.actions ↔
    u.path ≠ swapMountpoint ∧ ∃ c k, s.Occurs u.place c k (.mount u.path) ∧ c.sid = u.sid := by
  obtain ⟨f, hf, eq⟩ := exists_reads_mount s.actions
  rw [eq, hf.mem_iff h]

theorem mem_unmounts (h : s.Sound replaced) {u : PathUse} : u ∈ unmounts s.actions ↔
    u.path ≠ swapMountpoint ∧ ∃ c k, s.Occurs u.place c k (.unmount u.path) ∧ c.sid = u.sid := by
  obtain ⟨f, hf, eq⟩ := exists_reads_unmount s.actions
  rw [eq, hf.mem_iff h]

theorem mounts_rise (h : s.Sound replaced) {i j : Nat}
    (hd : (i, j) ∈ inSequence (((mounts s.actions).mergeSort mountsBefore).map PathUse.place)) :
    s.Rises i j := by
  obtain ⟨f, hf, eq⟩ := exists_reads_mount s.actions
  rw [eq] at hd
  refine hf.rises_of_neighbors h (fun a b => mountsBefore_iff) ActionKind.key_mount_lt ?_ hd
  rintro path _ phase phase' height height' rfl
  rfl

theorem unmounts_rise (h : s.Sound replaced) {i j : Nat}
    (hd : (i, j) ∈ inSequence (((unmounts s.actions).mergeSort unmountsBefore).map PathUse.place)) :
    s.Rises i j := by
  obtain ⟨f, hf, eq⟩ := exists_reads_unmount s.actions
  rw [eq] at hd
  refine hf.rises_of_neighbors h (fun a b => unmountsBefore_iff) ActionKind.key_unmount_lt ?_ hd
  intro path path' phase phase' height height' same
  rw [OrderDual.toDual_inj.1 same]
  rfl

/-! ### Every rule goes up -/

/-- What is farther from the data than something else is no filesystem. -/
theorem ne_filesystem_of_height {n : Nat} {d : Device} (h : n < d.attributes.height) :
    d.kind ≠ .filesystem := by
  intro hk
  obtain ⟨fs, ha⟩ := Devicegraph.attributes_of_isFilesystem hk
  simp [ha, Attributes.height] at h

/-- Space is freed early. -/
theorem staged_frees (h : s.Sound replaced) {sid : Sid} {i : Nat} (hi : i ∈ s.frees sid)
    {old : Device} (ho : s.lhs.find? sid = some old) : s.Staged i (1 + old.attributes.height) := by
  rcases h.mem_frees.1 hi with ⟨c, hc, rfl⟩ | resizing
  · exact h.staged_deletes_last hc ho
  · obtain ⟨old', new, _, _, stays, _⟩ := resizing.stays h
    obtain rfl := Option.some.inj (ho.symm.trans stays.before)
    rw [(h.settled.inPlace stays).height_eq]
    exact h.staged_resizing resizing stays.after

/-- Space is used late. -/
theorem staged_uses (h : s.Sound replaced) {sid : Sid} {i : Nat} (hi : i ∈ s.uses sid)
    {new : Device} (hn : s.rhs.find? sid = some new) : s.Staged i (10 - new.attributes.height) := by
  rcases h.mem_uses.1 hi with ⟨c, hc, rfl⟩ | resizing
  · exact h.staged_creates_first hc hn
  · exact h.staged_resizing resizing hn

/-- A resized partition is as far from the data before as after. -/
theorem height_resizing (h : s.Sound replaced) {sid : Sid} {mode : ResizeMode} {i : Nat}
    (hi : s.Resizing i sid mode) : ∃ old new, s.lhs.find? sid = some old ∧
      s.rhs.find? sid = some new ∧ old.attributes.height = new.attributes.height := by
  obtain ⟨old, new, _, _, stays, _⟩ := hi.stays h
  exact ⟨old, new, stays.before, stays.after, (h.settled.inPlace stays).height_eq⟩

/-- The ranks of the places go up along every rule. -/
theorem rises_of_precedes (h : s.Sound replaced) {i j : Nat} (hp : s.Precedes i j) :
    s.Rises i j := by
  cases hp with
  | link hc hk => exact h.link_rises hc hk
  | @creation sid parent c above hc hp ha =>
    obtain ⟨d, hd⟩ := h.rhs.child_found hp
    obtain ⟨p, hpd⟩ := h.rhs.parent_found hp
    have lt := h.rhs.height_lt hd hpd hp
    have le := p.attributes.height_le
    exact (h.staged_creates_last ha hpd (ne_filesystem_of_height lt)).rises h
      (h.staged_creates_first hc hd) (by omega)
  | @deletion sid parent c above hc hp ha =>
    obtain ⟨d, hd⟩ := h.lhs.child_found hp
    obtain ⟨p, hpd⟩ := h.lhs.parent_found hp
    have lt := h.lhs.height_lt hd hpd hp
    exact (h.staged_deletes_last hc hd).rises h
      (h.staged_deletes_first ha hpd (ne_filesystem_of_height lt)) (by omega)
  | @again sid c c' hc hc' =>
    obtain ⟨old, goes, _⟩ := h.of_deletes? hc
    obtain ⟨new, comes, _⟩ := h.of_creates? hc'
    have le := old.attributes.height_le
    have le' := new.attributes.height_le
    exact (h.staged_deletes_last hc goes.before).rises h
      (h.staged_creates_first hc' comes.after) (by omega)
  | @space parent x y i j hx hy hi hj =>
    obtain ⟨old, ho⟩ := h.lhs.child_found hx
    obtain ⟨new, hn⟩ := h.rhs.child_found hy
    have le := old.attributes.height_le
    have le' := new.attributes.height_le
    exact (h.staged_frees hi ho).rises h (h.staged_uses hj hn) (by omega)
  | @grow sid device mode i j hd hi hj =>
    obtain ⟨p, hp⟩ := h.rhs.parent_found hd
    obtain ⟨d, hc⟩ := h.rhs.child_found hd
    have lt := h.rhs.height_lt hc hp hd
    have le := p.attributes.height_le
    refine (h.staged_resizing hi hp).rises h (h.staged_following hj) ?_
    rw [if_pos rfl]
    split <;> omega
  | @shrink sid device mode i j hd hi hj =>
    obtain ⟨p, hp⟩ := h.rhs.parent_found hd
    obtain ⟨d, hc⟩ := h.rhs.child_found hd
    have lt := h.rhs.height_lt hc hp hd
    have le := p.attributes.height_le
    refine (h.staged_following hi).rises h (h.staged_resizing hj hp) ?_
    rw [if_neg (by simp)]
    split <;> omega
  | @gone x sid mode c j hx hc hj =>
    obtain ⟨old, ho⟩ := h.lhs.child_found hx
    obtain ⟨p, q, hp, hq, same⟩ := h.height_resizing hj
    have lt := h.lhs.height_lt ho hp hx
    have le := p.attributes.height_le
    refine (h.staged_deletes_last hc ho).rises h (h.staged_resizing hj hq) ?_
    split <;> omega
  | @made x sid mode c i hx hi hc =>
    obtain ⟨new, hn⟩ := h.rhs.child_found hx
    obtain ⟨p, q, hp, hq, same⟩ := h.height_resizing hi
    have lt := h.rhs.height_lt hn hq hx
    have le := q.attributes.height_le
    refine (h.staged_resizing hi hq).rises h (h.staged_creates_first hc hn) ?_
    split <;> omega
  | @beforeExtended x extended i j hx hi hj =>
    obtain ⟨old, e, ho, he, below, above⟩ := hx.heights
    have notFilesystem : e.kind ≠ .filesystem := ne_filesystem_of_height (n := 1) (by omega)
    refine (h.staged_frees hi ho).rises h (m := 3) ?_ (by omega)
    rcases hj with ⟨c, hc, rfl⟩ | hj
    · simpa [above] using h.staged_deletes_first hc he notFilesystem
    · obtain ⟨p, q, hp, hq, same⟩ := h.height_resizing hj
      obtain rfl := Option.some.inj (he.symm.trans hp)
      simpa [← same, above] using h.staged_resizing hj hq
  | @afterExtended x extended i j hx hi hj =>
    obtain ⟨new, e, hn, he, below, above⟩ := hx.heights
    have notFilesystem : e.kind ≠ .filesystem := ne_filesystem_of_height (n := 1) (by omega)
    have used := h.staged_uses hj hn
    rw [below] at used
    refine Staged.rises h (n := 8) ?_ used (by omega)
    rcases hi with ⟨c, hc, rfl⟩ | hi
    · simpa [above] using h.staged_creates_last hc he notFilesystem
    · simpa [above] using h.staged_resizing hi he
  | mounting hd =>
    simp only [mountOrder, List.mem_append, List.mem_flatMap, List.mem_map, List.mem_filter,
      Prod.mk.injEq] at hd
    rcases hd with (hd | hd) | ⟨u, hu, m, ⟨hm, _⟩, rfl, rfl⟩
    · exact h.mounts_rise hd
    · exact h.unmounts_rise hd
    · obtain ⟨_, c, k, occurs, _⟩ := h.mem_unmounts.1 hu
      obtain ⟨_, c', k', occurs', _⟩ := h.mem_mounts.1 hm
      exact occurs.rises h occurs' (by simp)

theorem lt_length_of_taken (h : s.Sound replaced) {i : Nat} (hi : s.Taken i) :
    i < s.actions.length := by
  obtain ⟨c, k, kind, occurs⟩ := hi
  exact (List.getElem?_eq_some_iff.1 (h.getElem?_actions.2 ⟨c, k, kind, occurs, rfl⟩)).1

end Sound

end Setting

/-! ### Plans -/

variable {lhs rhs : Devicegraph}

theorem within_eq_ok {α : Type} {text : String} {x : Except Failure α} {a : α} :
    within text x = .ok a ↔ x = .ok a := by
  cases x <;> simp [within]

/-- A plan takes two devicegraphs that pass their checks, an actiongraph and an order of it. -/
theorem between_eq_ok {p : Plan} : between lhs rhs = .ok p ↔
    lhs.check = .ok () ∧ rhs.check = .ok () ∧
      ∃ g order, actiongraph lhs rhs = .ok g ∧ g.order = .ok order ∧ ⟨lhs, rhs, g, order⟩ = p := by
  simp only [between, bind_eq_ok, within_eq_ok, pure_eq_ok]
  constructor
  · rintro ⟨_, hl, _, hr, g, hg, order, ho, rfl⟩
    exact ⟨hl, hr, g, order, hg, ho, rfl⟩
  · rintro ⟨hl, hr, g, order, hg, ho, rfl⟩
    exact ⟨(), hl, (), hr, g, hg, order, ho, rfl⟩

/-- Two valid devicegraphs have an actiongraph. -/
theorem actiongraph_spec (hl : lhs.Valid) (hr : rhs.Valid) : ∃ (s : Setting) (replaced : List Sid)
    (dependencies : List (Nat × Nat)), s.lhs = lhs ∧ s.rhs = rhs ∧ s.Sound replaced ∧
      actiongraph lhs rhs = .ok ⟨s.actions, dependencies⟩ ∧
      ∀ i j, (i, j) ∈ dependencies ↔ s.Precedes i j := by
  obtain ⟨chains, hc⟩ := chains_total hl hr
  obtain ⟨replaced, hreplaced⟩ := replaced_total hl hr
  have sound : Setting.Sound ⟨lhs, rhs, chains⟩ replaced := ⟨hl, hr, hreplaced, hc⟩
  obtain ⟨dependencies, hd, mem⟩ := sound.dependencies_spec
  refine ⟨_, replaced, dependencies, rfl, rfl, sound, ?_, mem⟩
  simp only [actiongraph, hc, hd, bind, Except.bind, pure, Except.pure]

/-- Whatever precedes along the dependencies has the lower rank. -/
theorem rank_lt_of_transGen {s : Setting} {replaced : List Sid} (h : s.Sound replaced)
    {dependencies : List (Nat × Nat)} (mem : ∀ i j, (i, j) ∈ dependencies ↔ s.Precedes i j)
    {i j : Nat} (hij : Relation.TransGen (fun i j => (i, j) ∈ dependencies) i j) :
    s.rank i < s.rank j := by
  induction hij with
  | single hd => exact (h.rises_of_precedes ((mem _ _).1 hd)).rank_lt
  | tail _ hd ih => exact lt_trans ih (h.rises_of_precedes ((mem _ _).1 hd)).rank_lt

/-- The actions of two valid devicegraphs can be put in order. -/
theorem order_spec {s : Setting} {replaced : List Sid} (h : s.Sound replaced)
    {dependencies : List (Nat × Nat)} (mem : ∀ i j, (i, j) ∈ dependencies ↔ s.Precedes i j) :
    ∃ order, Actiongraph.order ⟨s.actions, dependencies⟩ = .ok order ∧
      order.Perm (List.range s.actions.length) ∧ Follows s.Precedes order := by
  have rises : ∀ d ∈ dependencies, s.Rises d.1 d.2 := fun d hd =>
    h.rises_of_precedes ((mem d.1 d.2).1 hd)
  have inside : ∀ d ∈ dependencies, d.1 < s.actions.length := fun d hd =>
    h.lt_length_of_taken (rises d hd).source
  obtain ⟨order, ho⟩ := Actiongraph.order_total (g := ⟨s.actions, dependencies⟩) inside
    fun d hd => (rises d hd).rank_lt
  obtain ⟨perm, follows⟩ := Actiongraph.of_order inside ho
  exact ⟨order, ho, perm, fun earlier j later cut i hp => follows earlier j later cut i ((mem i j).2 hp)⟩

/-- Two checked devicegraphs have an actiongraph, by the rules, and an order of it. -/
theorem ordered_of_check (hl : lhs.check = .ok ()) (hr : rhs.check = .ok ()) :
    ∃ (s : Setting) (replaced : List Sid) (dependencies : List (Nat × Nat)) (order : List Nat),
      s.lhs = lhs ∧ s.rhs = rhs ∧ s.Sound replaced ∧
      actiongraph lhs rhs = .ok ⟨s.actions, dependencies⟩ ∧
      (∀ i j, (i, j) ∈ dependencies ↔ s.Precedes i j) ∧
      Actiongraph.order ⟨s.actions, dependencies⟩ = .ok order ∧
      order.Perm (List.range s.actions.length) ∧ Follows s.Precedes order := by
  obtain ⟨s, replaced, dependencies, rfl, rfl, sound, hg, mem⟩ :=
    actiongraph_spec (Devicegraph.valid_of_check hl) (Devicegraph.valid_of_check hr)
  obtain ⟨order, ho, perm, follows⟩ := order_spec sound mem
  exact ⟨s, replaced, dependencies, order, rfl, rfl, sound, hg, mem, ho, perm, follows⟩

/-- A disk with one partition and a filesystem on it. -/
def onePartition (region : Region) : Devicegraph where
  nodes := [⟨⟨4, .filesystem { fsType := .ext4, mountpoints := ["/home"] }, []⟩, 0⟩,
    ⟨⟨3, .partition { name := "/dev/sda1", region := region, id := 0x83 }, []⟩, 0⟩,
    ⟨⟨2, .partitionTable ⟨.gpt⟩, []⟩, 0⟩,
    ⟨⟨1, .disk { name := "/dev/sda", sizeK := 1048576 }, []⟩, 0⟩]
  edges := [⟨⟨3, 0⟩, ⟨4, 0⟩, .user⟩, ⟨⟨2, 0⟩, ⟨3, 0⟩, .subdevice⟩, ⟨⟨1, 0⟩, ⟨2, 0⟩, .user⟩]
  distinct := by simp [Node.ref]
  anchored := by simp [Node.ref]

/-- A plan is made exactly for two devicegraphs that pass their checks. Then the dependencies are the
links of the chains and the pairs of the rules, nothing has to come before itself, and no lookup on
the way fails. -/
theorem between_iff_checked (lhs rhs : Devicegraph) :
    ((∃ p, between lhs rhs = .ok p) ↔ lhs.check = .ok () ∧ rhs.check = .ok ()) ∧
      (lhs.check = .ok () ∧ rhs.check = .ok () → ∃ s : Setting, ∃ g,
        s.lhs = lhs ∧ s.rhs = rhs ∧ chains lhs rhs = .ok s.chains ∧
        actiongraph lhs rhs = .ok g ∧ g.actions = s.actions ∧
        (∀ i j, (i, j) ∈ g.dependencies ↔ s.Precedes i j) ∧
        (∀ i, ¬ Relation.TransGen (fun i j => (i, j) ∈ g.dependencies) i i) ∧
        ∃ order, g.order = .ok order) := by
  refine ⟨⟨?_, ?_⟩, ?_⟩
  · rintro ⟨p, hp⟩
    obtain ⟨hl, hr, _⟩ := between_eq_ok.1 hp
    exact ⟨hl, hr⟩
  · rintro ⟨hl, hr⟩
    obtain ⟨s, _, _, order, rfl, rfl, _, hg, _, ho, _⟩ := ordered_of_check hl hr
    exact ⟨_, between_eq_ok.2 ⟨hl, hr, _, order, hg, ho, rfl⟩⟩
  · rintro ⟨hl, hr⟩
    obtain ⟨s, _, _, order, rfl, rfl, sound, hg, mem, ho, _⟩ := ordered_of_check hl hr
    exact ⟨s, _, rfl, rfl, sound.chains_eq, hg, rfl, mem,
      fun i cycle => lt_irrefl _ (rank_lt_of_transGen sound mem cycle), order, ho⟩

/-- A partition that grows with its filesystem. -/
theorem growth_planned : ∃ s : Setting, ∃ g,
    s.lhs = onePartition ⟨2048, 4096, 512⟩ ∧ s.rhs = onePartition ⟨2048, 8192, 512⟩ ∧
      chains (onePartition ⟨2048, 4096, 512⟩) (onePartition ⟨2048, 8192, 512⟩) = .ok s.chains ∧
      actiongraph (onePartition ⟨2048, 4096, 512⟩) (onePartition ⟨2048, 8192, 512⟩) = .ok g ∧
      g.actions = s.actions ∧ (∀ i j, (i, j) ∈ g.dependencies ↔ s.Precedes i j) ∧
      (∀ i, ¬ Relation.TransGen (fun i j => (i, j) ∈ g.dependencies) i i) ∧
      ∃ order, g.order = .ok order :=
  (between_iff_checked _ _).2 ⟨by cbv, by cbv⟩

end StoragePlan.Plan
