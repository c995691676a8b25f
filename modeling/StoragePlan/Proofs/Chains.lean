import StoragePlan.Plan.Precedence
import StoragePlan.Proofs.Replacement

/-!
# Chains and the places of their actions

`Chain.layOut` lays chains out one after the other, so that every place belongs to one action of one
chain. `Occurs` says which: the action at index `k` of a chain stands at the place `first + k`. The
chains of a plan are those that the fates of the devices ask for (`Chain.Serves`), one for each
phase and device, and all that delete come before all that create.
-/

namespace StoragePlan

namespace Chain

/-! ### Laying out -/

/-- What a chain was made from. -/
def source (c : Chain) : Phase × Sid × List ActionKind := (c.phase, c.sid, c.kinds)

/-- Nothing is laid out that was not asked for, and in the same order. -/
theorem layOut_sublist (place : Nat) (l : List (Phase × Sid × List ActionKind)) :
    ((layOut place l).map source).Sublist l := by
  fun_induction layOut place l with
  | case1 => exact .slnil
  | case2 _ _ _ _ _ _ ih => exact ih.cons _
  | case3 _ _ _ _ _ _ ih => exact ih.cons_cons _

/-- Everything that has actions is laid out. -/
theorem exists_layOut {place : Nat} {l : List (Phase × Sid × List ActionKind)}
    {x : Phase × Sid × List ActionKind} (hx : x ∈ l) (hk : x.2.2 ≠ []) :
    ∃ c ∈ layOut place l, c.source = x := by
  fun_induction layOut place l with
  | case1 => cases hx
  | case2 place phase sid kinds rest empty ih =>
    rcases List.mem_cons.1 hx with rfl | hx
    · exact absurd (List.isEmpty_iff.1 empty) hk
    · exact ih hx
  | case3 place phase sid kinds rest _ ih =>
    rcases List.mem_cons.1 hx with rfl | hx
    · exact ⟨_, List.mem_cons_self, rfl⟩
    · obtain ⟨c, hc, same⟩ := ih hx
      exact ⟨c, List.mem_cons_of_mem _ hc, same⟩

theorem kinds_ne_nil_of_mem_layOut {place : Nat} {l : List (Phase × Sid × List ActionKind)}
    {c : Chain} (hc : c ∈ layOut place l) : c.kinds ≠ [] := by
  fun_induction layOut place l with
  | case1 => cases hc
  | case2 _ _ _ _ _ _ ih => exact ih hc
  | case3 _ _ _ _ _ nonempty ih =>
    rcases List.mem_cons.1 hc with rfl | hc
    · simpa using nonempty
    · exact ih hc

theorem le_first_of_mem_layOut {place : Nat} {l : List (Phase × Sid × List ActionKind)}
    {c : Chain} (hc : c ∈ layOut place l) : place ≤ c.first := by
  fun_induction layOut place l with
  | case1 => cases hc
  | case2 _ _ _ _ _ _ ih => exact ih hc
  | case3 _ _ _ _ _ _ ih =>
    rcases List.mem_cons.1 hc with rfl | hc
    · exact Nat.le_refl _
    · exact Nat.le_trans (Nat.le_add_right _ _) (ih hc)

/-- Each chain ends before the next begins. -/
theorem layOut_consecutive (place : Nat) (l : List (Phase × Sid × List ActionKind)) :
    (layOut place l).Pairwise fun c c' => c.first + c.kinds.length ≤ c'.first := by
  fun_induction layOut place l with
  | case1 => exact .nil
  | case2 _ _ _ _ _ _ ih => exact ih
  | case3 _ _ _ _ _ _ ih => exact List.pairwise_cons.2 ⟨fun c hc => le_first_of_mem_layOut hc, ih⟩

@[simp] theorem length_actions (c : Chain) : c.actions.length = c.kinds.length := by simp [actions]

theorem getElem?_actions {c : Chain} {k : Nat} {a : Action} : c.actions[k]? = some a ↔
    ∃ kind, c.kinds[k]? = some kind ∧ a = ⟨c.sid, kind, k == 0, k + 1 == c.kinds.length⟩ := by
  simp only [actions, List.getElem?_map, List.getElem?_zipIdx, Option.map_map,
    Option.map_eq_some_iff, Function.comp_apply, Nat.zero_add, @eq_comm _ a]

/-- The place of an action is where its chain begins and its index in the chain. -/
theorem getElem?_layOut {place i : Nat} {l : List (Phase × Sid × List ActionKind)} {a : Action} :
    ((layOut place l).flatMap actions)[i]? = some a ↔
      ∃ c ∈ layOut place l, ∃ k, c.actions[k]? = some a ∧ place + i = c.first + k := by
  fun_induction layOut place l generalizing i with
  | case1 => simp
  | case2 _ _ _ _ _ _ ih => exact ih
  | case3 place phase sid kinds rest _ ih =>
    simp only [List.flatMap_cons, List.exists_mem_cons_iff]
    by_cases hi : i < kinds.length
    · rw [List.getElem?_append_left (by simpa using hi)]
      constructor
      · exact fun h => .inl ⟨i, h, rfl⟩
      · rintro (⟨k, hk, same⟩ | ⟨c, hc, k, _, same⟩)
        · rwa [Nat.add_left_cancel same]
        · have := le_first_of_mem_layOut hc
          omega
    · rw [List.getElem?_append_right (by simpa using hi), length_actions, ih]
      constructor
      · rintro ⟨c, hc, k, hk, same⟩
        exact .inr ⟨c, hc, k, hk, by simp only at same; omega⟩
      · rintro (⟨k, hk, same⟩ | ⟨c, hc, k, hk, same⟩)
        · have := (List.getElem?_eq_some_iff.1 hk).1
          simp only [length_actions] at this
          omega
        · exact ⟨c, hc, k, hk, by simp only; omega⟩

end Chain

/-! ### The chains of a plan -/

namespace Plan

open Attempt

variable {lhs rhs : Devicegraph} {replaced : List Sid}

theorem mem_deleted {d : Device} : d ∈ deleted lhs rhs replaced ↔
    Goes lhs rhs replaced d.sid d := by
  simp only [deleted, List.mem_filter, Devicegraph.mem_devices, Bool.or_eq_true, Bool.not_eq_true',
    List.contains_iff_mem, Devicegraph.contains_eq_false]
  constructor <;> exact fun h => ⟨h.1, h.2⟩

theorem mem_created {d : Device} : d ∈ created lhs rhs replaced ↔
    Comes lhs rhs replaced d.sid d := by
  simp only [created, List.mem_filter, Devicegraph.mem_devices, Bool.or_eq_true, Bool.not_eq_true',
    List.contains_iff_mem, Devicegraph.contains_eq_false]
  constructor <;> exact fun h => ⟨h.1, h.2⟩

theorem mem_kept {old new : Device} : (old, new) ∈ kept lhs rhs replaced ↔
    Stays lhs rhs replaced new.sid old new := by
  simp only [kept, List.mem_filterMap, List.mem_filter, Devicegraph.mem_devices,
    Option.map_eq_some_iff, Prod.mk.injEq, Bool.not_eq_true', List.contains_eq_mem,
    decide_eq_false_iff_not]
  constructor
  · rintro ⟨_, ⟨hn, hs⟩, _, ho, rfl, rfl⟩
    exact ⟨ho, hn, hs⟩
  · rintro ⟨ho, hn, hs⟩
    exact ⟨new, ⟨hn, hs⟩, old, ho, rfl, rfl⟩

/-- What takes a device away. -/
def removal : Attributes → ActionKind
  | .disk _ => .nop
  | .partitionTable _ => .deletePartitionTable
  | .partition _ => .deletePartition
  | .filesystem _ => .deleteFilesystem

/-- What brings a device. -/
def addition : Attributes → ActionKind
  | .disk _ => .nop
  | .partitionTable _ => .createPartitionTable
  | .partition _ => .createPartition
  | .filesystem _ => .createFilesystem

/-- A device is taken away at the end of the actions that delete it; only a filesystem is changed
before that. -/
theorem deleteKinds_eq (a : Attributes) : ∃ before, deleteKinds a = before ++ [removal a] ∧
    (∀ kind ∈ before, kind.actionClass = .modify) ∧ (a.kind ≠ .filesystem → before = []) := by
  cases a with
  | disk => exact ⟨[], rfl, by simp, fun _ => rfl⟩
  | partitionTable => exact ⟨[], rfl, by simp, fun _ => rfl⟩
  | partition => exact ⟨[], rfl, by simp, fun _ => rfl⟩
  | filesystem fs =>
    refine ⟨_, rfl, fun kind hk => ?_, fun hk => absurd rfl hk⟩
    rcases List.mem_append.1 hk with hk | hk
    · obtain ⟨_, _, rfl⟩ := List.mem_map.1 hk
      rfl
    · unfold fstabKinds at hk
      split at hk <;> simp at hk
      rw [hk]
      rfl

/-- A device is brought at the beginning of the actions that create it; what comes after that is
about paths only for a filesystem. -/
theorem createKinds_eq (a : Attributes) : ∃ after, createKinds a = addition a :: after ∧
    (∀ kind ∈ after, kind.actionClass = .modify) ∧
      (a.kind ≠ .filesystem → ∀ kind ∈ after, kind = .setPartitionId ∨ kind = .setBoot) := by
  cases a with
  | disk => exact ⟨[], rfl, by simp, by simp⟩
  | partitionTable => exact ⟨[], rfl, by simp, by simp⟩
  | partition p =>
    have marks : ∀ kind ∈ (if p.id = p.type.defaultId then [] else [ActionKind.setPartitionId]) ++
        if p.boot then [ActionKind.setBoot] else [],
        kind = .setPartitionId ∨ kind = .setBoot := by
      intro kind hk
      split_ifs at hk <;> simp at hk <;> simp [hk]
    refine ⟨_, rfl, fun kind hk => ?_, fun _ => marks⟩
    rcases marks kind hk with rfl | rfl <;> rfl
  | filesystem fs =>
    refine ⟨_, rfl, fun kind hk => ?_, fun hk => absurd rfl hk⟩
    rcases List.mem_append.1 hk with hk | hk
    · obtain ⟨_, _, rfl⟩ := List.mem_map.1 hk
      rfl
    · unfold fstabKinds at hk
      split at hk <;> simp at hk
      rw [hk]
      rfl

theorem resizePartition_notMem_deleteKinds (a : Attributes) (mode : ResizeMode) :
    .resizePartition mode ∉ deleteKinds a := by
  cases a <;> simp [deleteKinds, fstabKinds]

theorem resizePartition_notMem_createKinds (a : Attributes) (mode : ResizeMode) :
    .resizePartition mode ∉ createKinds a := by
  cases a <;> simp [createKinds, fstabKinds]

theorem deleteKinds_ne_nil (a : Attributes) : deleteKinds a ≠ [] := by
  obtain ⟨before, same, _⟩ := deleteKinds_eq a
  simp [same]

theorem createKinds_ne_nil (a : Attributes) : createKinds a ≠ [] := by
  obtain ⟨after, same, _⟩ := createKinds_eq a
  simp [same]

theorem changeKinds_total (hr : rhs.Valid) {sid : Sid} {old new : Device}
    (stays : Stays lhs rhs replaced sid old new) :
    ∃ kinds, changeKinds lhs rhs old new = .ok kinds := by
  unfold changeKinds
  split
  · exact ⟨_, rfl⟩
  · next n _ ha =>
    obtain rfl := Devicegraph.sid_of_find? stays.after
    have found := Devicegraph.filesystem_eq_ok.2 ⟨new, stays.after, ha⟩
    exact bind_total (filesystemResize?_total lhs hr found) fun _ _ => ⟨_, rfl⟩
  · exact ⟨_, rfl⟩

theorem chains_eq_ok {cs : List Chain} : chains lhs rhs = .ok cs ↔
    ∃ replaced changes, Plan.replaced lhs rhs = .ok replaced ∧
      (kept lhs rhs replaced).mapM (fun x => do
        return (Phase.change, x.2.sid, ← changeKinds lhs rhs x.1 x.2)) = .ok changes ∧
      cs = Chain.layOut 0
        ((deleted lhs rhs replaced).map (fun d => (.delete, d.sid, deleteKinds d.attributes)) ++
        changes ++
        (created lhs rhs replaced).map (fun d => (.create, d.sid, createKinds d.attributes))) := by
  simp only [chains, bind_eq_ok, pure_eq_ok]
  constructor
  · rintro ⟨replaced, h, changes, hc, rfl⟩
    exact ⟨replaced, changes, h, hc, rfl⟩
  · rintro ⟨replaced, changes, h, hc, rfl⟩
    exact ⟨replaced, h, changes, hc, rfl⟩

theorem chains_total (hl : lhs.Valid) (hr : rhs.Valid) : ∃ cs, chains lhs rhs = .ok cs := by
  refine bind_total (replaced_total hl hr) fun replaced _ => ?_
  refine bind_total (mapM_total fun x hx => ?_) fun _ _ => ⟨_, rfl⟩
  exact bind_total (changeKinds_total hr (mem_kept.1 hx)) fun _ _ => ⟨_, rfl⟩

/-- The chain does what the fate of its device asks for. -/
def Serves (lhs rhs : Devicegraph) (replaced : List Sid) :
    Phase × Sid × List ActionKind → Prop
  | (.delete, sid, kinds) => ∃ old, Goes lhs rhs replaced sid old ∧
      kinds = deleteKinds old.attributes
  | (.change, sid, kinds) => ∃ old new, Stays lhs rhs replaced sid old new ∧
      changeKinds lhs rhs old new = .ok kinds
  | (.create, sid, kinds) => ∃ new, Comes lhs rhs replaced sid new ∧
      kinds = createKinds new.attributes

end Plan

/-- Phases are laid out in this order. -/
def Phase.rank : Phase → Nat
  | delete => 0
  | change => 1
  | create => 2

/-- The one chain is laid out before the other: by phase, then by sid. -/
structure Chain.Before (c c' : Chain) : Prop where
  order : c.phase.rank < c'.phase.rank ∨ c.phase = c'.phase ∧ c.sid < c'.sid
  apart : c.first + c.kinds.length ≤ c'.first

namespace Plan.Setting

open Attempt

/-- The chains are those of two valid devicegraphs. -/
structure Sound (s : Setting) (replaced : List Sid) : Prop where
  lhs : s.lhs.Valid
  rhs : s.rhs.Valid
  replaced_eq : Plan.replaced s.lhs s.rhs = .ok replaced
  chains_eq : Plan.chains s.lhs s.rhs = .ok s.chains

/-- The action at the place `i` is the one at the index `k` of the chain `c`. -/
structure Occurs (s : Setting) (i : Nat) (c : Chain) (k : Nat) (kind : ActionKind) : Prop where
  mem : c ∈ s.chains
  kind_eq : c.kinds[k]? = some kind
  place : i = c.first + k

namespace Sound

variable {s : Setting} {replaced : List Sid}

theorem settled (h : s.Sound replaced) : Settled s.lhs s.rhs replaced :=
  settled_of_replaced h.lhs h.rhs h.replaced_eq

theorem chains_eq_layOut (h : s.Sound replaced) : ∃ changes,
    (kept s.lhs s.rhs replaced).mapM (fun x => do
      return (Phase.change, x.2.sid, ← changeKinds s.lhs s.rhs x.1 x.2)) = .ok changes ∧
    s.chains = Chain.layOut 0
      ((deleted s.lhs s.rhs replaced).map (fun d => (.delete, d.sid, deleteKinds d.attributes)) ++
      changes ++
      (created s.lhs s.rhs replaced).map (fun d => (.create, d.sid, createKinds d.attributes))) := by
  obtain ⟨replaced', changes, hr, hc, hs⟩ := chains_eq_ok.1 h.chains_eq
  obtain rfl : replaced = replaced' := Except.ok.inj (h.replaced_eq.symm.trans hr)
  exact ⟨changes, hc, hs⟩

/-- What is laid out is what the fates of the devices ask for. -/
theorem mem_asked_iff {lhs rhs : Devicegraph} {changes : List (Phase × Sid × List ActionKind)}
    (hc : (kept lhs rhs replaced).mapM (fun x => do
      return (Phase.change, x.2.sid, ← changeKinds lhs rhs x.1 x.2)) = .ok changes)
    {x : Phase × Sid × List ActionKind} :
    x ∈ (deleted lhs rhs replaced).map (fun d => (.delete, d.sid, deleteKinds d.attributes)) ++
      changes ++
      (created lhs rhs replaced).map (fun d => (.create, d.sid, createKinds d.attributes)) ↔
      Serves lhs rhs replaced x := by
  obtain ⟨phase, sid, kinds⟩ := x
  simp only [List.mem_append, List.mem_map, mem_deleted, mem_created, mem_mapM hc, Prod.exists,
    mem_kept, bind_eq_ok, pure_eq_ok, Prod.mk.injEq]
  cases phase with
  | delete =>
    simp only [Serves, reduceCtorEq, false_and, and_false, exists_false, or_false, true_and]
    constructor
    · rintro ⟨d, hd, rfl, rfl⟩
      exact ⟨d, hd, rfl⟩
    · rintro ⟨d, hd, rfl⟩
      obtain rfl := Devicegraph.sid_of_find? hd.before
      exact ⟨d, hd, rfl, rfl⟩
  | change =>
    simp only [Serves, reduceCtorEq, false_and, and_false, exists_false, or_false, false_or,
      true_and]
    constructor
    · rintro ⟨old, new, stays, _, hk, rfl, rfl⟩
      exact ⟨old, new, stays, hk⟩
    · rintro ⟨old, new, stays, hk⟩
      obtain rfl := Devicegraph.sid_of_find? stays.after
      exact ⟨old, new, stays, kinds, hk, rfl, rfl⟩
  | create =>
    simp only [Serves, reduceCtorEq, false_and, and_false, exists_false, false_or, true_and]
    constructor
    · rintro ⟨d, hd, rfl, rfl⟩
      exact ⟨d, hd, rfl⟩
    · rintro ⟨d, hd, rfl⟩
      obtain rfl := Devicegraph.sid_of_find? hd.after
      exact ⟨d, hd, rfl, rfl⟩

/-- A chain is laid out exactly if a device needs it and it has actions. -/
theorem exists_chain_iff (h : s.Sound replaced) {x : Phase × Sid × List ActionKind} :
    (∃ c ∈ s.chains, c.source = x) ↔ Serves s.lhs s.rhs replaced x ∧ x.2.2 ≠ [] := by
  obtain ⟨changes, hc, hs⟩ := h.chains_eq_layOut
  rw [hs, ← mem_asked_iff hc]
  constructor
  · rintro ⟨c, hmem, rfl⟩
    exact ⟨(Chain.layOut_sublist _ _).subset (List.mem_map_of_mem hmem),
      Chain.kinds_ne_nil_of_mem_layOut hmem⟩
  · rintro ⟨hx, hk⟩
    exact Chain.exists_layOut hx hk

/-- The changes are those of the kept devices, by ascending sid. -/
theorem changes_ascending {lhs rhs : Devicegraph}
    {changes : List (Phase × Sid × List ActionKind)}
    (hc : (kept lhs rhs replaced).mapM (fun x => do
      return (Phase.change, x.2.sid, ← changeKinds lhs rhs x.1 x.2)) = .ok changes) :
    (∀ x ∈ changes, x.1 = .change) ∧ changes.Pairwise fun x y => x.2.1 < y.2.1 := by
  have kept_ascending : (kept lhs rhs replaced).Pairwise fun x y => x.2.sid < y.2.sid := by
    refine (rhs.devices_ascending.filter _).filterMap _ fun d d' lt x hx y hy => ?_
    simp only [Option.map_eq_some_iff] at hx hy
    obtain ⟨_, _, rfl⟩ := hx
    obtain ⟨_, _, rfl⟩ := hy
    exact lt
  have sids_eq : changes.map (fun x => x.2.1) = (kept lhs rhs replaced).map fun x => x.2.sid := by
    refine map_mapM (fun x y hy => ?_) hc
    simp only [bind_eq_ok, pure_eq_ok] at hy
    obtain ⟨_, _, rfl⟩ := hy
    rfl
  constructor
  · intro x hx
    obtain ⟨_, _, hy⟩ := (mem_mapM hc).1 hx
    simp only [bind_eq_ok, pure_eq_ok] at hy
    obtain ⟨_, _, rfl⟩ := hy
    rfl
  · have ascending : (changes.map fun x => x.2.1).Pairwise (· < ·) := by
      rw [sids_eq, List.pairwise_map]
      exact kept_ascending
    exact List.pairwise_map.1 ascending

/-- The chains are laid out by phase and sid, each ending before the next begins. -/
theorem chains_ascending (h : s.Sound replaced) : s.chains.Pairwise Chain.Before := by
  obtain ⟨changes, hc, hs⟩ := h.chains_eq_layOut
  obtain ⟨changes_phase, ascending⟩ := changes_ascending hc
  have sources : (s.chains.map Chain.source).Pairwise fun x y =>
      x.1.rank < y.1.rank ∨ x.1 = y.1 ∧ x.2.1 < y.2.1 := by
    rw [hs]
    refine List.Pairwise.sublist (Chain.layOut_sublist _ _) ?_
    simp only [List.pairwise_append, List.pairwise_map, List.mem_map, List.mem_append]
    refine ⟨⟨?_, ?_, ?_⟩, ?_, ?_⟩
    · exact (s.lhs.devices_ascending.filter _).imp fun lt => .inr ⟨trivial, lt⟩
    · exact ascending.imp_of_mem fun hx hy lt =>
        .inr ⟨(changes_phase _ hx).trans (changes_phase _ hy).symm, lt⟩
    · rintro _ ⟨d, _, rfl⟩ x hx
      exact .inl (changes_phase x hx ▸ Nat.zero_lt_one)
    · exact (s.rhs.devices_ascending.filter _).imp fun lt => .inr ⟨trivial, lt⟩
    · rintro x hx _ ⟨d, _, rfl⟩
      rcases hx with ⟨d', _, rfl⟩ | hx
      · exact .inl Nat.zero_lt_two
      · exact .inl (changes_phase x hx ▸ Nat.one_lt_two)
  exact (List.pairwise_map.1 sources).and (hs ▸ Chain.layOut_consecutive _ _) |>.imp
    fun ⟨order, apart⟩ => ⟨order, apart⟩

/-- Of two chains one comes before the other. -/
theorem trichotomy (h : s.Sound replaced) {c c' : Chain} (hc : c ∈ s.chains)
    (hc' : c' ∈ s.chains) : c = c' ∨ c.Before c' ∨ c'.Before c := by
  have all : ∀ c ∈ s.chains, ∀ c' ∈ s.chains, c = c' ∨ c.Before c' ∨ c'.Before c := by
    refine List.Pairwise.forall_of_forall_of_flip (fun _ _ => .inl rfl) ?_ ?_
    · exact h.chains_ascending.imp fun before => .inr (.inl before)
    · exact h.chains_ascending.imp fun before => .inr (.inr before)
  exact all c hc c' hc'

/-- A device has one chain for each phase. -/
theorem chain_unique (h : s.Sound replaced) {c c' : Chain} (hc : c ∈ s.chains)
    (hc' : c' ∈ s.chains) (phase : c.phase = c'.phase) (sid : c.sid = c'.sid) : c = c' := by
  rcases h.trichotomy hc hc' with same | ⟨lt, _⟩ | ⟨lt, _⟩
  · exact same
  · simp [phase, sid] at lt
  · simp [phase, sid] at lt

/-- Chains of an earlier phase have earlier places. -/
theorem chain_before (h : s.Sound replaced) {c c' : Chain} (hc : c ∈ s.chains)
    (hc' : c' ∈ s.chains) (lt : c.phase.rank < c'.phase.rank) :
    c.first + c.kinds.length ≤ c'.first := by
  rcases h.trichotomy hc hc' with rfl | ⟨_, le⟩ | ⟨gt | ⟨same, _⟩, _⟩
  · exact absurd lt (Nat.lt_irrefl _)
  · exact le
  · exact absurd lt (Nat.lt_asymm gt)
  · rw [same] at lt
    exact absurd lt (Nat.lt_irrefl _)

end Sound

namespace Occurs

variable {s : Setting} {replaced : List Sid} {i k : Nat} {c : Chain} {kind : ActionKind}

theorem of_lt (hc : c ∈ s.chains) (hk : k < c.kinds.length) :
    s.Occurs (c.first + k) c k c.kinds[k] :=
  ⟨hc, List.getElem?_eq_getElem hk, rfl⟩

theorem index_lt (h : s.Occurs i c k kind) : k < c.kinds.length :=
  (List.getElem?_eq_some_iff.1 h.kind_eq).1

/-- A place belongs to one action of one chain. -/
theorem unique (hs : s.Sound replaced) (h : s.Occurs i c k kind) {c' : Chain} {k' : Nat}
    {kind' : ActionKind} (h' : s.Occurs i c' k' kind') : c = c' ∧ k = k' ∧ kind = kind' := by
  have hk := h.index_lt
  have hk' := h'.index_lt
  have hi := h.place
  have hi' := h'.place
  rcases hs.trichotomy h.mem h'.mem with rfl | ⟨_, le⟩ | ⟨_, le⟩
  · obtain rfl : k = k' := by omega
    exact ⟨rfl, rfl, Option.some.inj (h.kind_eq.symm.trans h'.kind_eq)⟩
  · omega
  · omega

/-- A deletion modifies the device before its last action, which takes it away. -/
theorem removal_or_modify (h : s.Occurs i c k kind) {a : Attributes}
    (kinds_eq : c.kinds = deleteKinds a) :
    i = c.last ∧ kind = removal a ∨ kind.actionClass = .modify := by
  obtain ⟨before, same, modify, _⟩ := deleteKinds_eq a
  have hk := h.kind_eq
  have lt := h.index_lt
  rw [kinds_eq, same] at hk lt
  rw [List.length_append, List.length_singleton, Nat.lt_succ_iff] at lt
  rcases Nat.lt_or_eq_of_le lt with inside | rfl
  · rw [List.getElem?_append_left inside] at hk
    exact .inr (modify kind (List.mem_of_getElem? hk))
  · rw [List.getElem?_concat_length] at hk
    refine .inl ⟨?_, (Option.some.inj hk).symm⟩
    rw [h.place, Chain.last, kinds_eq, same, List.length_append, List.length_singleton]
    omega

/-- A creation brings the device with its first action and modifies it after. -/
theorem addition_or_modify (h : s.Occurs i c k kind) {a : Attributes}
    (kinds_eq : c.kinds = createKinds a) :
    i = c.first ∧ kind = addition a ∨ c.first < i ∧ kind.actionClass = .modify := by
  obtain ⟨after, same, modify, _⟩ := createKinds_eq a
  have hk := h.kind_eq
  have place := h.place
  rw [kinds_eq, same] at hk
  cases k with
  | zero =>
    rw [List.getElem?_cons_zero] at hk
    exact .inl ⟨place, (Option.some.inj hk).symm⟩
  | succ k =>
    rw [List.getElem?_cons_succ] at hk
    exact .inr ⟨by omega, modify kind (List.mem_of_getElem? hk)⟩

end Occurs

/-- What a chain consists of, by its phase and the kind of its device. -/
inductive Shape (s : Setting) (replaced : List Sid) (c : Chain) : Prop
  /-- It deletes a device that goes. -/
  | delete {old : Device} (phase : c.phase = .delete)
      (goes : Goes s.lhs s.rhs replaced c.sid old) (kinds_eq : c.kinds = deleteKinds old.attributes)
  /-- It changes a partition that stays. -/
  | partition {old new : Device} {o n : Partition} (phase : c.phase = .change)
      (stays : Stays s.lhs s.rhs replaced c.sid old new) (ho : old.attributes = .partition o)
      (hn : new.attributes = .partition n) (kinds_eq : c.kinds = partitionChanges o n)
  /-- It changes a filesystem that stays. -/
  | filesystem {old new : Device} {o n : Filesystem} {resize : Option ResizeMode}
      (phase : c.phase = .change) (stays : Stays s.lhs s.rhs replaced c.sid old new)
      (ho : old.attributes = .filesystem o) (hn : new.attributes = .filesystem n)
      (resize_eq : filesystemResize? s.lhs s.rhs c.sid = .ok resize)
      (kinds_eq : c.kinds = filesystemChanges o n resize)
  /-- It creates a device that comes. -/
  | create {new : Device} (phase : c.phase = .create)
      (comes : Comes s.lhs s.rhs replaced c.sid new) (kinds_eq : c.kinds = createKinds new.attributes)

namespace Sound

variable {s : Setting} {replaced : List Sid}

/-- The action at a place. -/
theorem getElem?_actions (h : s.Sound replaced) {i : Nat} {a : Action} :
    s.actions[i]? = some a ↔ ∃ c k kind, s.Occurs i c k kind ∧
      a = ⟨c.sid, kind, k == 0, k + 1 == c.kinds.length⟩ := by
  obtain ⟨changes, hc, hs⟩ := h.chains_eq_layOut
  rw [actions, hs, Chain.getElem?_layOut, ← hs]
  simp only [Chain.getElem?_actions, Nat.zero_add]
  constructor
  · rintro ⟨c, hc, k, ⟨kind, hk, ha⟩, hi⟩
    exact ⟨c, k, kind, ⟨hc, hk, hi⟩, ha⟩
  · rintro ⟨c, k, kind, ⟨hc, hk, hi⟩, ha⟩
    exact ⟨c, hc, k, ⟨kind, hk, ha⟩, hi⟩

theorem find?_chains (h : s.Sound replaced) {phase : Phase} {sid : Sid} {c : Chain} :
    Chain.find? s.chains phase sid = some c ↔ c ∈ s.chains ∧ c.phase = phase ∧ c.sid = sid := by
  have found : ∀ {c}, Chain.find? s.chains phase sid = some c →
      c ∈ s.chains ∧ c.phase = phase ∧ c.sid = sid := fun hf =>
    ⟨List.mem_of_find?_eq_some hf, by simpa using List.find?_some hf⟩
  refine ⟨found, ?_⟩
  rintro ⟨hc, rfl, rfl⟩
  obtain ⟨c', hc'⟩ : ∃ c', Chain.find? s.chains c.phase c.sid = some c' :=
    Option.isSome_iff_exists.1 (List.find?_isSome.2 ⟨c, hc, by simp⟩)
  obtain ⟨mem, phase, sid⟩ := found hc'
  rw [hc', h.chain_unique mem hc phase sid]

/-! The chains by the fates of the devices. -/

theorem serves (h : s.Sound replaced) {c : Chain} (hc : c ∈ s.chains) :
    Serves s.lhs s.rhs replaced c.source := (h.exists_chain_iff.1 ⟨c, hc, rfl⟩).1

theorem exists_chain (h : s.Sound replaced) {phase : Phase} {sid : Sid} {kinds : List ActionKind}
    (hs : Serves s.lhs s.rhs replaced (phase, sid, kinds)) (hk : kinds ≠ []) :
    ∃ c, Chain.find? s.chains phase sid = some c ∧ c.kinds = kinds := by
  obtain ⟨c, hc, source⟩ := h.exists_chain_iff.2 ⟨hs, hk⟩
  obtain ⟨hp, hs, hk⟩ : c.phase = phase ∧ c.sid = sid ∧ c.kinds = kinds := by
    simpa [Chain.source] using source
  exact ⟨c, h.find?_chains.2 ⟨hc, hp, hs⟩, hk⟩

theorem of_deletes? (h : s.Sound replaced) {sid : Sid} {c : Chain} (hc : s.deletes? sid = some c) :
    ∃ old, Goes s.lhs s.rhs replaced sid old ∧ c.kinds = deleteKinds old.attributes := by
  obtain ⟨mem, hp, rfl⟩ := h.find?_chains.1 hc
  have := h.serves mem
  rwa [Chain.source, hp] at this

theorem deletes?_eq_none (h : s.Sound replaced) {sid : Sid}
    (none : ∀ old, ¬Goes s.lhs s.rhs replaced sid old) : s.deletes? sid = .none := by
  refine Option.eq_none_iff_forall_ne_some.2 fun c hc => ?_
  obtain ⟨old, goes, _⟩ := h.of_deletes? hc
  exact none old goes

theorem exists_deletes? (h : s.Sound replaced) {sid : Sid} {old : Device}
    (goes : Goes s.lhs s.rhs replaced sid old) :
    ∃ c, s.deletes? sid = some c ∧ c.kinds = deleteKinds old.attributes :=
  h.exists_chain ⟨old, goes, rfl⟩ (deleteKinds_ne_nil _)

theorem of_creates? (h : s.Sound replaced) {sid : Sid} {c : Chain} (hc : s.creates? sid = some c) :
    ∃ new, Comes s.lhs s.rhs replaced sid new ∧ c.kinds = createKinds new.attributes := by
  obtain ⟨mem, hp, rfl⟩ := h.find?_chains.1 hc
  have := h.serves mem
  rwa [Chain.source, hp] at this

theorem creates?_eq_none (h : s.Sound replaced) {sid : Sid}
    (none : ∀ new, ¬Comes s.lhs s.rhs replaced sid new) : s.creates? sid = .none := by
  refine Option.eq_none_iff_forall_ne_some.2 fun c hc => ?_
  obtain ⟨new, comes, _⟩ := h.of_creates? hc
  exact none new comes

theorem exists_creates? (h : s.Sound replaced) {sid : Sid} {new : Device}
    (comes : Comes s.lhs s.rhs replaced sid new) :
    ∃ c, s.creates? sid = some c ∧ c.kinds = createKinds new.attributes :=
  h.exists_chain ⟨new, comes, rfl⟩ (createKinds_ne_nil _)

theorem shape (h : s.Sound replaced) {c : Chain} (hc : c ∈ s.chains) : s.Shape replaced c := by
  have serves := h.serves hc
  have nonempty : c.kinds ≠ [] := (h.exists_chain_iff.1 ⟨c, hc, rfl⟩).2
  unfold Chain.source at serves
  cases phase : c.phase with
  | delete =>
    rw [phase] at serves
    obtain ⟨old, goes, hk⟩ := serves
    exact .delete phase goes hk
  | create =>
    rw [phase] at serves
    obtain ⟨new, comes, hk⟩ := serves
    exact .create phase comes hk
  | change =>
    rw [phase] at serves
    obtain ⟨old, new, stays, hk⟩ := serves
    unfold changeKinds at hk
    split at hk
    · next ho hn => exact .partition phase stays ho hn (Except.ok.inj hk).symm
    · next ho hn =>
      obtain ⟨resize, hresize, hk⟩ := bind_eq_ok.1 hk
      rw [Devicegraph.sid_of_find? stays.after] at hresize
      exact .filesystem phase stays ho hn hresize (pure_eq_ok.1 hk).symm
    · exact absurd (Except.ok.inj hk).symm nonempty

/-- A device that stays is only modified. -/
theorem modify_of_stays (h : s.Sound replaced) {c : Chain} (hc : c ∈ s.chains) {old new : Device}
    (stays : Stays s.lhs s.rhs replaced c.sid old new) {kind : ActionKind} (hk : kind ∈ c.kinds) :
    kind.actionClass = .modify := by
  cases h.shape hc with
  | delete _ goes => exact absurd goes stays.not_goes
  | create _ comes => exact absurd comes stays.not_comes
  | partition _ _ _ _ kinds_eq =>
    rw [kinds_eq] at hk
    simp only [partitionChanges, List.mem_append, List.mem_map] at hk
    rcases hk with (⟨_, _, rfl⟩ | hk) | hk
    · rfl
    · split at hk <;> simp_all [ActionKind.actionClass]
    · split at hk <;> simp_all [ActionKind.actionClass]
  | filesystem _ _ _ _ _ kinds_eq =>
    rw [kinds_eq] at hk
    simp only [filesystemChanges, List.mem_append, List.mem_map] at hk
    rcases hk with ((((⟨_, _, rfl⟩ | ⟨_, _, rfl⟩) | hk) | hk) | ⟨_, _, rfl⟩) | hk
    · rfl
    · rfl
    · split at hk <;> simp_all [ActionKind.actionClass]
    · split at hk <;> simp_all [ActionKind.actionClass]
    · rfl
    · split at hk <;> simp_all [ActionKind.actionClass]

end Sound

namespace Occurs

variable {s : Setting} {replaced : List Sid} {i k : Nat} {c : Chain} {kind : ActionKind}

/-- A device is created by the first action of the chain that creates it. -/
theorem creation (occurs : s.Occurs i c k kind) (h : s.Sound replaced)
    (hk : kind.actionClass = .create) : s.creates? c.sid = some c ∧ i = c.first := by
  have stays_out : ∀ {old new}, ¬Stays s.lhs s.rhs replaced c.sid old new := fun stays => by
    have := h.modify_of_stays occurs.mem stays (List.mem_of_getElem? occurs.kind_eq)
    simp [hk] at this
  cases h.shape occurs.mem with
  | @delete old phase goes kinds_eq =>
    rcases occurs.removal_or_modify kinds_eq with ⟨_, rfl⟩ | modify
    · cases ha : old.attributes <;> simp [ha, removal, ActionKind.actionClass] at hk
    · simp [hk] at modify
  | partition _ stays => exact absurd stays stays_out
  | filesystem _ stays => exact absurd stays stays_out
  | create phase comes kinds_eq =>
    rcases occurs.addition_or_modify kinds_eq with ⟨first, _⟩ | ⟨_, modify⟩
    · exact ⟨h.find?_chains.2 ⟨occurs.mem, phase, rfl⟩, first⟩
    · simp [hk] at modify

/-- A device is deleted by the last action of the chain that deletes it. -/
theorem deletion (occurs : s.Occurs i c k kind) (h : s.Sound replaced)
    (hk : kind.actionClass = .delete) : s.deletes? c.sid = some c ∧ i = c.last := by
  have stays_out : ∀ {old new}, ¬Stays s.lhs s.rhs replaced c.sid old new := fun stays => by
    have := h.modify_of_stays occurs.mem stays (List.mem_of_getElem? occurs.kind_eq)
    simp [hk] at this
  cases h.shape occurs.mem with
  | delete phase goes kinds_eq =>
    rcases occurs.removal_or_modify kinds_eq with ⟨last, _⟩ | modify
    · exact ⟨h.find?_chains.2 ⟨occurs.mem, phase, rfl⟩, last⟩
    · simp [hk] at modify
  | partition _ stays => exact absurd stays stays_out
  | filesystem _ stays => exact absurd stays stays_out
  | @create new phase comes kinds_eq =>
    rcases occurs.addition_or_modify kinds_eq with ⟨_, rfl⟩ | ⟨_, modify⟩
    · cases ha : new.attributes <;> simp [ha, addition, ActionKind.actionClass] at hk
    · simp [hk] at modify

end Occurs

end Plan.Setting

end StoragePlan
