import Mathlib.Data.Prod.Lex
import Mathlib.Data.String.Basic
import StoragePlan.Proofs.Precedence

/-!
# Stages of a plan

A rank for the places of a plan that every rule goes up in. The first part of it is the stage of an
action: all unmounts come first, then the work that frees space from the inner devices to the outer
ones, then the work that uses space from the outer devices to the inner ones, then changes that do
neither, and at last the mounts and the table of filesystems. How far out a device is its height.

Within a stage only actions of one chain depend on each other, and mounts and unmounts; the rest of
the rank is the path, downwards for unmounts and upwards for mounts, then the sid and the place.
-/

namespace StoragePlan

namespace Attributes

/-- How far the device is from the data on it. -/
def height : Attributes → Nat
  | .filesystem _ => 0
  | .partition p => if p.type = .logical then 1 else 2
  | .partitionTable _ => 3
  | .disk _ => 4

theorem height_le (a : Attributes) : a.height ≤ 4 := by
  cases a <;> simp only [height]
  all_goals first | omega | split <;> omega

/-- A device that is changed in place keeps its height. -/
theorem InPlace.height_eq {a b : Attributes} (h : a.InPlace b) : a.height = b.height := by
  cases a <;> cases b <;> simp_all [InPlace, height]

end Attributes

/-- A device is closer to the data than the one it sits on. -/
theorem Devicegraph.Valid.height_lt {g : Devicegraph} (h : g.Valid) {child parent : Sid}
    {c p : Device} (hc : g.find? child = some c) (hp : g.find? parent = some p)
    (hs : g.parent? child = some parent) : c.attributes.height < p.attributes.height := by
  have suited := h.suited hc hp hs
  unfold Device.kind at suited
  cases hca : c.attributes <;> cases hpa : p.attributes <;>
    simp_all [Attributes.kind, DeviceKind.validParents, KindSet.contains, Attributes.height]
  all_goals split <;> omega

/-- A logical partition is closer to the data than its extended one. -/
theorem Devicegraph.LogicalIn.heights {g : Devicegraph} {logical extended : Sid}
    (h : g.LogicalIn logical extended) : ∃ l e, g.find? logical = some l ∧
      g.find? extended = some e ∧ l.attributes.height = 1 ∧ e.attributes.height = 2 := by
  obtain ⟨⟨p, hp, hpk⟩, ⟨q, hq, hqk⟩, _⟩ := h
  obtain ⟨e, he, hea⟩ := Devicegraph.partition_eq_ok.1 hp
  obtain ⟨l, hl, hla⟩ := Devicegraph.partition_eq_ok.1 hq
  exact ⟨l, e, hl, he, by simp [hla, Attributes.height, hqk], by simp [hea, Attributes.height, hpk]⟩

namespace ActionKind

/-- When the action is carried out, on a device of the given height. -/
def stage (phase : Phase) (height : Nat) : ActionKind → Nat
  | .unmount _ => 0
  | .resizePartition .shrink | .resizeFilesystem .shrink => 1 + height
  | .resizePartition .grow | .resizeFilesystem .grow => 10 - height
  | .mount _ => 12
  | .updateFstab => if phase = .delete then 1 + height else 13
  | _ =>
    match phase with
    | .delete => 1 + height
    | .change => 11
    | .create => 10 - height

/-- The path that is unmounted. -/
def unmounted : ActionKind → String
  | .unmount path => path
  | _ => ""

/-- The path that is mounted. -/
def mounted : ActionKind → String
  | .mount path => path
  | _ => ""

/-- The stage, the path that is unmounted and the path that is mounted. -/
def key (phase : Phase) (height : Nat) (kind : ActionKind) : ℕ ×ₗ Stringᵒᵈ ×ₗ String :=
  toLex (kind.stage phase height, toLex (OrderDual.toDual kind.unmounted, kind.mounted))

variable {phase : Phase} {height : Nat} {kind kind' : ActionKind}

@[simp] theorem stage_unmount (path : String) : (unmount path).stage phase height = 0 := rfl

@[simp] theorem stage_mount (path : String) : (mount path).stage phase height = 12 := rfl

@[simp] theorem stage_resizePartition (mode : ResizeMode) :
    (resizePartition mode).stage phase height =
      if mode = .shrink then 1 + height else 10 - height := by
  cases mode <;> rfl

@[simp] theorem stage_resizeFilesystem (mode : ResizeMode) :
    (resizeFilesystem mode).stage phase height =
      if mode = .shrink then 1 + height else 10 - height := by
  cases mode <;> rfl

theorem key_lt_of_stage_lt {phase' : Phase} {height' : Nat}
    (h : kind.stage phase height < kind'.stage phase' height') :
    kind.key phase height < kind'.key phase' height' :=
  Prod.Lex.toLex_lt_toLex.2 (.inl h)

/-- Unmounts go from the last path to the first. -/
theorem key_unmount_lt {phase' : Phase} {height' : Nat} {path path' : String} (h : path' < path) :
    (unmount path).key phase height < (unmount path').key phase' height' :=
  Prod.Lex.toLex_lt_toLex.2 (.inr ⟨rfl, Prod.Lex.toLex_lt_toLex.2 (.inl h)⟩)

/-- Mounts go from the first path to the last. -/
theorem key_mount_lt {phase' : Phase} {height' : Nat} {path path' : String} (h : path < path') :
    (mount path).key phase height < (mount path').key phase' height' :=
  Prod.Lex.toLex_lt_toLex.2 (.inr ⟨rfl, Prod.Lex.toLex_lt_toLex.2 (.inr ⟨rfl, h⟩)⟩)

end ActionKind

/-! ### The actions of a chain go up -/

namespace Plan

theorem sortedMountpoints_ascending (fs : Filesystem) :
    (sortedMountpoints fs).Pairwise (· ≤ ·) := by
  have := @List.pairwise_mergeSort String (fun a b => decide (a ≤ b))
    (fun a b c hab hbc => by simpa using le_trans (of_decide_eq_true hab) (of_decide_eq_true hbc))
    (fun a b => by simpa using le_total a b) fs.mountpoints.eraseDups
  simpa [sortedMountpoints] using this

section Rising

variable {phase : Phase} {height : Nat}

/-- The keys of the actions do not go down, and their stages are from `lo` to `hi`. -/
structure Rising (phase : Phase) (height lo hi : Nat) (kinds : List ActionKind) : Prop where
  pairwise : kinds.Pairwise fun a b => a.key phase height ≤ b.key phase height
  within : ∀ kind ∈ kinds, lo ≤ kind.stage phase height ∧ kind.stage phase height ≤ hi

namespace Rising

variable {lo hi lo' hi' : Nat}

theorem nil : Rising phase height lo hi [] := ⟨.nil, by simp⟩

theorem single {kind : ActionKind} (hl : lo ≤ kind.stage phase height)
    (hh : kind.stage phase height ≤ hi) : Rising phase height lo hi [kind] :=
  ⟨List.pairwise_singleton _ _, by simp [hl, hh]⟩

theorem ite {p : Prop} [Decidable p] {kind : ActionKind} (hl : lo ≤ kind.stage phase height)
    (hh : kind.stage phase height ≤ hi) :
    Rising phase height lo hi (if p then [] else [kind]) := by
  split
  · exact nil
  · exact single hl hh

/-- Actions with one key may come in any order. -/
theorem same {kinds : List ActionKind} (kind : ActionKind)
    (h : ∀ kind' ∈ kinds, kind'.key phase height = kind.key phase height)
    (hl : lo ≤ kind.stage phase height) (hh : kind.stage phase height ≤ hi) :
    Rising phase height lo hi kinds := by
  constructor
  · exact List.pairwise_of_forall_mem_list fun a ha b hb => le_of_eq ((h a ha).trans (h b hb).symm)
  · intro kind' hk
    have stage : kind'.stage phase height = kind.stage phase height :=
      congrArg (fun key => (ofLex key).1) (h kind' hk)
    omega

theorem marks {p q : Prop} [Decidable p] [Decidable q] {kind kind' : ActionKind}
    (h : kind.key phase height = kind'.key phase height) (hl : lo ≤ kind'.stage phase height)
    (hh : kind'.stage phase height ≤ hi) : Rising phase height lo hi
      ((if p then [] else [kind]) ++ if q then [] else [kind']) := by
  refine same kind' (fun mark hk => ?_) hl hh
  simp only [List.mem_append, List.mem_ite_nil_left, List.mem_singleton] at hk
  rcases hk with ⟨_, rfl⟩ | ⟨_, rfl⟩
  · exact h
  · rfl

theorem widen {kinds : List ActionKind} (h : Rising phase height lo hi kinds) (hl : lo' ≤ lo)
    (hh : hi ≤ hi') : Rising phase height lo' hi' kinds :=
  ⟨h.pairwise, fun kind hk => ⟨Nat.le_trans hl (h.within kind hk).1,
    Nat.le_trans (h.within kind hk).2 hh⟩⟩

/-- What is carried out up to a stage goes before what comes at later ones. -/
theorem append {before after : List ActionKind} (hb : Rising phase height lo hi before)
    (ha : Rising phase height lo' hi' after) (lt : hi < lo') (hl : lo ≤ lo') (hh : hi ≤ hi') :
    Rising phase height lo hi' (before ++ after) := by
  refine ⟨List.pairwise_append.2 ⟨hb.pairwise, ha.pairwise, fun kind hk kind' hk' => le_of_lt ?_⟩,
    fun kind hk => ?_⟩
  · have := hb.within kind hk
    have := ha.within kind' hk'
    exact ActionKind.key_lt_of_stage_lt (by omega)
  · rcases List.mem_append.1 hk with hk | hk
    · have := hb.within kind hk
      omega
    · have := ha.within kind hk
      omega

theorem unmounts {paths : List String} (h : paths.Pairwise (· ≤ ·)) :
    Rising phase height 0 0 (paths.reverse.map .unmount) := by
  refine ⟨?_, by simp⟩
  rw [List.pairwise_map, List.pairwise_reverse]
  refine h.imp fun le => ?_
  rcases lt_or_eq_of_le le with lt | rfl
  · exact (ActionKind.key_unmount_lt lt).le
  · exact le_refl _

theorem mounts {paths : List String} (h : paths.Pairwise (· ≤ ·)) :
    Rising phase height 12 12 (paths.map .mount) := by
  refine ⟨?_, by simp⟩
  rw [List.pairwise_map]
  refine h.imp fun le => ?_
  rcases lt_or_eq_of_le le with lt | rfl
  · exact (ActionKind.key_mount_lt lt).le
  · exact le_refl _

/-- A resize frees or uses space, unless there is none. -/
theorem resize {f : ResizeMode → ActionKind} (hf : f = .resizePartition ∨ f = .resizeFilesystem)
    (h : height ≤ 4) (mode? : Option ResizeMode) :
    Rising phase height 1 10 (mode?.toList.map f) := by
  cases mode? with
  | none => exact nil
  | some mode =>
    rcases hf with rfl | rfl
    · refine single ?_ ?_ <;> rw [ActionKind.stage_resizePartition] <;> split <;> omega
    · refine single ?_ ?_ <;> rw [ActionKind.stage_resizeFilesystem] <;> split <;> omega

end Rising

end Rising

theorem rising_deleteKinds (a : Attributes) : Rising .delete a.height 0 5 (deleteKinds a) := by
  cases a with
  | disk => exact .single (Nat.zero_le _) (Nat.le_refl _)
  | partitionTable => exact .single (Nat.zero_le _) (Nat.le_succ _)
  | partition p =>
    have := (Attributes.partition p).height_le
    exact .single (Nat.zero_le _) (show 1 + _ ≤ 5 by omega)
  | filesystem fs =>
    -- The table of filesystems and the filesystem itself go at one stage.
    have final : Rising .delete 0 1 1 (fstabKinds fs ++ [.deleteFilesystem]) := by
      refine .same .deleteFilesystem (fun kind hk => ?_) (by decide) (by decide)
      simp only [fstabKinds, List.mem_append, List.mem_ite_nil_left, List.mem_singleton] at hk
      rcases hk with ⟨_, rfl⟩ | rfl <;> rfl
    rw [deleteKinds, List.append_assoc]
    exact (Rising.unmounts (sortedMountpoints_ascending fs)).append final
      Nat.zero_lt_one (Nat.zero_le _) (Nat.zero_le _) |>.widen (Nat.le_refl _) (by omega)

theorem rising_createKinds (a : Attributes) : Rising .create a.height 6 13 (createKinds a) := by
  have le := a.height_le
  cases a with
  | disk => exact .single (Nat.le_refl _) (show 10 - 4 ≤ 13 by omega)
  | partitionTable => exact .single (Nat.le_succ _) (show 10 - 3 ≤ 13 by omega)
  | partition p =>
    simp only [createKinds]
    generalize (Attributes.partition p).height = height at le
    refine .same .createPartition (fun kind hk => ?_) (show 6 ≤ 10 - height by omega)
      (show 10 - height ≤ 13 by omega)
    simp only [List.mem_append, List.mem_ite_nil_left, List.mem_ite_nil_right,
      List.mem_singleton] at hk
    rcases hk with (rfl | ⟨_, rfl⟩) | ⟨_, rfl⟩ <;> rfl
  | filesystem fs =>
    have create : Rising .create 0 6 10 [.createFilesystem] := .single (by decide) (by decide)
    have fstab : Rising .create 0 13 13 (fstabKinds fs) := .ite (by decide) (by decide)
    exact (create.append (.mounts (sortedMountpoints_ascending fs)) (by decide) (by decide)
      (by decide)).append fstab (by decide) (by decide) (by decide)

theorem rising_partitionChanges (o n : Partition) {height : Nat} (h : height ≤ 4) :
    Rising .change height 1 11 (partitionChanges o n) := by
  have marks : Rising .change height 11 11 ((if o.id = n.id then [] else [.setPartitionId]) ++
      if o.boot = n.boot then [] else [.setBoot]) := .marks rfl (Nat.le_refl _) (Nat.le_refl _)
  rw [partitionChanges, List.append_assoc]
  exact (Rising.resize (.inl rfl) h _).append marks (by decide) (by decide) (by decide)

theorem rising_filesystemChanges (o n : Filesystem) (resize : Option ResizeMode) :
    Rising .change 0 0 13 (filesystemChanges o n resize) := by
  have sorted : ∀ (fs : Filesystem) (p : String → Bool),
      ((sortedMountpoints fs).filter p).Pairwise (· ≤ ·) :=
    fun fs p => (sortedMountpoints_ascending fs).filter p
  have marks : Rising .change 0 11 11 ((if o.label = n.label then [] else [.setLabel]) ++
      if o.uuid = n.uuid then [] else [.setUuid]) := .marks rfl (Nat.le_refl _) (Nat.le_refl _)
  have fstab : Rising .change 0 13 13 (if o.mountpoints = n.mountpoints ∧ o.mountBy = n.mountBy ∧
      o.fstabOptions = n.fstabOptions then [] else [.updateFstab]) := .ite (by decide) (by decide)
  simp only [filesystemChanges]
  rw [List.append_assoc (_ ++ _) (if o.label = n.label then _ else _)]
  refine ((((Rising.unmounts (sorted o _)).append (.resize (.inr rfl) (Nat.zero_le _) resize) ?_ ?_
    ?_).append marks ?_ ?_ ?_).append (.mounts (sorted n _)) ?_ ?_ ?_).append fstab ?_ ?_ ?_
  all_goals decide

/-! ### The rank of a place -/

namespace Setting

variable {s : Setting} {replaced : List Sid}

/-- The chain that a place belongs to. -/
def chainAt? (s : Setting) (i : Nat) : Option Chain :=
  s.chains.find? fun c => decide (c.first ≤ i ∧ i < c.first + c.kinds.length)

/-- The height of the device of a chain. -/
def height (s : Setting) (c : Chain) : Nat :=
  (((if c.phase = .delete then s.lhs else s.rhs).find? c.sid).map fun d => d.attributes.height).getD 0

/-- The rank of a place: the key of its action, then the device and the place itself. -/
def rank (s : Setting) (i : Nat) : (ℕ ×ₗ Stringᵒᵈ ×ₗ String) ×ₗ ℕ ×ₗ ℕ :=
  let c := (s.chainAt? i).getD ⟨.delete, 0, [], 0⟩
  toLex ((c.kinds.getD (i - c.first) .nop).key c.phase (s.height c), toLex (c.sid, i))

namespace Occurs

variable {i j k l : Nat} {c c' : Chain} {kind kind' : ActionKind}

theorem rank_eq (h : s.Sound replaced) (occurs : s.Occurs i c k kind) :
    s.rank i = toLex (kind.key c.phase (s.height c), toLex (c.sid, i)) := by
  have hk := occurs.index_lt
  have inside : c.first ≤ i ∧ i < c.first + c.kinds.length := by
    have := occurs.place
    omega
  have at_eq : s.chainAt? i = some c := by
    obtain ⟨c', hc'⟩ := Option.isSome_iff_exists.1 <|
      List.find?_isSome (p := fun c : Chain => decide (c.first ≤ i ∧ i < c.first + c.kinds.length))
        |>.2 ⟨c, occurs.mem, by simpa using inside⟩
    have inside' : c'.first ≤ i ∧ i < c'.first + c'.kinds.length := by
      simpa using List.find?_some hc'
    have hlt : i - c'.first < c'.kinds.length := by omega
    have occurs' : s.Occurs i c' (i - c'.first) c'.kinds[i - c'.first] :=
      ⟨List.mem_of_find?_eq_some hc', List.getElem?_eq_getElem hlt, by omega⟩
    rw [(occurs.unique h occurs').1]
    exact hc'
  have index : i - c.first = k := by
    have := occurs.place
    omega
  simp only [rank, at_eq, Option.getD_some, index, List.getD_eq_getElem?_getD, occurs.kind_eq]

end Occurs

/-- There is an action at the place. -/
def Taken (s : Setting) (i : Nat) : Prop := ∃ c k kind, s.Occurs i c k kind

/-- Two actions, the second at a place of higher rank. -/
structure Rises (s : Setting) (i j : Nat) : Prop where
  source : s.Taken i
  target : s.Taken j
  rank_lt : s.rank i < s.rank j

/-- A later stage has a higher rank. -/
theorem Occurs.rises (h : s.Sound replaced) {i j k l : Nat} {c c' : Chain}
    {kind kind' : ActionKind} (occurs : s.Occurs i c k kind) (occurs' : s.Occurs j c' l kind')
    (lt : kind.stage c.phase (s.height c) < kind'.stage c'.phase (s.height c')) : s.Rises i j := by
  refine ⟨⟨c, k, kind, occurs⟩, ⟨c', l, kind', occurs'⟩, ?_⟩
  rw [occurs.rank_eq h, occurs'.rank_eq h]
  exact Prod.Lex.toLex_lt_toLex.2 (.inl (ActionKind.key_lt_of_stage_lt lt))

/-- The place is in a stage. -/
def Staged (s : Setting) (i n : Nat) : Prop :=
  ∃ c k kind, s.Occurs i c k kind ∧ kind.stage c.phase (s.height c) = n

theorem Staged.rises (h : s.Sound replaced) {i j n m : Nat} (hi : s.Staged i n)
    (hj : s.Staged j m) (lt : n < m) : s.Rises i j := by
  obtain ⟨c, k, kind, occurs, rfl⟩ := hi
  obtain ⟨c', l, kind', occurs', rfl⟩ := hj
  exact occurs.rises h occurs' lt

end Setting

end Plan

end StoragePlan
