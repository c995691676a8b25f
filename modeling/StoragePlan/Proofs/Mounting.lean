import Mathlib
import StoragePlan.Proofs.Timeline

/-!
# What is mounted while a plan is carried out

The mounts of a plan go by ascending paths and the unmounts by descending ones, and a path is
unmounted before something is mounted there (`mounts_follow`, `unmounts_follow`, `mount_follows`).
No rule orders an unmount and a mount of two paths that lie one below the other, and none looks at
filesystems that stay mounted.

So something can be mounted below a path when that is mounted or unmounted. What the rules give is
that it is left alone: below a path that is unmounted it stays mounted until the end, and below a
path that is mounted it was mounted from the start (`nested_mounts_between`). All ways in which this
falls short of nothing being mounted there come up (`mounted_below`).
-/

namespace StoragePlan.Plan

open Relation

/-! ### Paths -/

/-- The one path is strictly below the other. Both are absolute and have no redundant parts. -/
def Below (inner outer : String) : Prop :=
  ∃ name, name ≠ "" ∧ inner = (if outer = "/" then outer else outer ++ "/") ++ name

theorem lt_append {l m : List Char} (h : m ≠ []) : l < l ++ m := by
  induction l with
  | nil =>
    obtain ⟨c, m, rfl⟩ := List.exists_cons_of_ne_nil h
    exact List.nil_lt_cons c m
  | cons c l ih => exact List.cons_lt_cons_iff.2 (.inr ⟨rfl, ih⟩)

/-- A path comes before everything below it. -/
theorem Below.lt {inner outer : String} (h : Below inner outer) : outer < inner := by
  obtain ⟨name, nonempty, rfl⟩ := h
  have nonempty' : name.toList ≠ [] := mt String.toList_eq_nil_iff.1 nonempty
  rw [String.lt_iff, String.toList_append]
  split
  · exact lt_append nonempty'
  · rw [String.toList_append, List.append_assoc]
    exact lt_append (by simp)

/-! ### The mounted paths -/

/-- The paths at which filesystems of a devicegraph are mounted. -/
def mountTable (g : Devicegraph) : Set String :=
  {path | path ≠ swapMountpoint ∧ ∃ sid fs, g.filesystem sid = .ok fs ∧ path ∈ fs.mountpoints}

/-- What an action makes of the mounted paths. -/
def remount (table : Set String) (a : Action) : Set String :=
  match a.kind with
  | .mount path => if path = swapMountpoint then table else insert path table
  | .unmount path => if path = swapMountpoint then table else table \ {path}
  | _ => table

/-- The mounted paths after the first actions of a plan. -/
def mountedAfter (lhs : Devicegraph) (actions : List Action) : Set String :=
  actions.foldl remount (mountTable lhs)

theorem mountedAfter_append (lhs : Devicegraph) (earlier later : List Action) :
    mountedAfter lhs (earlier ++ later) = later.foldl remount (mountedAfter lhs earlier) :=
  List.foldl_append

section

variable {table : Set String} {path : String} {a : Action} {actions : List Action}

theorem mem_remount (h : path ∈ table) (kept : a.kind = .unmount path → path = swapMountpoint) :
    path ∈ remount table a := by
  unfold remount
  split
  · split
    · exact h
    · exact .inr h
  · next other hk =>
    split
    · exact h
    · next ne => exact ⟨h, fun same => ne (same ▸ kept (same ▸ hk))⟩
  · exact h

theorem of_mem_remount (h : path ∈ remount table a)
    (unmounted : a.kind = .mount path → path = swapMountpoint) : path ∈ table := by
  unfold remount at h
  split at h
  · next other hk =>
    split at h
    · exact h
    · next ne => exact h.resolve_left fun same => ne (same ▸ unmounted (same ▸ hk))
  · split at h
    · exact h
    · exact h.1
  · exact h

/-- What is not unmounted stays mounted. -/
theorem mem_foldl_remount (h : path ∈ table)
    (kept : ∀ a ∈ actions, a.kind = .unmount path → path = swapMountpoint) :
    path ∈ actions.foldl remount table := by
  induction actions generalizing table with
  | nil => exact h
  | cons a actions ih =>
    refine ih (mem_remount h (kept a List.mem_cons_self)) fun b hb => ?_
    exact kept b (List.mem_cons_of_mem a hb)

/-- What was not mounted meanwhile was mounted before. -/
theorem of_mem_foldl_remount (h : path ∈ actions.foldl remount table)
    (unmounted : ∀ a ∈ actions, a.kind = .mount path → path = swapMountpoint) : path ∈ table := by
  induction actions generalizing table with
  | nil => exact h
  | cons a actions ih =>
    have mem := ih h fun b hb => unmounted b (List.mem_cons_of_mem a hb)
    exact of_mem_remount mem (unmounted a List.mem_cons_self)

end

/-! ### The order of mounts and unmounts -/

/-- In a sequence that is sorted by keys, each place comes before those with a greater key. -/
theorem transGen_of_inSequence {κ : Type} [LinearOrder κ] {before : PathUse → PathUse → Bool}
    {key : PathUse → κ} (order : ∀ a b, before a b = true ↔ key a ≤ key b) {r : Nat → Nat → Prop}
    {l : List PathUse}
    (linked : ∀ i j, (i, j) ∈ inSequence ((l.mergeSort before).map PathUse.place) → r i j)
    {u v : PathUse} (hu : u ∈ l) (hv : v ∈ l) (lt : key u < key v) :
    TransGen r u.place v.place := by
  have chain : ((l.mergeSort before).map PathUse.place).IsChain (TransGen r) := by
    refine List.isChain_iff_getElem.2 fun k hk => .single (linked _ _ ?_)
    refine List.mem_iff_getElem.2 ⟨k, ?_, by simp [inSequence]⟩
    rw [inSequence, List.length_zip, List.length_tail]
    omega
  have follow := List.pairwise_map.1 (List.isChain_iff_pairwise.1 chain)
  have all : ∀ a ∈ l.mergeSort before, ∀ b ∈ l.mergeSort before,
      key a < key b → TransGen r a.place b.place := by
    refine List.Pairwise.forall_of_forall_of_flip (fun a _ lt => absurd lt (lt_irrefl _)) ?_ ?_
    · exact follow.imp fun {a b} h (_ : key a < key b) => h
    · exact (Setting.sorted_by_key order l).imp fun {a b} le lt => absurd lt (not_lt.2 le)
  exact all u (List.mem_mergeSort.2 hu) v (List.mem_mergeSort.2 hv) lt

namespace Setting.Sound

variable {s : Setting} {replaced : List Sid} {i j : Nat} {a b : Action} {path inner : String}

theorem mem_mounts_of_action (h : s.Sound replaced) (ha : s.actions[i]? = some a)
    (kind : a.kind = .mount path) (ne : path ≠ swapMountpoint) :
    ⟨path, a.sid, i⟩ ∈ mounts s.actions := by
  obtain ⟨c, k, _, occurs, rfl⟩ := h.getElem?_actions.1 ha
  exact h.mem_mounts.2 ⟨ne, c, k, kind ▸ occurs, rfl⟩

theorem mem_unmounts_of_action (h : s.Sound replaced) (ha : s.actions[i]? = some a)
    (kind : a.kind = .unmount path) (ne : path ≠ swapMountpoint) :
    ⟨path, a.sid, i⟩ ∈ unmounts s.actions := by
  obtain ⟨c, k, _, occurs, rfl⟩ := h.getElem?_actions.1 ha
  exact h.mem_unmounts.2 ⟨ne, c, k, kind ▸ occurs, rfl⟩

/-- Mounts are put into one sequence by their paths, and on one path by sid. -/
theorem mounts_linked (h : s.Sound replaced) (ha : s.actions[i]? = some a)
    (hb : s.actions[j]? = some b) (mount : a.kind = .mount path) (mount' : b.kind = .mount inner)
    (ne : path ≠ swapMountpoint) (ne' : inner ≠ swapMountpoint)
    (lt : toLex (path, toLex (a.sid, i)) < toLex (inner, toLex (b.sid, j))) :
    TransGen s.Precedes i j :=
  transGen_of_inSequence (fun a b => Setting.mountsBefore_iff (a := a) (b := b))
    (fun _ _ member => .mounting (List.mem_append_left _ (List.mem_append_left _ member)))
    (h.mem_mounts_of_action ha mount ne) (h.mem_mounts_of_action hb mount' ne') lt

/-- Unmounts are put into one sequence the other way, on one path again by sid. -/
theorem unmounts_linked (h : s.Sound replaced) (ha : s.actions[i]? = some a)
    (hb : s.actions[j]? = some b) (unmount : a.kind = .unmount path)
    (unmount' : b.kind = .unmount inner) (ne : path ≠ swapMountpoint)
    (ne' : inner ≠ swapMountpoint)
    (lt : toLex (OrderDual.toDual path, toLex (a.sid, i)) <
      toLex (OrderDual.toDual inner, toLex (b.sid, j))) : TransGen s.Precedes i j :=
  transGen_of_inSequence (fun a b => Setting.unmountsBefore_iff (a := a) (b := b))
    (fun _ _ member => .mounting (List.mem_append_left _ (List.mem_append_right _ member)))
    (h.mem_unmounts_of_action ha unmount ne) (h.mem_unmounts_of_action hb unmount' ne') lt

/-- A path is mounted before every greater one. -/
theorem mounts_follow (h : s.Sound replaced) (ha : s.actions[i]? = some a)
    (hb : s.actions[j]? = some b) (mount : a.kind = .mount path) (mount' : b.kind = .mount inner)
    (ne : path ≠ swapMountpoint) (ne' : inner ≠ swapMountpoint) (lt : path < inner) :
    TransGen s.Precedes i j :=
  h.mounts_linked ha hb mount mount' ne ne' (Prod.Lex.toLex_lt_toLex.2 (.inl lt))

/-- A path is unmounted after every greater one. -/
theorem unmounts_follow (h : s.Sound replaced) (ha : s.actions[i]? = some a)
    (hb : s.actions[j]? = some b) (unmount : a.kind = .unmount path)
    (unmount' : b.kind = .unmount inner) (ne : path ≠ swapMountpoint)
    (ne' : inner ≠ swapMountpoint) (lt : path < inner) : TransGen s.Precedes j i :=
  h.unmounts_linked hb ha unmount' unmount ne' ne (Prod.Lex.toLex_lt_toLex.2 (.inl lt))

/-- A path is unmounted before it is mounted. -/
theorem mount_follows (h : s.Sound replaced) (ha : s.actions[i]? = some a)
    (hb : s.actions[j]? = some b) (unmount : a.kind = .unmount path)
    (mount : b.kind = .mount path) (ne : path ≠ swapMountpoint) : TransGen s.Precedes i j := by
  refine .single (.mounting (List.mem_append_right _ ?_))
  refine List.mem_flatMap.2 ⟨_, h.mem_unmounts_of_action ha unmount ne, ?_⟩
  refine List.mem_map.2 ⟨_, List.mem_filter.2 ⟨h.mem_mounts_of_action hb mount ne, ?_⟩, rfl⟩
  exact beq_self_eq_true path

end Setting.Sound

/-- An action comes after another one of the plan if the rules say so wherever the two are. -/
theorem Realizes.not_mem_of_follows {p : Plan} {s : Setting} {replaced : List Sid}
    (h : Realizes p s replaced) {earlier later : List Action} {a b : Action}
    (cut : p.actions = earlier ++ b :: later)
    (follows : ∀ i j, s.actions[i]? = some a → s.actions[j]? = some b →
      TransGen s.Precedes j i) : a ∉ earlier := by
  intro member
  obtain ⟨done, j, run, hb, rfl⟩ := h.exists_next cut
  obtain ⟨i, hi, ha⟩ := List.mem_filterMap.1 member
  have taken := run.initial.follows.mem_of_transGen (follows i j ha hb) hi
  exact (List.nodup_append.1 run.once).2.2 j taken j (List.mem_singleton.2 rfl) rfl

/-! ### Plans -/

/-- How a plan orders mounts and unmounts of paths one below the other. -/
structure OrdersMounts (lhs : Devicegraph) (p : Plan) : Prop where
  /-- What is mounted below a path that is unmounted stays mounted until the end. -/
  unmount : ∀ {earlier a later path inner}, p.actions = earlier ++ a :: later →
    a.kind = .unmount path → path ≠ swapMountpoint → Below inner path →
    inner ∈ mountedAfter lhs earlier →
    ∀ more rest, later = more ++ rest → inner ∈ mountedAfter lhs (earlier ++ a :: more)
  /-- What is mounted below a path that is mounted was mounted from the start. -/
  mount : ∀ {earlier a later path inner}, p.actions = earlier ++ a :: later →
    a.kind = .mount path → path ≠ swapMountpoint → Below inner path →
    inner ∈ mountedAfter lhs earlier →
    ∀ before rest, earlier = before ++ rest → inner ∈ mountedAfter lhs before
  /-- A path is unmounted before something is mounted there, by whatever filesystems. -/
  again : ∀ {earlier a later path}, p.actions = earlier ++ a :: later →
    a.kind = .unmount path → path ≠ swapMountpoint → ∀ b ∈ earlier, b.kind ≠ .mount path

/-- Nothing is mounted below a path when that is mounted or unmounted. -/
def NothingBelow (lhs : Devicegraph) (p : Plan) : Prop :=
  ∀ {earlier a later path inner}, p.actions = earlier ++ a :: later →
    a.kind = .mount path ∨ a.kind = .unmount path → path ≠ swapMountpoint → Below inner path →
    inner ∉ mountedAfter lhs earlier

theorem Realizes.ordersMounts {p : Plan} {s : Setting} {replaced : List Sid}
    (h : Realizes p s replaced) (lhs : Devicegraph) : OrdersMounts lhs p := by
  have sound := h.run.sound
  refine ⟨?_, ?_, ?_⟩
  · intro earlier a later path inner cut unmount ne below mounted more rest hmore
    -- `inner` is greater than `path`: where the plan unmounts it, that was before `a`.
    subst hmore
    rw [mountedAfter_append]
    refine mem_foldl_remount mounted fun b hb unmount' => ?_
    by_contra ne'
    rcases List.mem_cons.1 hb with rfl | hb
    · obtain rfl := ActionKind.unmount.inj (unmount.symm.trans unmount')
      exact lt_irrefl _ below.lt
    · obtain ⟨more, more', rfl⟩ := List.append_of_mem hb
      have cut' : p.actions = (earlier ++ a :: more) ++ b :: (more' ++ rest) := by
        rw [cut]
        simp
      refine h.not_mem_of_follows cut' (fun i j ha hb => ?_) (by simp : a ∈ earlier ++ a :: more)
      exact sound.unmounts_follow ha hb unmount unmount' ne ne' below.lt
  · intro earlier a later path inner cut mount ne below mounted before rest hrest
    -- Where the plan mounts `inner`, that is after `a`, so it was mounted already.
    subst hrest
    rw [mountedAfter_append] at mounted
    refine of_mem_foldl_remount mounted fun b hb mount' => ?_
    by_contra ne'
    refine h.not_mem_of_follows cut (fun i j hb ha => ?_) (List.mem_append_right _ hb)
    exact sound.mounts_follow ha hb mount mount' ne ne' below.lt
  · intro earlier a later path cut unmount ne b hb mount
    refine h.not_mem_of_follows cut (fun i j hb ha => ?_) hb
    exact sound.mount_follows ha hb unmount mount ne

/-- The plan between two checked devicegraphs orders mounts and unmounts by their paths, so that what
is mounted below a path that is mounted or unmounted is left alone. -/
theorem nested_mounts_between {lhs rhs : Devicegraph} (hl : lhs.check = .ok ())
    (hr : rhs.check = .ok ()) : ∃ p, between lhs rhs = .ok p ∧ OrdersMounts lhs p := by
  obtain ⟨p, s, replaced, hp, _, _, realizes⟩ := between_spec hl hr
  exact ⟨p, hp, realizes.ordersMounts lhs⟩

/-- Three disks with a filesystem each, mounted at some paths. -/
def threeFilesystems (first second third : List String) : Devicegraph where
  nodes := [⟨⟨6, .filesystem { fsType := .ext4, mountpoints := third }, []⟩, 0⟩,
    ⟨⟨4, .filesystem { fsType := .ext4, mountpoints := second }, []⟩, 0⟩,
    ⟨⟨2, .filesystem { fsType := .ext4, mountpoints := first }, []⟩, 0⟩,
    ⟨⟨5, .disk { name := "/dev/sdc", sizeK := 1048576 }, []⟩, 0⟩,
    ⟨⟨3, .disk { name := "/dev/sdb", sizeK := 1048576 }, []⟩, 0⟩,
    ⟨⟨1, .disk { name := "/dev/sda", sizeK := 1048576 }, []⟩, 0⟩]
  edges := [⟨⟨5, 0⟩, ⟨6, 0⟩, .user⟩, ⟨⟨3, 0⟩, ⟨4, 0⟩, .user⟩, ⟨⟨1, 0⟩, ⟨2, 0⟩, .user⟩]
  distinct := by simp [Node.ref]
  anchored := by simp [Node.ref]

/-- Filesystems that change places. -/
theorem nested_mounts_exchanged : ∃ p,
    between (threeFilesystems ["/"] ["/srv"] ["/srv/data"])
      (threeFilesystems ["/"] ["/srv/data"] ["/srv"]) = .ok p ∧
    OrdersMounts (threeFilesystems ["/"] ["/srv"] ["/srv/data"]) p :=
  nested_mounts_between (by cbv) (by cbv)

/-- `/c` is mounted before `/c/d` is unmounted, and `/e/f` before `/e` is; below `/a`, which is
unmounted, and below `/x`, which is mounted, a path stays mounted. -/
theorem mounted_below : ∃ p,
    between (threeFilesystems [] ["/c/d", "/e"] ["/a", "/a/b", "/x/y"])
      (threeFilesystems ["/c", "/e/f"] [] ["/a/b", "/x/y", "/x"]) = .ok p ∧
    (p.actions.map fun a => (a.sid, a.kind)) =
      [(2, .mount "/c"), (2, .mount "/e/f"), (2, .updateFstab), (4, .unmount "/e"),
        (4, .unmount "/c/d"), (4, .updateFstab), (6, .unmount "/a"), (6, .mount "/x"),
        (6, .updateFstab)] ∧
    ¬NothingBelow (threeFilesystems [] ["/c/d", "/e"] ["/a", "/a/b", "/x/y"]) p := by
  have planned : ((between (threeFilesystems [] ["/c/d", "/e"] ["/a", "/a/b", "/x/y"])
      (threeFilesystems ["/c", "/e/f"] [] ["/a/b", "/x/y", "/x"])).map Plan.actions) = .ok
      [⟨2, .mount "/c", true, false⟩, ⟨2, .mount "/e/f", false, false⟩,
        ⟨2, .updateFstab, false, true⟩, ⟨4, .unmount "/e", true, false⟩,
        ⟨4, .unmount "/c/d", false, false⟩, ⟨4, .updateFstab, false, true⟩,
        ⟨6, .unmount "/a", true, false⟩, ⟨6, .mount "/x", false, false⟩,
        ⟨6, .updateFstab, false, true⟩] := by cbv
  cases hp : between (threeFilesystems [] ["/c/d", "/e"] ["/a", "/a/b", "/x/y"])
      (threeFilesystems ["/c", "/e/f"] [] ["/a/b", "/x/y", "/x"]) with
  | error f =>
    rw [hp] at planned
    cases planned
  | ok p =>
    rw [hp] at planned
    have actions := Except.ok.inj planned
    have mounted : "/c/d" ∈
        mountedAfter (threeFilesystems [] ["/c/d", "/e"] ["/a", "/a/b", "/x/y"]) [] :=
      ⟨by decide, 4, { fsType := .ext4, mountpoints := ["/c/d", "/e"] }, by cbv, by simp⟩
    have below : Below "/c/d" "/c" := ⟨"d", by decide, by decide⟩
    refine ⟨p, rfl, by rw [actions]; rfl, fun nothing => ?_⟩
    exact nothing (show p.actions = [] ++ _ :: _ from actions) (.inl rfl) (by decide) below mounted

end StoragePlan.Plan
