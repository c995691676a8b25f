import Mathlib
import StoragePlan.Proofs.Mounting

/-!
# Mounts in the order of a plan

The rules put the mounts of all filesystems into one sequence and the unmounts into another
(`Sequenced`), and the order of a plan follows these: mounts go by ascending paths and unmounts by
descending ones, byte by byte, whatever the sids of the filesystems are (`mount_order_between`). So
a path is mounted after those above it and unmounted before them. The actions of one filesystem end
with an update of the table of filesystems if they mount or unmount something (`Recorded`), and a
filesystem that is replaced has such an update for each of its chains.
-/

namespace StoragePlan

open Relation

/-! ### Paths as bytes -/

/-- The bytes of a text. -/
def bytes (text : String) : List UInt8 := text.toUTF8.data.toList

theorem bytes_eq (text : String) : bytes text = text.toList.flatMap String.utf8EncodeChar := by
  rw [bytes, String.toUTF8_eq_toByteArray, ← String.utf8Encode_toList, List.utf8Encode,
    List.data_toByteArray]

/-- A greater character has greater bytes, whatever comes after them. -/
theorem encodeChar_append_lt {c d : Char} (h : c < d) (l m : List UInt8) :
    String.utf8EncodeChar c ++ l < String.utf8EncodeChar d ++ m := by
  have lt : c.val.toNat < d.val.toNat := h
  have bound : d.val.toNat < 1114112 := by
    have valid := d.valid
    unfold UInt32.isValidChar Nat.isValidChar at valid
    omega
  unfold String.utf8EncodeChar
  dsimp only
  generalize c.val.toNat = v at *
  generalize d.val.toNat = w at *
  have digits : ∀ n, n / 64 / 64 = n / 4096 ∧ n / 4096 / 64 = n / 262144 := by
    intro n
    omega
  have hv := digits v
  have hw := digits w
  have lead : v / 262144 % 8 = v / 262144 ∧ w / 262144 % 8 = w / 262144 := by omega
  -- The number of bytes shows in the first one; where it is the same the digits are compared.
  split_ifs
  all_goals
    simp only [List.cons_append, List.nil_append, List.cons_lt_cons_iff, UInt8.lt_iff_toNat_lt,
      ← UInt8.toNat_inj, UInt8.toNat_ofNat', lead]
    simp (disch := omega) only [Nat.mod_eq_of_lt, Nat.reducePow]
    omega

theorem flatMap_encodeChar_lt {l m : List Char} (h : l < m) :
    l.flatMap String.utf8EncodeChar < m.flatMap String.utf8EncodeChar := by
  induction l generalizing m with
  | nil =>
    cases m with
    | nil => cases h
    | cons d m =>
      obtain ⟨b, rest, same⟩ := List.exists_cons_of_ne_nil (String.utf8EncodeChar_ne_nil (c := d))
      rw [List.flatMap_nil, List.flatMap_cons, same]
      exact List.nil_lt_cons _ _
  | cons c l ih =>
    cases m with
    | nil => cases h
    | cons d m =>
      rw [List.flatMap_cons, List.flatMap_cons]
      rcases List.cons_lt_cons_iff.1 h with lt | ⟨rfl, lt⟩
      · exact encodeChar_append_lt lt _ _
      · exact List.append_left_lt (ih lt)

/-- Texts compare by their characters as they do by their bytes. -/
theorem bytes_lt_iff {text text' : String} : bytes text < bytes text' ↔ text < text' := by
  have mono : ∀ {s t : String}, s < t → bytes s < bytes t := by
    intro s t lt
    rw [bytes_eq, bytes_eq]
    exact flatMap_encodeChar_lt (String.lt_iff.1 lt)
  refine ⟨fun lt => ?_, mono⟩
  rcases lt_trichotomy text text' with lt' | rfl | gt
  · exact lt'
  · exact absurd lt (List.lt_irrefl _)
  · exact absurd lt (List.lt_asymm (mono gt))

/-- The action mounts or unmounts something, be it swap space. -/
def ActionKind.isMounting : ActionKind → Bool
  | .mount _ | .unmount _ => true
  | _ => false

namespace Plan

/-! ### The order that is asked for -/

/-- How mounts and unmounts are ordered. Swap space, which is not mounted on a path, is only looked
at for the table of filesystems. -/
structure MountOrder (actions : List Action) : Prop where
  /-- Mounts go by ascending paths, and on one path by ascending sids. -/
  ascending : (mounts actions).Pairwise fun u v =>
    bytes u.path < bytes v.path ∨ u.path = v.path ∧ u.sid < v.sid
  /-- A path is mounted after those above it. -/
  outer_first : ∀ u ∈ mounts actions, ∀ v ∈ mounts actions, Below v.path u.path → u.place < v.place
  /-- Unmounts go by descending paths, and on one path by ascending sids. -/
  descending : (unmounts actions).Pairwise fun u v =>
    bytes v.path < bytes u.path ∨ u.path = v.path ∧ u.sid < v.sid
  /-- A path is unmounted before those above it. -/
  inner_first : ∀ u ∈ unmounts actions, ∀ v ∈ unmounts actions, Below v.path u.path →
    v.place < u.place
  /-- A path is unmounted before it is mounted, by whatever filesystems. -/
  again : ∀ u ∈ unmounts actions, ∀ v ∈ mounts actions, u.path = v.path → u.place < v.place
  /-- The table of filesystems is updated after the last mount or unmount of a filesystem. -/
  recorded : ∀ a ∈ actions, a.kind.isMounting = true → ∃ earlier b later,
    actions = earlier ++ b :: later ∧ b.sid = a.sid ∧ b.kind = .updateFstab ∧
      ∀ c ∈ later, c.sid = a.sid → c.kind.isMounting = false

/-! ### Each mount and unmount is there once -/

theorem nodup_eraseDups (l : List String) : l.eraseDups.Nodup := by
  induction hn : l.length using Nat.strong_induction_on generalizing l with
  | h n ih =>
    cases l with
    | nil => exact List.nodup_nil
    | cons path l =>
      rw [List.eraseDups_cons, List.nodup_cons, List.mem_eraseDups]
      refine ⟨by simp, ih _ ?_ _ rfl⟩
      have le := List.length_filter_le (fun other => !other == path) l
      rw [List.length_cons] at hn
      omega

theorem nodup_sortedMountpoints (fs : Filesystem) : (sortedMountpoints fs).Nodup :=
  (List.mergeSort_perm _ _).nodup_iff.2 (nodup_eraseDups _)

theorem fstabKinds_cases (fs : Filesystem) : fs.mountpoints = [] ∧ fstabKinds fs = [] ∨
    fs.mountpoints ≠ [] ∧ fstabKinds fs = [.updateFstab] := by
  unfold fstabKinds
  cases fs.mountpoints <;> simp

/-- The mounts and unmounts among what is done. -/
def mountings (kinds : List ActionKind) : List ActionKind := kinds.filter ActionKind.isMounting

@[simp] theorem mountings_append (l m : List ActionKind) :
    mountings (l ++ m) = mountings l ++ mountings m := List.filter_append l m

@[simp] theorem mountings_mount (paths : List String) :
    mountings (paths.map .mount) = paths.map .mount :=
  List.filter_eq_self.2 (by simp [ActionKind.isMounting])

@[simp] theorem mountings_unmount (paths : List String) :
    mountings (paths.map .unmount) = paths.map .unmount :=
  List.filter_eq_self.2 (by simp [ActionKind.isMounting])

/-- Nothing else is a mount or an unmount. -/
theorem mountings_eq_nil {kinds : List ActionKind}
    (h : ∀ kind ∈ kinds, kind.isMounting = false) : mountings kinds = [] :=
  List.filter_eq_nil_iff.2 fun kind hk => by simp [h kind hk]

theorem mem_mountings {kinds : List ActionKind} {kind : ActionKind} :
    kind ∈ mountings kinds ↔ kind ∈ kinds ∧ kind.isMounting = true := List.mem_filter

/-- Where a device is mounted, if it is a filesystem. -/
def mountPaths : Attributes → List String
  | .filesystem fs => sortedMountpoints fs
  | _ => []

theorem nodup_mountPaths (a : Attributes) : (mountPaths a).Nodup := by
  cases a with
  | filesystem fs => exact nodup_sortedMountpoints fs
  | _ => exact List.nodup_nil

theorem mountings_fstabKinds (fs : Filesystem) : mountings (fstabKinds fs) = [] := by
  rcases fstabKinds_cases fs with ⟨_, fstab⟩ | ⟨_, fstab⟩ <;> rw [fstab] <;> rfl

theorem mountings_deleteKinds (a : Attributes) :
    mountings (deleteKinds a) = (mountPaths a).reverse.map .unmount := by
  cases a with
  | filesystem fs =>
    simp only [deleteKinds, mountings_append, mountings_unmount, mountings_fstabKinds,
      List.append_nil]
    exact List.append_nil _
  | _ => rfl

theorem mountings_createKinds (a : Attributes) :
    mountings (createKinds a) = (mountPaths a).map .mount := by
  cases a with
  | filesystem fs =>
    simp only [createKinds, mountings_append, mountings_mount, mountings_fstabKinds,
      List.append_nil]
    rfl
  | partition p =>
    simp only [createKinds]
    split_ifs <;> rfl
  | _ => rfl

theorem mountings_partitionChanges (o n : Partition) : mountings (partitionChanges o n) = [] := by
  unfold partitionChanges
  cases ResizeMode.between? o.region.length n.region.length <;> split_ifs <;> rfl

theorem mountings_filesystemChanges (o n : Filesystem) (resize : Option ResizeMode) :
    mountings (filesystemChanges o n resize) =
      ((sortedMountpoints o).filter (· ∉ sortedMountpoints n)).reverse.map .unmount ++
        ((sortedMountpoints n).filter (· ∉ sortedMountpoints o)).map .mount := by
  have follow : mountings (resize.toList.map .resizeFilesystem) = [] := by
    cases resize <;> rfl
  have mark : ∀ {c : Prop} [Decidable c] {kind : ActionKind}, kind.isMounting = false →
      mountings (if c then [] else [kind]) = [] := by
    intro c _ kind other
    apply mountings_eq_nil
    split <;> simp [other]
  simp only [filesystemChanges, mountings_append, mountings_mount, mountings_unmount, follow,
    mark (show ActionKind.setLabel.isMounting = false from rfl),
    mark (show ActionKind.setUuid.isMounting = false from rfl),
    mark (show ActionKind.updateFstab.isMounting = false from rfl), List.append_nil]

theorem nodup_map_mount {paths : List String} (h : paths.Nodup) :
    (paths.map ActionKind.mount).Nodup := h.map fun _ _ same => ActionKind.mount.inj same

theorem nodup_map_unmount {paths : List String} (h : paths.Nodup) :
    (paths.map ActionKind.unmount).Nodup := h.map fun _ _ same => ActionKind.unmount.inj same

namespace Setting

variable {s : Setting} {replaced : List Sid} {i j k k' : Nat} {c c' : Chain} {kind : ActionKind}
  {a b : Action} {path : String}

@[simp] theorem map_fst_stepsOf (c : Chain) : (stepsOf (some c)).map Prod.fst = c.kinds :=
  List.zipIdx_map_fst _ _

theorem Sound.steps_deletes (h : s.Sound replaced) (sid : Sid) :
    (stepsOf (s.deletes? sid)).map Prod.fst = [] ∨
      ∃ a, (stepsOf (s.deletes? sid)).map Prod.fst = deleteKinds a := by
  cases hc : s.deletes? sid with
  | none => exact .inl rfl
  | some c =>
    obtain ⟨old, _, kinds_eq⟩ := h.of_deletes? hc
    refine .inr ⟨old.attributes, ?_⟩
    rw [map_fst_stepsOf, kinds_eq]

theorem Sound.steps_creates (h : s.Sound replaced) (sid : Sid) :
    (stepsOf (s.creates? sid)).map Prod.fst = [] ∨
      ∃ a, (stepsOf (s.creates? sid)).map Prod.fst = createKinds a := by
  cases hc : s.creates? sid with
  | none => exact .inl rfl
  | some c =>
    obtain ⟨new, _, kinds_eq⟩ := h.of_creates? hc
    refine .inr ⟨new.attributes, ?_⟩
    rw [map_fst_stepsOf, kinds_eq]

theorem Sound.steps_changes (h : s.Sound replaced) (sid : Sid) :
    (stepsOf (s.changes? sid)).map Prod.fst = [] ∨
      (∃ o n, (stepsOf (s.changes? sid)).map Prod.fst = partitionChanges o n) ∨
      ∃ o n resize, (stepsOf (s.changes? sid)).map Prod.fst = filesystemChanges o n resize := by
  cases hc : s.changes? sid with
  | none => exact .inl rfl
  | some c =>
    obtain ⟨mem, changes, _⟩ := h.find?_chains.1 hc
    rw [map_fst_stepsOf]
    cases h.shape mem with
    | delete phase => simp [changes] at phase
    | create phase => simp [changes] at phase
    | partition _ _ _ _ kinds_eq => exact .inr (.inl ⟨_, _, kinds_eq⟩)
    | filesystem _ _ _ _ _ kinds_eq => exact .inr (.inr ⟨_, _, _, kinds_eq⟩)

theorem Sound.mountings_deletes (h : s.Sound replaced) (sid : Sid) : ∃ paths : List String,
    paths.Nodup ∧ mountings ((stepsOf (s.deletes? sid)).map Prod.fst) = paths.map .unmount := by
  rcases h.steps_deletes sid with nothing | ⟨a, deletes⟩
  · rw [nothing]
    exact ⟨[], List.nodup_nil, rfl⟩
  · rw [deletes, mountings_deleteKinds]
    exact ⟨_, List.nodup_reverse.2 (nodup_mountPaths a), rfl⟩

theorem Sound.mountings_creates (h : s.Sound replaced) (sid : Sid) : ∃ paths : List String,
    paths.Nodup ∧ mountings ((stepsOf (s.creates? sid)).map Prod.fst) = paths.map .mount := by
  rcases h.steps_creates sid with nothing | ⟨a, creates⟩
  · rw [nothing]
    exact ⟨[], List.nodup_nil, rfl⟩
  · rw [creates, mountings_createKinds]
    exact ⟨_, nodup_mountPaths a, rfl⟩

theorem Sound.mountings_changes (h : s.Sound replaced) (sid : Sid) :
    ∃ removed added : List String, removed.Nodup ∧ added.Nodup ∧
      mountings ((stepsOf (s.changes? sid)).map Prod.fst) =
        removed.map .unmount ++ added.map .mount := by
  rcases h.steps_changes sid with nothing | ⟨o, n, changes⟩ | ⟨o, n, resize, changes⟩
  · rw [nothing]
    exact ⟨[], [], List.nodup_nil, List.nodup_nil, rfl⟩
  · rw [changes, mountings_partitionChanges]
    exact ⟨[], [], List.nodup_nil, List.nodup_nil, rfl⟩
  · rw [changes, mountings_filesystemChanges]
    exact ⟨_, _, List.nodup_reverse.2 ((nodup_sortedMountpoints o).filter _),
      (nodup_sortedMountpoints n).filter _, rfl⟩

/-- No path is mounted twice by one filesystem, and none is unmounted twice. -/
theorem Sound.nodup_mountings (h : s.Sound replaced) (sid : Sid) :
    (mountings ((s.life sid).map Prod.fst)).Nodup := by
  obtain ⟨removed, added, nodup, nodup', same⟩ : ∃ removed added : List String, removed.Nodup ∧
      added.Nodup ∧ mountings ((s.life sid).map Prod.fst) =
        removed.map .unmount ++ added.map .mount := by
    by_cases stays : ∃ old new, Stays s.lhs s.rhs replaced sid old new
    · obtain ⟨old, new, stays⟩ := stays
      rw [h.life_of_stays stays]
      exact h.mountings_changes sid
    · obtain ⟨removed, nodup, deletes⟩ := h.mountings_deletes sid
      obtain ⟨added, nodup', creates⟩ := h.mountings_creates sid
      refine ⟨removed, added, nodup, nodup', ?_⟩
      rw [h.life_of_not_stays (by simpa using stays), List.map_append, mountings_append, deletes,
        creates]
  rw [same, List.nodup_append]
  refine ⟨nodup_map_unmount nodup, nodup_map_mount nodup', ?_⟩
  intro unmount hu mount hm both
  obtain ⟨_, _, rfl⟩ := List.mem_map.1 hu
  obtain ⟨_, _, rfl⟩ := List.mem_map.1 hm
  cases both

/-- A mount or unmount of a filesystem has one place. -/
theorem Sound.mounting_unique (h : s.Sound replaced) (ha : s.actions[i]? = some a)
    (hb : s.actions[j]? = some b) (sid : a.sid = b.sid) (kind : a.kind = b.kind)
    (mounting : a.kind.isMounting = true) : i = j := by
  obtain ⟨c, k, done, occurs, rfl⟩ := h.getElem?_actions.1 ha
  obtain ⟨c', k', done', occurs', rfl⟩ := h.getElem?_actions.1 hb
  obtain rfl : done = done' := kind
  have here : (done, i) ∈ s.life c.sid := h.mem_life.2 ⟨c, k, occurs, rfl⟩
  have there : (done, j) ∈ s.life c.sid := h.mem_life.2 ⟨c', k', occurs', sid.symm⟩
  have once := h.nodup_mountings c.sid
  rw [mountings, List.filter_map] at once
  have same := List.inj_on_of_nodup_map once (List.mem_filter.2 ⟨here, mounting⟩)
    (List.mem_filter.2 ⟨there, mounting⟩) rfl
  exact congrArg Prod.snd same

/-! ### Sequences of paths -/

/-- The rules put what is done to paths into one sequence, by a key of the path and then by sid. -/
structure Sequenced {κ : Type} [LinearOrder κ] (s : Setting) (kind : String → ActionKind)
    (key : String → κ) : Prop where
  mounting : ∀ path, (kind path).isMounting = true
  injective : Function.Injective key
  linked : ∀ {i j a b path path'}, s.actions[i]? = some a → s.actions[j]? = some b →
    a.kind = kind path → b.kind = kind path' → path ≠ swapMountpoint → path' ≠ swapMountpoint →
    toLex (key path, toLex (a.sid, i)) < toLex (key path', toLex (b.sid, j)) →
    TransGen s.Precedes i j

theorem Sound.sequenced_mounts (h : s.Sound replaced) : Sequenced s .mount id where
  mounting _ := rfl
  injective := Function.injective_id
  linked := h.mounts_linked

theorem Sound.sequenced_unmounts (h : s.Sound replaced) :
    Sequenced s .unmount OrderDual.toDual where
  mounting _ := rfl
  injective := OrderDual.toDual.injective
  linked := h.unmounts_linked

/-- Where the one place does not come after the other, its path does not either. -/
theorem Sequenced.le_of_free {κ : Type} [LinearOrder κ] {kind : String → ActionKind}
    {key : String → κ} (sequenced : Sequenced s kind key) (h : s.Sound replaced)
    (ha : s.actions[i]? = some a) (hb : s.actions[j]? = some b) {path path' : String}
    (use : a.kind = kind path) (use' : b.kind = kind path') (ne : path ≠ swapMountpoint)
    (ne' : path' ≠ swapMountpoint) (apart : i ≠ j) (free : ¬TransGen s.Precedes j i) :
    key path < key path' ∨ path = path' ∧ a.sid < b.sid := by
  rcases lt_trichotomy (key path) (key path') with lt | same | gt
  · exact .inl lt
  · obtain rfl := sequenced.injective same
    rcases lt_trichotomy a.sid b.sid with lt | sid | gt
    · exact .inr ⟨rfl, lt⟩
    · have mounting : a.kind.isMounting = true := use ▸ sequenced.mounting path
      exact absurd (h.mounting_unique ha hb sid (use.trans use'.symm) mounting) apart
    · refine absurd (sequenced.linked hb ha use' use ne' ne ?_) free
      exact Prod.Lex.toLex_lt_toLex.2 (.inr ⟨rfl, Prod.Lex.toLex_lt_toLex.2 (.inl gt)⟩)
  · refine absurd (sequenced.linked hb ha use' use ne' ne ?_) free
    exact Prod.Lex.toLex_lt_toLex.2 (.inl gt)

end Setting

/-! ### The table of filesystems -/

/-- After the last mount or unmount the table of filesystems is updated. -/
def Recorded (kinds : List ActionKind) : Prop :=
  (∃ kind ∈ kinds, kind.isMounting = true) → ∃ before after, kinds = before ++ .updateFstab :: after ∧
    ∀ kind ∈ after, kind.isMounting = false

theorem recorded_of_mountings_eq_nil {kinds : List ActionKind} (h : mountings kinds = []) :
    Recorded kinds := by
  rintro ⟨kind, hk, mounting⟩
  have mem := mem_mountings.2 ⟨hk, mounting⟩
  rw [h] at mem
  cases mem

theorem recorded_nil : Recorded [] := recorded_of_mountings_eq_nil rfl

theorem Recorded.append {l m : List ActionKind} (hl : Recorded l) (hm : Recorded m) :
    Recorded (l ++ m) := by
  rintro ⟨kind, hk, mounting⟩
  by_cases second : ∃ kind ∈ m, kind.isMounting = true
  · obtain ⟨before, after, rfl, rest⟩ := hm second
    exact ⟨l ++ before, after, by simp, rest⟩
  · have none : ∀ kind ∈ m, kind.isMounting = false := by simpa using second
    have first : kind ∈ l := by
      refine (List.mem_append.1 hk).resolve_right fun hk => ?_
      rw [none kind hk] at mounting
      cases mounting
    obtain ⟨before, after, rfl, rest⟩ := hl ⟨kind, first, mounting⟩
    refine ⟨before, after ++ m, by simp, ?_⟩
    intro other ho
    rcases List.mem_append.1 ho with ho | ho
    · exact rest other ho
    · exact none other ho

theorem recorded_deleteKinds (a : Attributes) : Recorded (deleteKinds a) := by
  cases a with
  | filesystem fs =>
    rcases fstabKinds_cases fs with ⟨none, _⟩ | ⟨_, fstab⟩
    · apply recorded_of_mountings_eq_nil
      rw [mountings_deleteKinds]
      simp [mountPaths, sortedMountpoints, none]
    · intro _
      refine ⟨_, [.deleteFilesystem], by rw [deleteKinds, fstab, List.append_assoc]; rfl, ?_⟩
      simp [ActionKind.isMounting]
  | _ => exact recorded_of_mountings_eq_nil rfl

theorem recorded_createKinds (a : Attributes) : Recorded (createKinds a) := by
  cases a with
  | filesystem fs =>
    rcases fstabKinds_cases fs with ⟨none, _⟩ | ⟨_, fstab⟩
    · apply recorded_of_mountings_eq_nil
      rw [mountings_createKinds]
      simp [mountPaths, sortedMountpoints, none]
    · intro _
      exact ⟨_, [], by rw [createKinds, fstab], by simp⟩
  | _ => exact recorded_of_mountings_eq_nil (mountings_createKinds _)

/-- If the mountpoints are the same nothing is mounted or unmounted. -/
theorem recorded_filesystemChanges (o n : Filesystem) (resize : Option ResizeMode) :
    Recorded (filesystemChanges o n resize) := by
  by_cases same : o.mountpoints = n.mountpoints
  · apply recorded_of_mountings_eq_nil
    rw [mountings_filesystemChanges]
    simp [sortedMountpoints, same]
  · obtain ⟨before, ends⟩ : ∃ before, filesystemChanges o n resize = before ++ [.updateFstab] := by
      have differs : ¬(o.mountpoints = n.mountpoints ∧ o.mountBy = n.mountBy ∧
          o.fstabOptions = n.fstabOptions) := fun all => same all.1
      simp only [filesystemChanges]
      rw [if_neg differs]
      exact ⟨_, rfl⟩
    intro _
    exact ⟨before, [], ends, by simp⟩

/-- All that is done to a device. -/
theorem Setting.Sound.recorded_life {s : Setting} {replaced : List Sid} (h : s.Sound replaced)
    (sid : Sid) : Recorded ((s.life sid).map Prod.fst) := by
  rw [Setting.life, List.map_append, List.map_append]
  apply Recorded.append
  · apply Recorded.append
    · rcases h.steps_deletes sid with nothing | ⟨a, deletes⟩
      · exact nothing ▸ recorded_nil
      · exact deletes ▸ recorded_deleteKinds a
    · rcases h.steps_changes sid with nothing | ⟨o, n, changes⟩ | ⟨o, n, resize, changes⟩
      · exact nothing ▸ recorded_nil
      · exact recorded_of_mountings_eq_nil (changes ▸ mountings_partitionChanges o n)
      · exact changes ▸ recorded_filesystemChanges o n resize
  · rcases h.steps_creates sid with nothing | ⟨a, creates⟩
    · exact nothing ▸ recorded_nil
    · exact creates ▸ recorded_createKinds a

/-! ### Uses of paths in a list of actions -/

/-- The use of a path was read off the action. -/
structure PathUse.Of (kind : String → ActionKind) (u : PathUse) (a : Action) : Prop where
  ne : u.path ≠ swapMountpoint
  kind_eq : a.kind = kind u.path
  sid_eq : a.sid = u.sid

namespace Setting.Reads

variable {f : Action × Nat → Option PathUse} {kind : String → ActionKind} {actions : List Action}

theorem of_mem (hf : Reads f kind) {u : PathUse} (hu : u ∈ actions.zipIdx.filterMap f) :
    ∃ a, actions[u.place]? = some a ∧ u.Of kind a := by
  obtain ⟨a, i, ha, use⟩ := mem_filterMap_zipIdx.1 hu
  obtain ⟨ne, kind_eq, sid_eq, rfl⟩ := (hf a i u).1 use
  exact ⟨a, ha, ne, kind_eq, sid_eq⟩

/-- What is read off the actions keeps their order. -/
theorem pairwise (hf : Reads f kind) {r : Action → Action → Prop} (h : actions.Pairwise r) :
    (actions.zipIdx.filterMap f).Pairwise fun u v => ∃ a b, r a b ∧ u.Of kind a ∧ v.Of kind b := by
  have ordered : actions.zipIdx.Pairwise fun x y => r x.1 y.1 := by
    rw [← List.pairwise_map, List.zipIdx_map_fst]
    exact h
  refine ordered.filterMap f ?_
  rintro ⟨a, i⟩ ⟨b, j⟩ rab u hu v hv
  obtain ⟨ne, kind_eq, sid_eq, _⟩ := (hf a i u).1 hu
  obtain ⟨ne', kind_eq', sid_eq', _⟩ := (hf b j v).1 hv
  exact ⟨a, b, rab, ⟨ne, kind_eq, sid_eq⟩, ne', kind_eq', sid_eq'⟩

end Setting.Reads

/-! ### The order of a plan -/

/-- In an order that follows the dependencies nothing leads back. -/
theorem pairwise_of_follows {r : Nat → Nat → Prop} {order : List Nat} (h : Follows r order)
    (once : order.Nodup) : order.Pairwise fun i j => i ≠ j ∧ ¬TransGen r j i := by
  refine once.and (List.pairwise_iff_getElem.2 fun k l hk hl lt path => ?_)
  have cut : order = order.take k ++ order[k] :: order.drop (k + 1) := by simp
  obtain ⟨m, hm, same⟩ := List.mem_take_iff_getElem.1 (h.mem_earlier cut path)
  have index : m = l := once.getElem_inj_iff.1 same
  omega

namespace Realizes

variable {p : Plan} {s : Setting} {replaced : List Sid} {a b : Action} {k l : Nat}

theorem pairwise_places (h : Realizes p s replaced) : p.actions.Pairwise fun a b => ∃ i j,
    s.actions[i]? = some a ∧ s.actions[j]? = some b ∧ i ≠ j ∧ ¬TransGen s.Precedes j i := by
  rw [Plan.actions, h.actions_eq]
  refine (pairwise_of_follows h.run.follows h.run.once).filterMap _ ?_
  intro i j free a ha b hb
  exact ⟨i, j, ha, hb, free⟩

/-- What the rules put before another action comes before it in the plan. -/
theorem lt_of_follows (h : Realizes p s replaced) (ha : p.actions[k]? = some a)
    (hb : p.actions[l]? = some b) (ne : a ≠ b)
    (follows : ∀ i j, s.actions[i]? = some a → s.actions[j]? = some b → TransGen s.Precedes i j) :
    k < l := by
  obtain ⟨hk, rfl⟩ := List.getElem?_eq_some_iff.1 ha
  obtain ⟨hl, rfl⟩ := List.getElem?_eq_some_iff.1 hb
  rcases lt_trichotomy k l with lt | rfl | gt
  · exact lt
  · exact absurd rfl ne
  · obtain ⟨j, i, hj, hi, _, free⟩ := List.pairwise_iff_getElem.1 h.pairwise_places l k hl hk gt
    exact absurd (follows i j hi hj) free

/-- What a plan does to a device. -/
theorem kinds_eq (h : Realizes p s replaced) (sid : Sid) :
    (p.actions.filter fun a => a.sid == sid).map Action.kind = (s.life sid).map Prod.fst := by
  have sound := h.run.sound
  have distinct : ((s.life sid).map Prod.snd).Nodup :=
    (sound.ascending_life sid).imp Nat.ne_of_lt
  have linked := (sound.isChain_life sid).imp fun _ _ => And.right
  obtain ⟨n, hn⟩ := h.run.follows.filter_eq_take distinct linked h.run.once
  have all : ((s.life sid).map Prod.snd).length ≤ n := by
    by_contra short
    have hm : n < ((s.life sid).map Prod.snd).length := by omega
    have place := List.getElem?_eq_getElem hm
    obtain ⟨x, hx, same⟩ := List.mem_map.1 (List.getElem_mem hm)
    obtain ⟨a, ha, _, _⟩ := sound.action_of_life hx
    have inside := (List.getElem?_eq_some_iff.1 ha).1
    have taken := h.complete _ inside
    rw [same, mem_iff_of_filter_eq_take distinct hn place] at taken
    omega
  rw [Plan.actions, h.actions_eq, sound.filter_actions, hn, List.take_of_length_le all]
  exact sound.kinds_of_life (List.Subset.refl _)

theorem recorded (h : Realizes p s replaced) (ha : a ∈ p.actions)
    (mounting : a.kind.isMounting = true) : ∃ earlier b later,
      p.actions = earlier ++ b :: later ∧ b.sid = a.sid ∧ b.kind = .updateFstab ∧
        ∀ c ∈ later, c.sid = a.sid → c.kind.isMounting = false := by
  have mem : a ∈ p.actions.filter fun b => b.sid == a.sid := List.mem_filter.2 ⟨ha, by simp⟩
  have life := h.run.sound.recorded_life a.sid
  rw [← h.kinds_eq] at life
  obtain ⟨before, after, cut, rest⟩ := life ⟨a.kind, List.mem_map_of_mem mem, mounting⟩
  obtain ⟨first, second, parts, _, second_eq⟩ := List.map_eq_append_iff.1 cut
  obtain ⟨b, last, rfl, kind, rfl⟩ := List.map_eq_cons_iff.1 second_eq
  obtain ⟨earlier, others, hactions, _, hothers⟩ := List.filter_eq_append_iff.1 parts
  obtain ⟨skipped, later, rfl, _, sid, hlater⟩ := List.filter_eq_cons_iff.1 hothers
  refine ⟨earlier ++ skipped, b, later, by rw [hactions, List.append_assoc], by simpa using sid,
    kind, ?_⟩
  intro c hc hs
  refine rest c.kind (List.mem_map_of_mem ?_)
  rw [← hlater]
  exact List.mem_filter.2 ⟨hc, by simpa using hs⟩

section

variable {f g : Action × Nat → Option PathUse} {kind kind' : String → ActionKind} {u v : PathUse}

/-- What the rules put into a sequence is in that order in the plan. -/
theorem pairwise_uses {κ : Type} [LinearOrder κ] {key : String → κ} (h : Realizes p s replaced)
    (sequenced : Setting.Sequenced s kind key) (hf : Setting.Reads f kind) :
    (p.actions.zipIdx.filterMap f).Pairwise fun u v =>
      key u.path < key v.path ∨ u.path = v.path ∧ u.sid < v.sid := by
  refine (hf.pairwise h.pairwise_places).imp ?_
  rintro u v ⟨a, b, ⟨i, j, ha, hb, apart, free⟩, hu, hv⟩
  rw [← hu.sid_eq, ← hv.sid_eq]
  exact sequenced.le_of_free h.run.sound ha hb hu.kind_eq hv.kind_eq hu.ne hv.ne apart free

/-- A use of a path comes before another one in the plan if the rules say so. -/
theorem place_lt (h : Realizes p s replaced) (hf : Setting.Reads f kind)
    (hg : Setting.Reads g kind') (hu : u ∈ p.actions.zipIdx.filterMap f)
    (hv : v ∈ p.actions.zipIdx.filterMap g) (ne : kind u.path ≠ kind' v.path)
    (follows : ∀ {i j a b}, s.actions[i]? = some a → s.actions[j]? = some b → u.Of kind a →
      v.Of kind' b → TransGen s.Precedes i j) : u.place < v.place := by
  obtain ⟨a, ha, hu⟩ := hf.of_mem hu
  obtain ⟨b, hb, hv⟩ := hg.of_mem hv
  refine h.lt_of_follows ha hb ?_ fun i j hi hj => follows hi hj hu hv
  rintro rfl
  exact ne (hu.kind_eq.symm.trans hv.kind_eq)

end

theorem mountOrder (h : Realizes p s replaced) : MountOrder p.actions := by
  have sound := h.run.sound
  obtain ⟨f, mount, mounts_eq⟩ := Setting.exists_reads_mount p.actions
  obtain ⟨g, unmount, unmounts_eq⟩ := Setting.exists_reads_unmount p.actions
  refine ⟨?_, ?_, ?_, ?_, ?_, fun _ => h.recorded⟩
  · simp only [mounts_eq, bytes_lt_iff]
    exact h.pairwise_uses sound.sequenced_mounts mount
  · intro u hu v hv below
    rw [mounts_eq] at hu hv
    refine h.place_lt mount mount hu hv ?_ fun hi hj use use' => ?_
    · exact fun same => below.lt.ne (ActionKind.mount.inj same)
    · exact sound.mounts_follow hi hj use.kind_eq use'.kind_eq use.ne use'.ne below.lt
  · simp only [unmounts_eq, bytes_lt_iff]
    exact h.pairwise_uses sound.sequenced_unmounts unmount
  · intro u hu v hv below
    rw [unmounts_eq] at hu hv
    refine h.place_lt unmount unmount hv hu ?_ fun hj hi use' use => ?_
    · exact fun same => below.lt.ne' (ActionKind.unmount.inj same)
    · exact sound.unmounts_follow hi hj use.kind_eq use'.kind_eq use.ne use'.ne below.lt
  · intro u hu v hv same
    rw [unmounts_eq] at hu
    rw [mounts_eq] at hv
    refine h.place_lt unmount mount hu hv nofun fun hi hj use use' => ?_
    exact sound.mount_follows hi hj use.kind_eq (same ▸ use'.kind_eq) use.ne

end Realizes

/-- The plan between two checked devicegraphs mounts and unmounts in order. -/
theorem mount_order_between {lhs rhs : Devicegraph} (hl : lhs.check = .ok ())
    (hr : rhs.check = .ok ()) : ∃ p, between lhs rhs = .ok p ∧ MountOrder p.actions := by
  obtain ⟨p, s, replaced, hp, _, _, realizes⟩ := between_spec hl hr
  exact ⟨p, hp, realizes.mountOrder⟩

/-- Paths that go from one filesystem to another, and the swap space with them. -/
theorem mount_order_moved : ∃ p,
    between (threeFilesystems ["/", "/home"] ["/srv"] ["/srv/data", "swap"])
      (threeFilesystems ["/srv"] ["/home", "swap", "/"] ["/srv/data/old"]) = .ok p ∧
    MountOrder p.actions :=
  mount_order_between (by cbv) (by cbv)

end Plan

end StoragePlan
