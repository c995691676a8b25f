import StoragePlan.Proofs.Hierarchy

/-!
# Filesystems never outgrow their partitions

A replay of a plan that also keeps how many sectors each filesystem takes (`Measured`). Before the
plan a filesystem takes as many as its partition has; a new one takes as many as its partition has
at the moment of its creation, and one that is resized as many as its partition has in `rhs`.

What a filesystem takes at a moment depends on its own actions alone (`Gauged`), since a partition
has its final length when something is created on it. The rules put a filesystem that shrinks, and
one that goes, before the resize of its partition, and one that grows, and one that comes, after
it. So at each moment the filesystem takes what its partition has, or less.
-/

namespace StoragePlan

/-- Whether a filesystem of the type can follow a partition that is resized. -/
def FsType.follows (type : FsType) : ResizeMode → Bool
  | .grow => type.supportsGrow
  | .shrink => type.supportsShrink

/-- The sectors of the partition that is there at a sid. -/
def Machine.length? (machine : Machine) (sid : Sid) : Option Nat :=
  (machine sid).bind fun d => d.attributes.region?.map Region.length

/-- The sectors of the partition that a device sits on. -/
def Devicegraph.room? (g : Devicegraph) (sid : Sid) : Option Nat :=
  (g.parent? sid).bind (Machine.of g).length?

/-- A machine with the number of sectors that each filesystem on a partition takes. -/
structure Measured where
  /-- The devices that are there. -/
  machine : Machine
  /-- The sectors that a filesystem takes. -/
  size : Sid → Option Nat

namespace Measured

/-- The devices of a devicegraph, where each filesystem takes all of its partition. -/
def of (g : Devicegraph) : Measured := ⟨Machine.of g, g.room?⟩

/-- What the device of an action takes after it. -/
def sizeAfter (rhs : Devicegraph) (m : Measured) (a : Action) : Option Nat :=
  match a.kind with
  | .createFilesystem => (rhs.parent? a.sid).bind m.machine.length?
  | .resizeFilesystem _ => rhs.room? a.sid
  | .deleteFilesystem => none
  | _ => m.size a.sid

/-- The machine and the sizes after an action. -/
def act (rhs : Devicegraph) (m : Measured) (a : Action) : Measured :=
  ⟨m.machine.act rhs a, Function.update m.size a.sid (m.sizeAfter rhs a)⟩

/-- The machine and the sizes after actions. -/
def replay (rhs : Devicegraph) (m : Measured) (actions : List Action) : Measured :=
  actions.foldl (act rhs) m

/-- The sizes do not matter to the machine. -/
theorem machine_replay (rhs : Devicegraph) (m : Measured) (actions : List Action) :
    (m.replay rhs actions).machine = m.machine.replay rhs actions := by
  unfold replay Machine.replay
  induction actions generalizing m with
  | nil => rfl
  | cons a rest ih => exact ih (m.act rhs a)

theorem replay_append (rhs : Devicegraph) (m : Measured) (earlier later : List Action) :
    m.replay rhs (earlier ++ later) = (m.replay rhs earlier).replay rhs later :=
  List.foldl_append

/-- Every filesystem on a partition takes no more than the partition has. -/
def Fits (m : Measured) : Prop :=
  ∀ sid partition fs above p, m.machine sid = some ⟨some partition, .filesystem fs⟩ →
    m.machine partition = some ⟨above, .partition p⟩ →
      ∃ n, m.size sid = some n ∧ n ≤ p.region.length

/-- Every filesystem on a partition takes all of it. -/
def Fills (m : Measured) : Prop :=
  ∀ sid partition fs above p, m.machine sid = some ⟨some partition, .filesystem fs⟩ →
    m.machine partition = some ⟨above, .partition p⟩ → m.size sid = some p.region.length

end Measured

namespace Plan

open Machine Setting

/-! ### The length of a partition at a moment -/

namespace Run

variable {s : Setting} {replaced : List Sid} {done : List Nat} {i : Nat} {x device : Sid}

theorem length?_of_found {g : Devicegraph} {d : Device} (hd : g.find? device = some d) :
    (Machine.of g).length? device = d.attributes.region?.map Region.length := by
  simp [length?, Machine.of, hd]

/-- A partition that is not resized has one length before and after. -/
theorem length_of_unresized (h : s.Sound replaced) {o n : Device}
    (stays : Stays s.lhs s.rhs replaced device o n) (none : ∀ i mode, ¬s.Resizing i device mode) :
    o.attributes.region?.map Region.length = n.attributes.region?.map Region.length := by
  have inPlace := h.settled.inPlace stays
  cases ho : o.attributes with
  | partition po =>
    rw [ho] at inPlace
    obtain ⟨pn, hn, _⟩ := inPlace.isPartition
    have same : po.region.length = pn.region.length := by
      by_contra ne
      obtain ⟨mode, between⟩ := between?_of_ne ne
      obtain ⟨i, hi⟩ := (h.exists_resizing_iff stays ho hn).2 between
      exact none i mode hi
    simp [hn, Attributes.region?, same]
  | _ =>
    rw [ho] at inPlace
    cases hn : n.attributes <;> rw [hn] at inPlace <;> first | rfl | cases inPlace

/-- A partition that stays has its old length until it is resized. -/
theorem length?_of_stays (h : Run s replaced done) {o n : Device}
    (stays : Stays s.lhs s.rhs replaced device o n) :
    (∃ i mode, s.Resizing i device mode ∧ i ∈ done ∧
      (s.machine done).length? device = (Machine.of s.rhs).length? device) ∨
    (∀ i mode, s.Resizing i device mode → i ∉ done) ∧
      (s.machine done).length? device = (Machine.of s.lhs).length? device := by
  have st := h.standing device
  rw [length?_of_found stays.before, length?_of_found stays.after]
  unfold length?
  generalize s.machine done device = there at st
  cases st with
  | old goes => exact absurd goes stays.not_goes
  | gone leaves => exact absurd stays (leaves o n)
  | new comes => exact absurd comes stays.not_comes
  | kept stays' _ region =>
    obtain rfl := Option.some.inj (stays.before.symm.trans stays'.before)
    obtain rfl := Option.some.inj (stays.after.symm.trans stays'.after)
    rcases region with ⟨i, mode, resizing, hi, same⟩ | ⟨unresized, same⟩
    · exact .inl ⟨i, mode, resizing, hi, by simp [same]⟩
    · exact .inr ⟨unresized, by simp [same]⟩

/-- A partition has its new length once it was created and resized. -/
theorem length?_of_ready (h : Run s replaced done) {new : Device}
    (hn : s.rhs.find? device = some new)
    (created : ∀ c, s.creates? device = some c → c.first ∈ done)
    (resized : ∀ i mode, s.Resizing i device mode → i ∈ done) :
    (s.machine done).length? device = (Machine.of s.rhs).length? device := by
  rcases Settled.stays_or_comes s.lhs replaced hn with ⟨old, stays⟩ | comes
  · rcases h.length?_of_stays stays with ⟨_, _, _, _, same⟩ | ⟨unresized, same⟩
    · exact same
    · have none : ∀ i mode, ¬s.Resizing i device mode := fun i mode hi =>
        unresized i mode hi (resized i mode hi)
      rw [same, length?_of_found stays.before, length?_of_found stays.after,
        length_of_unresized h.sound stays none]
  · obtain ⟨c, hc, _⟩ := h.sound.exists_creates? comes
    have st := h.standing device
    rw [length?_of_found hn]
    unfold length?
    generalize s.machine done device = there at st
    cases st with
    | old goes pending =>
      obtain ⟨c', hc', _⟩ := h.sound.exists_deletes? goes
      exact absurd (h.follows.mem_of_mem (.again hc' hc) (created c hc)) (pending c' hc')
    | gone _ _ pending => exact absurd (created c hc) (pending c hc)
    | new comes' _ _ region =>
      obtain rfl := Option.some.inj (hn.symm.trans comes'.after)
      simp [region]
    | kept stays => exact absurd comes stays.not_comes

/-- A partition has its old length as long as something that goes is on it. -/
theorem length?_of_pending (h : Run s replaced done) {c : Chain}
    (hc : s.deletes? x = some c) (pending : c.last ∉ done)
    (hp : s.lhs.parent? x = some device) :
    (s.machine done).length? device = (Machine.of s.lhs).length? device := by
  obtain ⟨d, hd⟩ := h.sound.lhs.parent_found hp
  rcases Settled.stays_or_goes s.rhs replaced hd with ⟨n, stays⟩ | above
  · rcases h.length?_of_stays stays with ⟨i, mode, resizing, hi, _⟩ | ⟨_, same⟩
    · exact absurd (h.follows.mem_of_mem (.gone hp hc resizing) hi) pending
    · exact same
  · obtain ⟨c', hc', _⟩ := h.sound.exists_deletes? above
    have st := h.standing device
    rw [length?_of_found hd]
    unfold length?
    generalize s.machine done device = there at st
    cases st with
    | old goes' _ _ region =>
      obtain rfl := Option.some.inj (hd.symm.trans goes'.before)
      simp [region]
    | gone _ deleted =>
      have begun := h.first_of_last (h.sound.find?_chains.1 hc').1 (deleted c' hc')
      exact absurd (h.follows.mem_of_mem (.deletion hc hp hc') begun) pending
    | new comes created =>
      obtain ⟨again, ha, _⟩ := h.sound.exists_creates? comes
      exact absurd (h.deleted_on_of_created comes ha (created again ha) hp hc) pending
    | kept stays => exact absurd above stays.not_goes

end Run

/-! ### Which actions change the size of a filesystem -/

namespace Setting

variable {s : Setting} {replaced : List Sid} {i j k : Nat} {c : Chain} {kind : ActionKind}
  {x : Sid}

/-- What is resized is a filesystem that stays. -/
theorem Following.stays (h : s.Sound replaced) {mode : ResizeMode} (hi : s.Following i x mode) :
    ∃ old new o n, Stays s.lhs s.rhs replaced x old new ∧ old.attributes = .filesystem o ∧
      new.attributes = .filesystem n ∧ filesystemResize? s.lhs s.rhs x = .ok (some mode) := by
  obtain ⟨c, k, occurs, rfl⟩ := hi
  exact (occurs.resizeFilesystem h).2

theorem Resizing.lt_length (h : s.Sound replaced) {mode : ResizeMode} (hi : s.Resizing i x mode) :
    i < s.actions.length := by
  obtain ⟨c, k, occurs, _⟩ := hi
  exact h.lt_length_of_taken ⟨c, k, _, occurs⟩

theorem Following.lt_length (h : s.Sound replaced) {mode : ResizeMode}
    (hi : s.Following i x mode) : i < s.actions.length := by
  obtain ⟨c, k, occurs, _⟩ := hi
  exact h.lt_length_of_taken ⟨c, k, _, occurs⟩

/-- How a filesystem has to follow the partition that it stays on. -/
theorem filesystemResize?_eq_ok {lhs rhs : Devicegraph} {device : Sid} {n : Filesystem}
    {po pn : Partition} (hn : rhs.filesystem x = .ok n) (hd : rhs.parent? x = some device)
    (ho : lhs.partition device = .ok po) (hp : rhs.partition device = .ok pn) :
    filesystemResize? lhs rhs x =
      .ok (ResizeMode.between? po.region.length pn.region.length) := by
  simp only [filesystemResize?, (Devicegraph.Valid.filesystemBlkDevice_eq_ok hn).2 hd, bind,
    Except.bind, ho, hp]
  rfl

/-- A filesystem that stays on a partition is resized exactly if the partition is. -/
theorem Sound.exists_following_iff (h : s.Sound replaced) {device : Sid} {old new : Device}
    {o n : Filesystem} {po pn : Partition} {mode : ResizeMode}
    (stays : Stays s.lhs s.rhs replaced x old new) (ho : old.attributes = .filesystem o)
    (hn : new.attributes = .filesystem n) (hd : s.rhs.parent? x = some device)
    (hpo : s.lhs.partition device = .ok po) (hpn : s.rhs.partition device = .ok pn) :
    (∃ i, s.Following i x mode) ↔
      ResizeMode.between? po.region.length pn.region.length = some mode := by
  have resize_eq := filesystemResize?_eq_ok
    (Devicegraph.filesystem_eq_ok.2 ⟨new, stays.after, hn⟩) hd hpo hpn
  constructor
  · rintro ⟨i, hi⟩
    obtain ⟨_, _, _, _, _, _, _, found⟩ := hi.stays h
    exact Except.ok.inj (resize_eq.symm.trans found)
  · intro between
    have kinds_eq : changeKinds s.lhs s.rhs old new = .ok (filesystemChanges o n (some mode)) := by
      rw [changeKinds, ho, hn, Devicegraph.sid_of_find? stays.after, resize_eq, between]
      rfl
    have mem : ActionKind.resizeFilesystem mode ∈ filesystemChanges o n (some mode) := by
      simp [filesystemChanges]
    have serves : Serves s.lhs s.rhs replaced (.change, x, filesystemChanges o n (some mode)) :=
      ⟨old, new, stays, kinds_eq⟩
    obtain ⟨c, hc, kinds⟩ := h.exists_chain serves (List.ne_nil_of_mem mem)
    obtain ⟨k, hk, same⟩ := List.getElem_of_mem (kinds ▸ mem)
    obtain ⟨chained, _, rfl⟩ := h.find?_chains.1 hc
    exact ⟨_, c, k, same ▸ Occurs.of_lt chained hk, rfl⟩

/-- What an action means for the size of a device. -/
inductive Gauging (s : Setting) (i : Nat) (x : Sid) (before after : Option Nat) : Prop
  /-- It creates a filesystem. -/
  | creation {c : Chain} (hc : s.creates? x = some c) (here : i = c.first)
      (size : after = s.rhs.room? x)
  /-- It deletes a filesystem. -/
  | deletion {c : Chain} (hc : s.deletes? x = some c) (here : i = c.last)
  /-- It resizes a filesystem. -/
  | follow {mode : ResizeMode} (following : s.Following i x mode) (size : after = s.rhs.room? x)
  /-- It does nothing of that kind. -/
  | idle (uncreated : ∀ {c new}, s.creates? x = some c → s.rhs.find? x = some new →
        new.kind = .filesystem → i ≠ c.first)
      (unfollowed : ∀ mode, ¬s.Following i x mode) (size : after = before)

/-- An action that does not create or resize the filesystem. -/
theorem Gauging.of_other (h : s.Sound replaced) (occurs : s.Occurs i c k kind)
    (created : c.sid = x → kind ≠ .createFilesystem)
    (resized : c.sid = x → ∀ mode, kind ≠ .resizeFilesystem mode) (size : Option Nat) :
    s.Gauging i x size size := by
  refine .idle (fun {c' new} hc hn hk here => ?_) (fun mode following => ?_) rfl
  · obtain ⟨fs, ha⟩ := Devicegraph.attributes_of_isFilesystem hk
    obtain ⟨rfl, _, same⟩ := occurs.unique h (here ▸ h.occurs_addition hc hn)
    exact created (h.find?_chains.1 hc).2.2 (same.trans (by rw [ha]; rfl))
  · obtain ⟨c', l, occurs', same⟩ := following
    obtain ⟨rfl, _, rfl⟩ := occurs.unique h occurs'
    exact resized same mode rfl

end Setting

/-! ### The size of a filesystem at a moment -/

/-- What the sizes are after the actions `done`. -/
structure Gauged (s : Setting) (replaced : List Sid) (done : List Nat) (size : Sid → Option Nat) :
    Prop where
  /-- A filesystem that goes keeps its size until then. -/
  old : ∀ {x d c}, Goes s.lhs s.rhs replaced x d → s.deletes? x = some c → c.last ∉ done →
    size x = s.lhs.room? x
  /-- A filesystem that comes has the size of its partition. -/
  new : ∀ {x d c}, Comes s.lhs s.rhs replaced x d → d.kind = .filesystem →
    s.creates? x = some c → c.first ∈ done → size x = s.rhs.room? x
  /-- So has one that was resized. -/
  followed : ∀ {x i mode}, s.Following i x mode → i ∈ done → size x = s.rhs.room? x
  /-- A filesystem that stays keeps its size until it is resized. -/
  unfollowed : ∀ {x o n}, Stays s.lhs s.rhs replaced x o n →
    (∀ i mode, s.Following i x mode → i ∉ done) → size x = s.lhs.room? x

namespace Run

variable {s : Setting} {replaced : List Sid} {done : List Nat} {i : Nat} {x : Sid}

/-- When all is done that has to come before a creation, the partition below has its new length. -/
theorem room?_of_ready (h : Run s replaced done) {c : Chain} (hc : s.creates? x = some c)
    (ready : ∀ j, s.Precedes j c.first → j ∈ done) :
    (s.rhs.parent? x).bind (s.machine done).length? = s.rhs.room? x := by
  unfold Devicegraph.room?
  cases hp : s.rhs.parent? x with
  | none => rfl
  | some device =>
    obtain ⟨new, hn⟩ := h.sound.rhs.parent_found hp
    refine h.length?_of_ready hn (fun above ha => ?_) fun i mode hi => ?_
    · have ended := ready _ (.creation hc hp ha)
      exact h.first_of_last (h.sound.find?_chains.1 ha).1 ended
    · exact ready i (.made hp hi hc)

/-- What the next action means for the size of a device. -/
theorem gauging (h : Run s replaced (done ++ [i])) {a : Action} (ha : s.actions[i]? = some a)
    {m : Measured} (hm : m.machine = s.machine done) (x : Sid) :
    s.Gauging i x (m.size x) ((m.act s.rhs a).size x) := by
  obtain ⟨c, k, kind, occurs, rfl⟩ := h.sound.getElem?_actions.1 ha
  by_cases same : c.sid = x
  · subst same
    have after_eq : ∀ {size}, m.sizeAfter s.rhs ⟨c.sid, kind, k == 0, k + 1 == c.kinds.length⟩ =
        size → (m.act s.rhs ⟨c.sid, kind, k == 0, k + 1 == c.kinds.length⟩).size c.sid = size := by
      rintro _ rfl
      exact Function.update_self ..
    unfold Measured.sizeAfter at after_eq
    split at after_eq
    · next hk =>
      obtain rfl : kind = .createFilesystem := hk
      obtain ⟨hc, rfl⟩ := occurs.creation h.sound rfl
      rw [hm] at after_eq
      exact .creation hc rfl (after_eq (h.initial.room?_of_ready hc fun _ => h.mem_of_next))
    · next mode hk =>
      obtain rfl : kind = .resizeFilesystem mode := hk
      exact .follow ⟨c, k, occurs, rfl⟩ (after_eq rfl)
    · next hk =>
      obtain rfl : kind = .deleteFilesystem := hk
      obtain ⟨hc, here⟩ := occurs.deletion h.sound rfl
      exact .deletion hc here
    · next created resized _ =>
      rw [after_eq rfl]
      exact .of_other h.sound occurs (fun _ => created) (fun _ mode => resized mode) _
  · have unchanged : (m.act s.rhs ⟨c.sid, kind, k == 0, k + 1 == c.kinds.length⟩).size x =
        m.size x := Function.update_of_ne (Ne.symm same) ..
    rw [unchanged]
    exact .of_other h.sound occurs (absurd · same) (absurd · same) _

/-- The sizes are right after one more action. -/
theorem gauged_of_next (h : Run s replaced (done ++ [i])) {size size' : Sid → Option Nat}
    (gauged : Gauged s replaced done size) (next : ∀ x, s.Gauging i x (size x) (size' x)) :
    Gauged s replaced (done ++ [i]) size' := by
  refine ⟨fun {x d c} goes hc pending => ?_, fun {x d c} comes hk hc created => ?_,
    fun {x j mode} hj hd => ?_, fun {x o n} stays none => ?_⟩
  · simp only [List.mem_append, List.mem_singleton, not_or] at pending
    cases next x with
    | creation hc' here =>
      exact absurd (h.mem_of_next (here ▸ .again hc hc')) pending.1
    | deletion hc' here =>
      obtain rfl := Option.some.inj (hc.symm.trans hc')
      exact absurd here.symm pending.2
    | follow following =>
      obtain ⟨_, _, _, _, stays, _⟩ := following.stays h.sound
      exact absurd goes stays.not_goes
    | idle _ _ same => exact same.trans (gauged.old goes hc pending.1)
  · cases next x with
    | creation _ _ same => exact same
    | deletion hc' here =>
      exact absurd (here ▸ h.mem_of_precedes (.again hc' hc) created) h.next_notMem
    | follow _ same => exact same
    | idle uncreated _ same =>
      rcases List.mem_append.1 created with created | here
      · exact same.trans (gauged.new comes hk hc created)
      · exact absurd (List.mem_singleton.1 here).symm (uncreated hc comes.after hk)
  · obtain ⟨_, _, _, _, stays, _⟩ := hj.stays h.sound
    cases next x with
    | creation _ _ same => exact same
    | deletion hc =>
      obtain ⟨_, goes, _⟩ := h.sound.of_deletes? hc
      exact absurd goes stays.not_goes
    | follow _ same => exact same
    | idle _ unfollowed same =>
      rcases List.mem_append.1 hd with hd | here
      · exact same.trans (gauged.followed hj hd)
      · exact absurd (List.mem_singleton.1 here ▸ hj) (unfollowed mode)
  · cases next x with
    | creation hc =>
      obtain ⟨_, comes, _⟩ := h.sound.of_creates? hc
      exact absurd comes stays.not_comes
    | deletion hc =>
      obtain ⟨_, goes, _⟩ := h.sound.of_deletes? hc
      exact absurd goes stays.not_goes
    | follow following =>
      exact absurd (List.mem_append_right _ (List.mem_singleton_self i)) (none i _ following)
    | idle _ _ same =>
      refine same.trans (gauged.unfollowed stays fun j mode hj hd => ?_)
      exact none j mode hj (List.mem_append_left _ hd)

/-- The sizes at each moment. -/
theorem gauged (h : Run s replaced done) : Gauged s replaced done
    ((Measured.of s.lhs).replay s.rhs (done.filterMap fun i => s.actions[i]?)).size := by
  induction done using List.reverseRecOn with
  | nil =>
    exact ⟨fun _ _ _ => rfl, fun _ _ _ created => absurd created List.not_mem_nil,
      fun _ hd => absurd hd List.not_mem_nil, fun _ _ => rfl⟩
  | append_singleton done i ih =>
    refine h.gauged_of_next (ih h.initial) fun x => ?_
    rw [List.filterMap_append, Measured.replay_append]
    cases ha : s.actions[i]? with
    | none =>
      have untaken : ¬s.Taken i := by
        rintro ⟨c, k, kind, occurs⟩
        simp [h.sound.getElem?_actions.2 ⟨c, k, kind, occurs, rfl⟩] at ha
      have skipped : [i].filterMap (fun i => s.actions[i]?) = [] := by simp [ha]
      rw [skipped]
      refine .idle (fun {c new} hc hn _ here => ?_) (fun mode following => ?_) rfl
      · exact untaken ⟨c, _, _, here ▸ h.sound.occurs_addition hc hn⟩
      · obtain ⟨c, k, occurs, _⟩ := following
        exact untaken ⟨c, k, _, occurs⟩
    | some a =>
      have here : [i].filterMap (fun i => s.actions[i]?) = [a] := by simp [ha]
      rw [here]
      exact h.gauging ha (Measured.machine_replay ..) x

/-- A filesystem that stays takes what its partition has, or less while one of them is still to be
resized. -/
theorem size_of_stays (h : Run s replaced done) {size : Sid → Option Nat}
    (gauged : Gauged s replaced done size) {device : Sid} {old new o n : Device}
    (stays : Stays s.lhs s.rhs replaced x old new) (isFilesystem : old.kind = .filesystem)
    (hp : s.lhs.parent? x = some device) (below : Stays s.lhs s.rhs replaced device o n)
    {po pn : Partition} (hpo : o.attributes = .partition po) (hpn : n.attributes = .partition pn)
    {length : Nat} (there : (s.machine done).length? device = some length) :
    ∃ m, size x = some m ∧ m ≤ length ∧ ((∀ i < s.actions.length, i ∈ done) → m = length) := by
  have settled := h.sound.settled
  have hp' : s.rhs.parent? x = some device := settled.parent stays ▸ hp
  obtain ⟨fo, ho⟩ := Devicegraph.attributes_of_isFilesystem isFilesystem
  obtain ⟨fn, hn⟩ := Devicegraph.attributes_of_isFilesystem
    ((settled.inPlace stays).kind_eq.trans isFilesystem)
  have lhs_length : (Machine.of s.lhs).length? device = some po.region.length := by
    simp [length?_of_found below.before, hpo, Attributes.region?]
  have rhs_length : (Machine.of s.rhs).length? device = some pn.region.length := by
    simp [length?_of_found below.after, hpn, Attributes.region?]
  have following : ∀ {mode}, (∃ i, s.Following i x mode) ↔
      ResizeMode.between? po.region.length pn.region.length = some mode :=
    h.sound.exists_following_iff stays ho hn hp'
      (Devicegraph.partition_eq_ok.2 ⟨o, below.before, hpo⟩)
      (Devicegraph.partition_eq_ok.2 ⟨n, below.after, hpn⟩)
  have resizing : ∀ {mode}, (∃ i, s.Resizing i device mode) ↔
      ResizeMode.between? po.region.length pn.region.length = some mode :=
    h.sound.exists_resizing_iff below hpo hpn
  by_cases followed : ∃ j mode, s.Following j x mode ∧ j ∈ done
  · obtain ⟨j, mode, hj, hd⟩ := followed
    have between := following.1 ⟨j, hj⟩
    obtain ⟨i, hi⟩ := resizing.2 between
    refine ⟨pn.region.length, ?_, ?_⟩
    · rw [gauged.followed hj hd, Devicegraph.room?, hp', Option.bind_some, rhs_length]
    rcases h.length?_of_stays below with ⟨_, _, _, _, same⟩ | ⟨unresized, same⟩
    · obtain rfl := Option.some.inj (there.symm.trans (same.trans rhs_length))
      exact ⟨Nat.le_refl _, fun _ => rfl⟩
    · obtain rfl := Option.some.inj (there.symm.trans (same.trans lhs_length))
      cases mode with
      | grow => exact absurd (h.follows.mem_of_mem (.grow hp' hi hj) hd) (unresized i _ hi)
      | shrink =>
        refine ⟨Nat.le_of_lt (between?_eq_shrink.1 between), fun complete => ?_⟩
        exact absurd (complete i (hi.lt_length h.sound)) (unresized i _ hi)
  · have unfollowed : ∀ j mode, s.Following j x mode → j ∉ done := fun j mode hj hd =>
      followed ⟨j, mode, hj, hd⟩
    refine ⟨po.region.length, ?_, ?_⟩
    · rw [gauged.unfollowed stays unfollowed, Devicegraph.room?, hp, Option.bind_some, lhs_length]
    rcases h.length?_of_stays below with ⟨i, mode, hi, hd, same⟩ | ⟨_, same⟩
    · obtain rfl := Option.some.inj (there.symm.trans (same.trans rhs_length))
      have between := resizing.1 ⟨i, hi⟩
      obtain ⟨j, hj⟩ := following.2 between
      cases mode with
      | grow =>
        refine ⟨Nat.le_of_lt (between?_eq_grow.1 between), fun complete => ?_⟩
        exact absurd (complete j (hj.lt_length h.sound)) (unfollowed j _ hj)
      | shrink => exact absurd (h.follows.mem_of_mem (.shrink hp' hj hi) hd) (unfollowed j _ hj)
    · obtain rfl := Option.some.inj (there.symm.trans (same.trans lhs_length))
      exact ⟨Nat.le_refl _, fun _ => rfl⟩

/-- A filesystem takes what its partition has, or less while one of them is still to be resized. -/
theorem size_of_present (h : Run s replaced done) {size : Sid → Option Nat}
    (gauged : Gauged s replaced done size) {device : Sid} {fs : Filesystem} {above : Option Sid}
    {p : Partition} (hx : s.machine done x = some ⟨some device, .filesystem fs⟩)
    (hp : s.machine done device = some ⟨above, .partition p⟩) :
    ∃ m, size x = some m ∧ m ≤ p.region.length ∧
      ((∀ i < s.actions.length, i ∈ done) → m = p.region.length) := by
  have there : (s.machine done).length? device = some p.region.length := by
    simp [length?, hp, Attributes.region?]
  have st := h.standing x
  rw [hx] at st
  generalize hparent : some device = parent at st
  cases st with
  | @old d _ goes pending =>
    obtain ⟨c, hc, _⟩ := h.sound.exists_deletes? goes
    have size_eq := gauged.old goes hc (pending c hc)
    rw [Devicegraph.room?, ← hparent, Option.bind_some,
      ← h.length?_of_pending hc (pending c hc) hparent.symm, there] at size_eq
    exact ⟨_, size_eq, Nat.le_refl _, fun _ => rfl⟩
  | @new d _ comes created like =>
    obtain ⟨c, hc, _⟩ := h.sound.exists_creates? comes
    have ready : ∀ j, s.Precedes j c.first → j ∈ done := fun j hj =>
      h.follows.mem_of_mem hj (created c hc)
    have size_eq := gauged.new comes like.kind_eq.symm hc (created c hc)
    rw [← h.room?_of_ready hc ready, ← hparent, Option.bind_some, there] at size_eq
    exact ⟨_, size_eq, Nat.le_refl _, fun _ => rfl⟩
  | @kept old _ _ stays like =>
    obtain ⟨o, n, below⟩ := h.sound.settled.stays_parent stays hparent.symm
    obtain ⟨a, ha, likeBelow⟩ := h.present_of_stays below
    obtain ⟨_, rfl⟩ := Placed.mk.inj (Option.some.inj (hp.symm.trans ha))
    obtain ⟨po, hpo, _⟩ := likeBelow.isPartition
    obtain ⟨pn, hpn, _⟩ := (hpo ▸ h.sound.settled.inPlace below).isPartition
    exact h.size_of_stays gauged stays like.kind_eq.symm hparent.symm below hpo hpn there

end Run

/-! ### Filesystems that cannot follow -/

/-- A filesystem that stays can follow its partition. -/
theorem follows_of_stays {lhs rhs : Devicegraph} (hl : lhs.Valid) (hr : rhs.Valid)
    {replaced : List Sid} (h : Plan.replaced lhs rhs = .ok replaced) {sid : Sid} {old new : Device}
    (stays : Stays lhs rhs replaced sid old new) {o n : Filesystem} {mode : ResizeMode}
    (ho : old.attributes = .filesystem o) (hn : new.attributes = .filesystem n)
    (resize : filesystemResize? lhs rhs sid = .ok (some mode)) :
    o.fsType.follows mode = true ∧ n.fsType.follows mode = true := by
  have unhindered := obstacle?_of_stays hl hr h stays
  obtain ⟨parent_eq, type_eq⟩ := of_obstacle?_none hl hr stays.before stays.after unhindered
  rw [ho, hn] at type_eq
  obtain rfl := Devicegraph.sid_of_find? stays.after
  have unmoved : lhs.parents new.sid = rhs.parents new.sid := by
    rw [hl.parents_eq stays.before, hr.parents_eq stays.after, parent_eq]
  have fitting : Obstacle.ofResize? n.fsType (some mode) = none := by
    simp only [obstacle?, unmoved, ho, hn, resize, hr.parents_eq stays.after] at unhindered
    simpa [bind, Except.bind, pure, Except.pure, show o.fsType = n.fsType from type_eq]
      using unhindered
  rw [show o.fsType = n.fsType from type_eq, and_self]
  cases mode <;> simpa [Obstacle.ofResize?, FsType.follows] using fitting

/-- The filesystem would have to follow its partition in a way that its type before or its type after
does not support. -/
def CannotFollow (lhs rhs : Devicegraph) (sid : Sid) : Prop :=
  ∃ o n device po pn mode, lhs.filesystem sid = .ok o ∧ rhs.filesystem sid = .ok n ∧
    rhs.parent? sid = some device ∧ lhs.partition device = .ok po ∧
    rhs.partition device = .ok pn ∧
    ResizeMode.between? po.region.length pn.region.length = some mode ∧
    (o.fsType.follows mode = false ∨ n.fsType.follows mode = false)

theorem CannotFollow.not_stays {lhs rhs : Devicegraph} (hl : lhs.Valid) (hr : rhs.Valid)
    {replaced : List Sid} (h : Plan.replaced lhs rhs = .ok replaced) {sid : Sid}
    (stuck : CannotFollow lhs rhs sid) (old new : Device) :
    ¬Stays lhs rhs replaced sid old new := by
  obtain ⟨o, n, device, po, pn, mode, ho, hn, hd, hpo, hpn, between, unsupported⟩ := stuck
  intro stays
  obtain ⟨_, found, oldAttributes⟩ := Devicegraph.filesystem_eq_ok.1 ho
  obtain rfl := Option.some.inj (stays.before.symm.trans found)
  obtain ⟨_, found, newAttributes⟩ := Devicegraph.filesystem_eq_ok.1 hn
  obtain rfl := Option.some.inj (stays.after.symm.trans found)
  have resize := (Setting.filesystemResize?_eq_ok hn hd hpo hpn).trans (congrArg _ between)
  obtain ⟨before, after⟩ := follows_of_stays hl hr h stays oldAttributes newAttributes resize
  rw [before, after] at unsupported
  simp at unsupported

/-- The filesystem is never resized. It is deleted when its partition in `lhs` was not yet resized,
and created later, when its partition in `rhs` is no longer to be resized. -/
def Recreates (lhs rhs : Devicegraph) (actions : List Action) (sid : Sid) : Prop :=
  (∀ a ∈ actions, a.sid = sid → ∀ mode, a.kind ≠ .resizeFilesystem mode) ∧
  ∃ before deletion between creation after,
    actions = before ++ deletion :: between ++ creation :: after ∧
    (deletion.sid = sid ∧ deletion.kind = .deleteFilesystem) ∧
    (creation.sid = sid ∧ creation.kind = .createFilesystem) ∧
    (∀ a ∈ before, lhs.parent? sid = some a.sid → ∀ mode, a.kind ≠ .resizePartition mode) ∧
    ∀ a ∈ after, rhs.parent? sid = some a.sid → ∀ mode, a.kind ≠ .resizePartition mode

namespace Realizes

variable {p : Plan} {s : Setting} {replaced : List Sid} {i j : Nat} {a b : Action}

/-- What precedes an action by a rule comes before it in the plan. -/
theorem exists_cut (h : Realizes p s replaced) (ha : s.actions[i]? = some a)
    (hb : s.actions[j]? = some b) (hp : s.Precedes i j) : ∃ before between after,
      p.order = before ++ i :: between ++ j :: after ∧
      p.actions = before.filterMap (fun i => s.actions[i]?) ++
        a :: between.filterMap (fun i => s.actions[i]?) ++
        b :: after.filterMap (fun i => s.actions[i]?) := by
  obtain ⟨inside, _⟩ := List.getElem?_eq_some_iff.1 hb
  obtain ⟨earlier, after, order_eq⟩ := List.append_of_mem (h.complete j inside)
  obtain ⟨before, between, rfl⟩ :=
    List.append_of_mem (h.run.follows earlier j after order_eq i hp)
  refine ⟨before, between, after, order_eq, ?_⟩
  simp only [Plan.actions, h.actions_eq, order_eq, List.filterMap_append,
    List.filterMap_cons_some ha, List.filterMap_cons_some hb]

/-- A filesystem that does not stay. -/
theorem recreates (h : Realizes p s replaced) {sid : Sid} {old new : Device}
    (leaves : ∀ o n, ¬Stays s.lhs s.rhs replaced sid o n) (ho : s.lhs.find? sid = some old)
    (hn : s.rhs.find? sid = some new) (oldKind : old.kind = .filesystem)
    (newKind : new.kind = .filesystem) : Recreates s.lhs s.rhs p.actions sid := by
  have sound := h.run.sound
  obtain ⟨fo, hfo⟩ := Devicegraph.attributes_of_isFilesystem oldKind
  obtain ⟨fn, hfn⟩ := Devicegraph.attributes_of_isFilesystem newKind
  obtain ⟨c, hc, _⟩ := sound.exists_deletes? (Settled.goes_of_not_stays ho leaves)
  obtain ⟨c', hc', _⟩ := sound.exists_creates? (Settled.comes_of_not_stays hn leaves)
  obtain ⟨_, _, rfl⟩ := sound.find?_chains.1 hc
  obtain ⟨_, _, same⟩ := sound.find?_chains.1 hc'
  have deletion := sound.getElem?_actions.2 ⟨c, _, _, sound.occurs_removal hc ho, rfl⟩
  have creation := sound.getElem?_actions.2 ⟨c', _, _, sound.occurs_addition hc' hn, rfl⟩
  obtain ⟨before, between, after, order_eq, actions_eq⟩ :=
    h.exists_cut deletion creation (.again hc hc')
  have run := h.run
  rw [order_eq] at run
  refine ⟨?_, _, _, _, _, _, actions_eq, ⟨rfl, by rw [hfo]; rfl⟩, ⟨same, by rw [hfn]; rfl⟩, ?_, ?_⟩
  · intro a ha hs mode hk
    obtain ⟨k, cx, l, occurs, sid_eq⟩ := h.exists_occurs ha
    rw [hk] at occurs
    obtain ⟨_, _, _, _, _, stays, _⟩ := occurs.resizeFilesystem sound
    rw [sid_eq, hs] at stays
    exact leaves _ _ stays
  · -- A resize of the old partition would have to wait for the deletion.
    intro a ha hp mode hk
    obtain ⟨k, mem, hk'⟩ := List.mem_filterMap.1 ha
    obtain ⟨cx, l, kind, occurs, rfl⟩ := sound.getElem?_actions.1 hk'
    obtain rfl : kind = .resizePartition mode := hk
    rw [List.append_assoc] at run
    have deleted := run.initial.follows.mem_of_mem (.gone hp hc ⟨cx, l, occurs, rfl⟩) mem
    exact (List.nodup_append.1 run.once).2.2 _ deleted _ List.mem_cons_self rfl
  · -- A resize of the new partition would have to come before the creation.
    intro a ha hp mode hk
    obtain ⟨k, mem, hk'⟩ := List.mem_filterMap.1 ha
    obtain ⟨cx, l, kind, occurs, rfl⟩ := sound.getElem?_actions.1 hk'
    obtain rfl : kind = .resizePartition mode := hk
    have resized := run.follows _ _ _ rfl k (.made hp ⟨cx, l, occurs, rfl⟩ hc')
    exact (List.nodup_append.1 run.once).2.2 _ resized _ (List.mem_cons_of_mem _ mem) rfl

/-- The sizes after a beginning of the plan. -/
theorem size_spec (h : Realizes p s replaced) {earlier later : List Action}
    (cut : p.actions = earlier ++ later) : ∃ done rest, p.order = done ++ rest ∧
      Run s replaced done ∧
      ((Measured.of s.lhs).replay s.rhs earlier).machine = s.machine done ∧
      Gauged s replaced done ((Measured.of s.lhs).replay s.rhs earlier).size := by
  rw [Plan.actions, h.actions_eq] at cut
  obtain ⟨done, rest, order_eq, rfl, _⟩ := List.filterMap_eq_append_iff.1 cut
  have run : Run s replaced done := (order_eq ▸ h.run).initial
  exact ⟨done, rest, order_eq, run, Measured.machine_replay .., run.gauged⟩

end Realizes

/-- At each moment of a plan between checked devicegraphs every filesystem on a partition takes what
the partition has or less, and after the plan it takes all of it. Only filesystems are resized whose
type supports it; one that cannot follow its partition is deleted before the partition is resized
and created after it. -/
theorem size_between {lhs rhs : Devicegraph} (hl : lhs.check = .ok ()) (hr : rhs.check = .ok ()) :
    ∃ p, between lhs rhs = .ok p ∧
      (∀ earlier later, p.actions = earlier ++ later →
        ((Measured.of lhs).replay rhs earlier).Fits) ∧
      ((Measured.of lhs).replay rhs p.actions).Fills ∧
      (∀ a ∈ p.actions, ∀ mode, a.kind = .resizeFilesystem mode → ∃ o n,
        lhs.filesystem a.sid = .ok o ∧ rhs.filesystem a.sid = .ok n ∧
          o.fsType.follows mode = true ∧ n.fsType.follows mode = true) ∧
      ∀ sid, CannotFollow lhs rhs sid → Recreates lhs rhs p.actions sid := by
  obtain ⟨p, s, replaced, hp, rfl, rfl, realizes⟩ := between_spec hl hr
  have sound := realizes.run.sound
  refine ⟨p, hp, ?_, ?_, ?_, ?_⟩
  · intro earlier later cut sid partition fs above q hx hq
    obtain ⟨done, rest, _, run, machine_eq, gauged⟩ := realizes.size_spec cut
    rw [machine_eq] at hx hq
    obtain ⟨m, size_eq, le, _⟩ := run.size_of_present gauged hx hq
    exact ⟨m, size_eq, le⟩
  · intro sid partition fs above q hx hq
    have all : p.actions = p.order.filterMap fun i => s.actions[i]? := by
      rw [Plan.actions, realizes.actions_eq]
    rw [Measured.machine_replay, all] at hx hq
    rw [all]
    obtain ⟨m, size_eq, _, complete⟩ := realizes.run.size_of_present realizes.run.gauged hx hq
    rw [size_eq, complete realizes.complete]
  · intro a ha mode hk
    rw [Plan.actions, realizes.actions_eq] at ha
    obtain ⟨k, _, hk'⟩ := List.mem_filterMap.1 ha
    obtain ⟨c, l, kind, occurs, rfl⟩ := sound.getElem?_actions.1 hk'
    obtain rfl : kind = .resizeFilesystem mode := hk
    obtain ⟨_, old, new, o, n, stays, ho, hn, resize⟩ := occurs.resizeFilesystem sound
    exact ⟨o, n, Devicegraph.filesystem_eq_ok.2 ⟨old, stays.before, ho⟩,
      Devicegraph.filesystem_eq_ok.2 ⟨new, stays.after, hn⟩,
      follows_of_stays sound.lhs sound.rhs sound.replaced_eq stays ho hn resize⟩
  · intro sid stuck
    have leaves := stuck.not_stays sound.lhs sound.rhs sound.replaced_eq
    obtain ⟨o, n, _, _, _, _, ho, hn, _⟩ := stuck
    obtain ⟨old, before, oldAttributes⟩ := Devicegraph.filesystem_eq_ok.1 ho
    obtain ⟨new, after, newAttributes⟩ := Devicegraph.filesystem_eq_ok.1 hn
    exact realizes.recreates leaves before after (by rw [Device.kind, oldAttributes]; rfl)
      (by rw [Device.kind, newAttributes]; rfl)

/-- A filesystem that shrinks with its partition. -/
theorem size_shrink : ∃ p,
    between (onePartition ⟨2048, 8192, 512⟩) (onePartition ⟨2048, 4096, 512⟩) = .ok p ∧
      (∀ earlier later, p.actions = earlier ++ later →
        ((Measured.of (onePartition ⟨2048, 8192, 512⟩)).replay (onePartition ⟨2048, 4096, 512⟩)
          earlier).Fits) ∧
      ((Measured.of (onePartition ⟨2048, 8192, 512⟩)).replay (onePartition ⟨2048, 4096, 512⟩)
        p.actions).Fills ∧
      (∀ a ∈ p.actions, ∀ mode, a.kind = .resizeFilesystem mode → ∃ o n,
        (onePartition ⟨2048, 8192, 512⟩).filesystem a.sid = .ok o ∧
        (onePartition ⟨2048, 4096, 512⟩).filesystem a.sid = .ok n ∧
          o.fsType.follows mode = true ∧ n.fsType.follows mode = true) ∧
      ∀ sid, CannotFollow (onePartition ⟨2048, 8192, 512⟩) (onePartition ⟨2048, 4096, 512⟩) sid →
        Recreates (onePartition ⟨2048, 8192, 512⟩) (onePartition ⟨2048, 4096, 512⟩) p.actions sid :=
  size_between (by cbv) (by cbv)

end Plan

end StoragePlan
