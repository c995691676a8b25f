import StoragePlan.Proofs.Timeline

/-!
# How a device stands at a moment

At each moment of a plan a device that goes is there as before until the last action of its deletion,
one that comes is there as after from the first action of its creation on, and one that stays is
there all the time. A partition that stays has its old region until it is resized and its new one
from then on. `Run.standing` says that there is nothing else.
-/

namespace StoragePlan.Plan

open Machine Setting

/-- How a device stands after the actions `done`: what the machine has at its sid, and which actions
make that so. -/
inductive Standing (s : Setting) (replaced : List Sid) (done : List Nat) (sid : Sid) :
    Option Placed → Prop
  /-- It goes and is still there. -/
  | old {d : Device} {a : Attributes} (goes : Goes s.lhs s.rhs replaced sid d)
      (pending : ∀ c, s.deletes? sid = some c → c.last ∉ done) (like : d.attributes.Like a)
      (region : a.region? = d.attributes.region?) :
      Standing s replaced done sid (some ⟨s.lhs.parent? sid, a⟩)
  /-- It went, or was not there before, and has not come yet. -/
  | gone (leaves : ∀ o n, ¬Stays s.lhs s.rhs replaced sid o n)
      (deleted : ∀ c, s.deletes? sid = some c → c.last ∈ done)
      (pending : ∀ c, s.creates? sid = some c → c.first ∉ done) :
      Standing s replaced done sid none
  /-- It has come. -/
  | new {d : Device} {a : Attributes} (comes : Comes s.lhs s.rhs replaced sid d)
      (created : ∀ c, s.creates? sid = some c → c.first ∈ done) (like : d.attributes.Like a)
      (region : a.region? = d.attributes.region?) :
      Standing s replaced done sid (some ⟨s.rhs.parent? sid, a⟩)
  /-- It stays. -/
  | kept {o n : Device} {a : Attributes} (stays : Stays s.lhs s.rhs replaced sid o n)
      (like : o.attributes.Like a)
      (region : (∃ i mode, s.Resizing i sid mode ∧ i ∈ done ∧ a.region? = n.attributes.region?) ∨
        (∀ i mode, s.Resizing i sid mode → i ∉ done) ∧ a.region? = o.attributes.region?) :
      Standing s replaced done sid (some ⟨s.lhs.parent? sid, a⟩)

namespace Run

variable {s : Setting} {replaced : List Sid} {done : List Nat} {sid : Sid}

theorem machine_of_found {g : Devicegraph} {d : Device} (hd : g.find? sid = some d) :
    Machine.of g sid = some ⟨g.parent? sid, d.attributes⟩ := by simp [Machine.of, hd]

/-- A device that stays, at each moment. -/
theorem standing_of_stays (h : Run s replaced done) {o n : Device}
    (stays : Stays s.lhs s.rhs replaced sid o n) :
    Standing s replaced done sid (s.machine done sid) := by
  obtain ⟨m, hm, carried⟩ := h.machine_eq sid
  rw [machine_of_found stays.before] at hm
  have modify : ∀ l, l ⊆ s.life sid → ∀ kind ∈ l.map Prod.fst, kind.actionClass = .modify := by
    intro l hl kind hk
    obtain ⟨x, hx, rfl⟩ := List.mem_map.1 hk
    obtain ⟨c, k, occurs, rfl⟩ := h.sound.mem_life.1 (hl hx)
    exact h.sound.modify_of_stays occurs.mem stays (List.mem_of_getElem? occurs.kind_eq)
  by_cases resized : ∃ i mode, s.Resizing i sid mode ∧ i ∈ done
  · obtain ⟨i, mode, resizing, hi⟩ := resized
    obtain ⟨_, _, po, pn, stays', ho, hn, _⟩ := resizing.stays h.sound
    obtain rfl := Option.some.inj (stays.before.symm.trans stays'.before)
    obtain rfl := Option.some.inj (stays.after.symm.trans stays'.after)
    obtain ⟨rest, hlife, single⟩ := h.sound.life_of_resizing resizing
    have first := (carried 0 (.resizePartition mode, i) (by rw [hlife]; rfl)).1 hi
    obtain ⟨m, rfl⟩ := Nat.exists_eq_add_one.2 first
    have resize : effect s.rhs sid (some ⟨s.lhs.parent? sid, .partition po⟩) (.resizePartition mode) =
        some ⟨s.lhs.parent? sid, .partition { po with region := pn.region }⟩ := by
      rw [effect_modify stays.after _ rfl, hn]
      rfl
    have later : rest.take m ⊆ s.life sid := fun x hx =>
      hlife ▸ List.mem_cons_of_mem _ (List.mem_of_mem_take hx)
    obtain ⟨a, ha, like, region⟩ := foldl_modify s.rhs sid (modify _ later)
      ⟨s.lhs.parent? sid, .partition { po with region := pn.region }⟩
    rw [hm, hlife, List.take_succ_cons, List.map_cons, List.foldl_cons, ho, resize, ha]
    refine .kept stays ?_ (.inl ⟨i, mode, resizing, hi, ?_⟩)
    · rw [ho]
      exact Attributes.Like.trans (b := .partition { po with region := pn.region }) ⟨rfl, rfl⟩ like
    · rw [hn]
      refine region fun mode' hmem => ?_
      obtain ⟨x, hx, same⟩ := List.mem_map.1 hmem
      exact single x (List.mem_of_mem_take hx) mode' same
  · obtain ⟨a, ha, like, region⟩ := foldl_modify s.rhs sid (modify _ (List.take_subset m _))
      ⟨s.lhs.parent? sid, o.attributes⟩
    rw [hm, ha]
    refine .kept stays like (.inr ⟨fun i mode hr hi => resized ⟨i, mode, hr, hi⟩, region ?_⟩)
    intro mode hmem
    obtain ⟨x, hx, same⟩ := List.mem_map.1 hmem
    obtain ⟨k, hk, rfl⟩ := List.mem_take_iff_getElem.1 hx
    obtain ⟨c, l, occurs, hs⟩ := h.sound.mem_life.1 (List.mem_of_mem_take hx)
    have hd := (carried k _ (List.getElem?_eq_getElem (by omega))).2 (by omega)
    exact resized ⟨_, mode, ⟨c, l, same ▸ occurs, hs⟩, hd⟩

/-- A device that is not there, and of whose creation the first `m` actions were carried out. -/
theorem standing_of_absent (h : Run s replaced done)
    (leaves : ∀ o n, ¬Stays s.lhs s.rhs replaced sid o n)
    (deleted : ∀ c, s.deletes? sid = some c → c.last ∈ done) {m : Nat}
    (first : ∀ c, s.creates? sid = some c → (c.first ∈ done ↔ 0 < m)) :
    Standing s replaced done sid
      ((((stepsOf (s.creates? sid)).take m).map Prod.fst).foldl (effect s.rhs sid) none) := by
  cases hc : s.creates? sid with
  | none =>
    simp only [stepsOf, List.take_nil, List.map_nil, List.foldl_nil]
    exact .gone leaves deleted (by simp [hc])
  | some c =>
    obtain ⟨new, comes, kinds_eq⟩ := h.sound.of_creates? hc
    rw [stepsOf, List.map_take, List.zipIdx_map_fst, kinds_eq]
    cases m with
    | zero =>
      refine .gone leaves deleted fun c' hc' hf => ?_
      exact absurd ((first c' hc').1 hf) (Nat.lt_irrefl 0)
    | succ m =>
      obtain ⟨a, ha, like, region⟩ := foldl_take_createKinds comes.after m
      rw [ha]
      exact .new comes (fun c' hc' => (first c' hc').2 (Nat.succ_pos m)) like region

/-- The life of a device that comes begins its creation with the first action of the chain. -/
theorem head_of_creates? (h : Run s replaced done) {c : Chain} (hc : s.creates? sid = some c) :
    ∃ kind, (stepsOf (s.creates? sid))[0]? = some (kind, c.first) := by
  obtain ⟨new, comes, kinds_eq⟩ := h.sound.of_creates? hc
  obtain ⟨after, same, _⟩ := createKinds_eq new.attributes
  exact ⟨_, by rw [hc, stepsOf, kinds_eq, same, List.zipIdx_cons, List.getElem?_cons_zero]⟩

/-- A device that is not there before, at each moment. -/
theorem standing_of_not_found (h : Run s replaced done) (ho : s.lhs.find? sid = none) :
    Standing s replaced done sid (s.machine done sid) := by
  have leaves : ∀ o n, ¬Stays s.lhs s.rhs replaced sid o n := by
    intro o n stays
    rw [stays.before] at ho
    cases ho
  obtain ⟨m, hm, carried⟩ := h.machine_eq sid
  have undeleted := h.sound.deletes?_eq_none (not_goes_of_not_found ho)
  have start : Machine.of s.lhs sid = none := by simp [Machine.of, ho]
  rw [h.sound.life_of_not_stays leaves, undeleted, stepsOf, List.nil_append] at hm carried
  rw [hm, start]
  refine h.standing_of_absent leaves (by simp [undeleted]) fun c hc => ?_
  obtain ⟨kind, hk⟩ := h.head_of_creates? hc
  exact carried 0 _ hk

/-- A device that goes, at each moment. -/
theorem standing_of_goes (h : Run s replaced done) {old : Device}
    (goes : Goes s.lhs s.rhs replaced sid old) :
    Standing s replaced done sid (s.machine done sid) := by
  have leaves : ∀ o n, ¬Stays s.lhs s.rhs replaced sid o n := fun o n stays => stays.not_goes goes
  obtain ⟨m, hm, carried⟩ := h.machine_eq sid
  obtain ⟨c, hc, kinds_eq⟩ := h.sound.exists_deletes? goes
  have occurs := h.sound.occurs_removal hc goes.before
  have lt := occurs.index_lt
  have deletion : (stepsOf (s.deletes? sid)).length = c.kinds.length := by
    rw [hc, stepsOf, List.length_zipIdx]
  have kinds : (stepsOf (s.deletes? sid)).map Prod.fst = deleteKinds old.attributes := by
    rw [hc, stepsOf, List.zipIdx_map_fst, kinds_eq]
  rw [h.sound.life_of_not_stays leaves] at hm carried
  rw [machine_of_found goes.before] at hm
  have last := carried (c.kinds.length - 1) (removal old.attributes, c.last) (by
    rw [List.getElem?_append_left (by omega), hc, stepsOf, List.getElem?_zipIdx, occurs.kind_eq,
      occurs.place]
    rfl)
  by_cases gone : c.last ∈ done
  · have le : c.kinds.length ≤ m := by
      have := last.1 gone
      omega
    rw [hm, List.take_append, List.take_of_length_le (by omega), List.map_append,
      List.foldl_append, kinds, foldl_deleteKinds (.refl _), deletion]
    refine h.standing_of_absent leaves (fun c' hc' => ?_) fun c' hc' => ?_
    · rw [hc] at hc'
      exact Option.some.inj hc' ▸ gone
    · obtain ⟨kind, hk⟩ := h.head_of_creates? hc'
      have at_length := carried c.kinds.length (kind, c'.first) (by
        rw [List.getElem?_append_right (by omega), deletion, Nat.sub_self, hk])
      exact at_length.trans (by omega)
  · have lt : m < c.kinds.length := by
      have := mt last.2 gone
      omega
    obtain ⟨a, ha, like, region⟩ := foldl_take_deleteKinds s.rhs sid
      ⟨s.lhs.parent? sid, old.attributes⟩ (kinds_eq ▸ lt)
    rw [hm, List.take_append_of_le_length (by omega), List.map_take, kinds, ha]
    refine .old goes (fun c' hc' => ?_) like region
    rw [hc] at hc'
    exact Option.some.inj hc' ▸ gone

/-- How each device stands at each moment. -/
theorem standing (h : Run s replaced done) (sid : Sid) :
    Standing s replaced done sid (s.machine done sid) := by
  cases ho : s.lhs.find? sid with
  | none => exact h.standing_of_not_found ho
  | some old =>
    rcases Settled.stays_or_goes s.rhs replaced ho with ⟨new, stays⟩ | goes
    · exact h.standing_of_stays stays
    · exact h.standing_of_goes goes

/-! ### What is there at a moment -/

theorem present_of_stays (h : Run s replaced done) {o n : Device}
    (stays : Stays s.lhs s.rhs replaced sid o n) :
    ∃ a, s.machine done sid = some ⟨s.lhs.parent? sid, a⟩ ∧ o.attributes.Like a := by
  have st := h.standing sid
  generalize s.machine done sid = there at st
  cases st with
  | old goes => exact absurd goes stays.not_goes
  | gone leaves => exact absurd stays (leaves o n)
  | new comes => exact absurd comes stays.not_comes
  | kept stays' like =>
    obtain rfl := Option.some.inj (stays.before.symm.trans stays'.before)
    exact ⟨_, rfl, like⟩

/-- A device is there until its deletion ends. -/
theorem present_of_pending (h : Run s replaced done) {d : Device}
    (goes : Goes s.lhs s.rhs replaced sid d) {c : Chain} (hc : s.deletes? sid = some c)
    (pending : c.last ∉ done) :
    ∃ a, s.machine done sid = some ⟨s.lhs.parent? sid, a⟩ ∧ d.attributes.Like a := by
  have st := h.standing sid
  generalize s.machine done sid = there at st
  cases st with
  | old goes' _ like =>
    obtain rfl := Option.some.inj (goes.before.symm.trans goes'.before)
    exact ⟨_, rfl, like⟩
  | gone _ deleted => exact absurd (deleted c hc) pending
  | new comes created =>
    -- A device that has come was deleted before.
    obtain ⟨c', hc', _⟩ := h.sound.exists_creates? comes
    exact absurd (h.follows.mem_of_mem (.again hc hc') (created c' hc')) pending
  | kept stays => exact absurd goes stays.not_goes

/-- A device is there once its creation has begun. -/
theorem present_of_created (h : Run s replaced done) {d : Device}
    (comes : Comes s.lhs s.rhs replaced sid d) {c : Chain} (hc : s.creates? sid = some c)
    (created : c.first ∈ done) :
    ∃ a, s.machine done sid = some ⟨s.rhs.parent? sid, a⟩ ∧ d.attributes.Like a := by
  have st := h.standing sid
  generalize s.machine done sid = there at st
  cases st with
  | old goes pending =>
    obtain ⟨c', hc', _⟩ := h.sound.exists_deletes? goes
    exact absurd (h.follows.mem_of_mem (.again hc' hc) created) (pending c' hc')
  | gone _ _ pending => exact absurd created (pending c hc)
  | new comes' _ like =>
    obtain rfl := Option.some.inj (comes.after.symm.trans comes'.after)
    exact ⟨_, rfl, like⟩
  | kept stays => exact absurd comes stays.not_comes

/-- A device that comes is not there between its deletion and its creation. -/
theorem absent_of_uncreated (h : Run s replaced done) {d : Device}
    (comes : Comes s.lhs s.rhs replaced sid d) {c : Chain} (hc : s.creates? sid = some c)
    (uncreated : c.first ∉ done) (deleted : ∀ c', s.deletes? sid = some c' → c'.last ∈ done) :
    s.machine done sid = none := by
  have st := h.standing sid
  generalize s.machine done sid = there at st
  cases st with
  | old goes pending =>
    obtain ⟨c', hc', _⟩ := h.sound.exists_deletes? goes
    exact absurd (deleted c' hc') (pending c' hc')
  | gone => rfl
  | new comes created => exact absurd (created c hc) uncreated
  | kept stays => exact absurd comes stays.not_comes

/-- The actions of a chain are carried out from its first on. -/
theorem mem_of_later (h : Run s replaced done) {c : Chain} (hc : c ∈ s.chains) {k l : Nat}
    (hl : l < c.kinds.length) (le : k ≤ l) (hd : c.first + l ∈ done) : c.first + k ∈ done := by
  induction l with
  | zero => rwa [Nat.le_zero.1 le]
  | succ l ih =>
    rcases Nat.le_succ_iff.1 le with le | rfl
    · exact ih (by omega) le (h.follows.mem_of_mem (.link hc hl) hd)
    · exact hd

theorem first_of_last (h : Run s replaced done) {c : Chain} (hc : c ∈ s.chains)
    (hd : c.last ∈ done) : c.first ∈ done := by
  have nonempty := List.length_pos_iff.2 (h.sound.exists_chain_iff.1 ⟨c, hc, rfl⟩).2
  simp only [Chain.source] at nonempty
  have last : c.last = c.first + (c.kinds.length - 1) := by
    rw [Chain.last]
    omega
  exact h.mem_of_later hc (k := 0) (by omega) (Nat.zero_le _) (last ▸ hd)

/-- A device that goes is gone when something is created on the one that replaces it. -/
theorem deleted_of_created_on (h : Run s replaced done) {child : Sid} {d : Device} {c c' : Chain}
    (goes : Goes s.lhs s.rhs replaced sid d) (hc : s.deletes? sid = some c)
    (hp : s.rhs.parent? child = some sid) (hc' : s.creates? child = some c')
    (created : c'.first ∈ done) : c.last ∈ done := by
  obtain ⟨n, hn⟩ := h.sound.rhs.parent_found hp
  have comes : Comes s.lhs s.rhs replaced sid n :=
    ⟨hn, goes.fate.imp (fun none => by rw [none] at hn; cases hn) id⟩
  obtain ⟨above, ha, _⟩ := h.sound.exists_creates? comes
  have ended := h.follows.mem_of_mem (.creation hc' hp ha) created
  have begun := h.first_of_last (h.sound.find?_chains.1 ha).1 ended
  exact h.follows.mem_of_mem (.again hc ha) begun

/-- What was on a device is gone when the one that replaces it is created. -/
theorem deleted_on_of_created (h : Run s replaced done) {child : Sid} {d : Device} {c c' : Chain}
    (comes : Comes s.lhs s.rhs replaced sid d) (hc : s.creates? sid = some c)
    (created : c.first ∈ done) (hp : s.lhs.parent? child = some sid)
    (hc' : s.deletes? child = some c') : c'.last ∈ done := by
  obtain ⟨o, ho⟩ := h.sound.lhs.parent_found hp
  have goes : Goes s.lhs s.rhs replaced sid o :=
    ⟨ho, comes.fate.imp (fun none => by rw [none] at ho; cases ho) id⟩
  obtain ⟨above, ha, _⟩ := h.sound.exists_deletes? goes
  have ended := h.follows.mem_of_mem (.again ha hc) created
  have begun := h.first_of_last (h.sound.find?_chains.1 ha).1 ended
  exact h.follows.mem_of_mem (.deletion hc' hp ha) begun

end Run

end StoragePlan.Plan
