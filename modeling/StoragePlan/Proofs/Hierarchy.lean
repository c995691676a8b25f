import StoragePlan.Proofs.Standing

/-!
# No device is ever without the one below it

While a plan is carried out every device sits on one that is there, and only partition tables hold
several devices (`Nested`). That is what each action needs of the moment it comes at (`Admits`): a
deletion takes away a device that holds nothing, a creation puts a device that is not there on one
that is and has room for it, and everything else is done to a device that is there.

An admitted action keeps the machine nested whatever the plan is. That a plan has only admitted
actions is where its rules come in: children go before and come after the device they sit on, and
a device gives up its old child before it gets a new one.
-/

namespace StoragePlan

namespace Machine

variable {rhs : Devicegraph} {machine : Machine} {sid : Sid} {d : Placed}

/-- Nothing sits on the device. -/
def Childless (machine : Machine) (sid : Sid) : Prop :=
  ∀ child d, machine child = some d → d.parent ≠ some sid

/-- The device is there and can hold one more. -/
def HasRoom (machine : Machine) (parent : Sid) : Prop :=
  ∃ p, machine parent = some p ∧ (p.attributes.kind ≠ .partitionTable → machine.Childless parent)

/-- The moment is right for an action on the way to `rhs`. -/
def Admits (rhs : Devicegraph) (machine : Machine) (sid : Sid) (kind : ActionKind) : Prop :=
  match kind.actionClass with
  | .delete => (∃ d, machine sid = some d) ∧ machine.Childless sid
  | .create => machine sid = none ∧ ∃ parent, rhs.parent? sid = some parent ∧
      machine.HasRoom parent
  | .nop =>
    (∃ d, machine sid = some d ∧ d.attributes.kind = .disk) ∧ machine.Childless sid ∨
      machine sid = none ∧ (∃ d, rhs.find? sid = some d ∧ d.kind = .disk) ∧
        rhs.parent? sid = none
  | .modify => ∃ d, machine sid = some d

/-- Devices sit on devices that are there, and only partition tables hold several. -/
structure Nested (machine : Machine) : Prop where
  rooted : ∀ {sid d parent}, machine sid = some d → d.parent = some parent →
    ∃ p, machine parent = some p
  single : ∀ {parent p x y dx dy}, machine parent = some p →
    p.attributes.kind ≠ .partitionTable → machine x = some dx → machine y = some dy →
    dx.parent = some parent → dy.parent = some parent → x = y

theorem of_eq_some {g : Devicegraph} : of g sid = some d ↔
    ∃ device, g.find? sid = some device ∧ d = ⟨g.parent? sid, device.attributes⟩ := by
  rw [of, Option.map_eq_some_iff]
  exact exists_congr fun _ => and_congr_right fun _ => eq_comm

theorem update_eq_some {now : Option Placed} {x : Sid} {dx : Placed} :
    Function.update machine sid now x = some dx ↔
      x = sid ∧ now = some dx ∨ x ≠ sid ∧ machine x = some dx := by
  by_cases same : x = sid
  · subst same
    simp
  · simp [same]

theorem nested_of_valid {g : Devicegraph} (h : g.Valid) : (of g).Nested where
  rooted hd hp := by
    obtain ⟨device, found, rfl⟩ := of_eq_some.1 hd
    obtain ⟨parent, hparent⟩ := h.parent_found hp
    exact ⟨_, of_eq_some.2 ⟨parent, hparent, rfl⟩⟩
  single hp hk hx hy px py := by
    obtain ⟨parent, found, rfl⟩ := of_eq_some.1 hp
    obtain ⟨_, _, rfl⟩ := of_eq_some.1 hx
    obtain ⟨_, _, rfl⟩ := of_eq_some.1 hy
    exact h.onlyChild found hk px py

namespace Nested

/-- A device that holds nothing can be taken away. -/
theorem remove (h : machine.Nested) (childless : machine.Childless sid) :
    Nested (Function.update machine sid none) := by
  have before : ∀ {x dx}, Function.update machine sid none x = some dx → machine x = some dx := by
    intro x dx hx
    rcases update_eq_some.1 hx with ⟨_, none⟩ | ⟨_, hx⟩
    · cases none
    · exact hx
  refine ⟨fun {x dx parent} hx px => ?_, fun hp hk hx hy => ?_⟩
  · obtain ⟨p, hp⟩ := h.rooted (before hx) px
    refine ⟨p, update_eq_some.2 (.inr ⟨?_, hp⟩)⟩
    rintro rfl
    exact childless x dx (before hx) px
  · exact h.single (before hp) hk (before hx) (before hy)

/-- A device can be put on one that has room for it. -/
theorem put (h : machine.Nested) (absent : machine sid = none)
    (room : ∀ parent, d.parent = some parent → machine.HasRoom parent) :
    Nested (Function.update machine sid (some d)) := by
  have other : ∀ {x dx}, machine x = some dx → x ≠ sid := by
    rintro _ dx hx rfl
    rw [absent] at hx
    cases hx
  refine ⟨fun {x dx parent} hx px => ?_, fun {parent p x y dx dy} hp hk hx hy px py => ?_⟩
  · obtain ⟨p, hp⟩ : ∃ p, machine parent = some p := by
      rcases update_eq_some.1 hx with ⟨_, new⟩ | ⟨_, hx⟩
      · obtain ⟨p, hp, _⟩ := room parent (Option.some.inj new ▸ px)
        exact ⟨p, hp⟩
      · exact h.rooted hx px
    exact ⟨p, update_eq_some.2 (.inr ⟨other hp, hp⟩)⟩
  · -- The parent was there before: it has a child already, or it has room for the new device.
    have parent_eq : ∀ {q}, machine parent = some q → machine parent = some p := by
      intro q hq
      rcases update_eq_some.1 hp with ⟨same, _⟩ | ⟨_, hp⟩
      · exact absurd same (other hq)
      · exact hp
    have alone : d.parent = some parent → machine.Childless parent := by
      intro pd
      obtain ⟨q, hq, alone⟩ := room parent pd
      obtain rfl := Option.some.inj ((parent_eq hq).symm.trans hq)
      exact alone hk
    rcases update_eq_some.1 hx with ⟨rfl, newx⟩ | ⟨_, oldx⟩ <;>
      rcases update_eq_some.1 hy with ⟨rfl, newy⟩ | ⟨_, oldy⟩
    · rfl
    · exact absurd py (alone (Option.some.inj newx ▸ px) y dy oldy)
    · exact absurd px (alone (Option.some.inj newy ▸ py) x dx oldx)
    · obtain ⟨q, hq⟩ := h.rooted oldx px
      exact h.single (parent_eq hq) hk oldx oldy px py

/-- What a device is can change as long as its kind does not. -/
theorem change (h : machine.Nested) (hd : machine sid = some d) {a : Attributes}
    (hk : a.kind = d.attributes.kind) :
    Nested (Function.update machine sid (some ⟨d.parent, a⟩)) := by
  have before : ∀ {x dx}, Function.update machine sid (some ⟨d.parent, a⟩) x = some dx →
      ∃ dx', machine x = some dx' ∧ dx'.parent = dx.parent ∧
        dx'.attributes.kind = dx.attributes.kind := by
    intro x dx hx
    rcases update_eq_some.1 hx with ⟨rfl, now⟩ | ⟨_, hx⟩
    · obtain rfl := Option.some.inj now
      exact ⟨d, hd, rfl, hk.symm⟩
    · exact ⟨dx, hx, rfl, rfl⟩
  refine ⟨fun {x dx parent} hx px => ?_, fun hp hk hx hy px py => ?_⟩
  · obtain ⟨dx', hx', parent_eq, _⟩ := before hx
    obtain ⟨p, hp⟩ := h.rooted hx' (parent_eq.trans px)
    by_cases same : parent = sid
    · exact ⟨_, update_eq_some.2 (.inl ⟨same, rfl⟩)⟩
    · exact ⟨p, update_eq_some.2 (.inr ⟨same, hp⟩)⟩
  · obtain ⟨p', hp', _, kind_eq⟩ := before hp
    obtain ⟨dx', hx', x_eq, _⟩ := before hx
    obtain ⟨dy', hy', y_eq, _⟩ := before hy
    exact h.single hp' (kind_eq ▸ hk) hx' hy' (x_eq.trans px) (y_eq.trans py)

/-- An action at the right moment. -/
theorem act (h : machine.Nested) {a : Action} (ha : machine.Admits rhs a.sid a.kind) :
    (machine.act rhs a).Nested := by
  have created : machine a.sid = none →
      (∀ parent, rhs.parent? a.sid = some parent → machine.HasRoom parent) →
      Nested (Function.update machine a.sid (added rhs a.sid)) := by
    intro absent room
    cases hn : rhs.find? a.sid with
    | none =>
      rw [added, hn, Option.map_none, ← absent, Function.update_eq_self]
      exact h
    | some new =>
      rw [added, hn]
      exact h.put absent room
  unfold Admits at ha
  unfold Machine.act effect
  cases hc : a.kind.actionClass <;> rw [hc] at ha
  case delete => exact h.remove ha.2
  case create =>
    obtain ⟨absent, parent, hp, room⟩ := ha
    refine created absent fun parent' hp' => ?_
    rw [hp] at hp'
    exact Option.some.inj hp' ▸ room
  case nop =>
    rcases ha with ⟨⟨d, hd, _⟩, childless⟩ | ⟨absent, _, alone⟩
    · simp only [hd]
      exact h.remove childless
    · simp only [absent]
      exact created absent (by simp [alone])
  case modify =>
    obtain ⟨d, hd⟩ := ha
    simp only [hd]
    exact h.change hd (Attributes.like_changed _ _ _).kind_eq

/-- Actions each at the right moment. -/
theorem replay (h : machine.Nested) {actions : List Action}
    (ha : ∀ earlier a later, actions = earlier ++ a :: later →
      (machine.replay rhs earlier).Admits rhs a.sid a.kind) : (machine.replay rhs actions).Nested := by
  induction actions using List.reverseRecOn with
  | nil => exact h
  | append_singleton actions a ih =>
    rw [Machine.replay, List.foldl_append]
    refine act (ih fun earlier b later cut => ?_) (ha actions a [] rfl)
    exact ha earlier b (later ++ [a]) (by rw [cut, List.append_assoc, List.cons_append])

end Nested

end Machine

namespace Plan

open Machine Setting

/-! ### The moments of a plan -/

namespace Run

variable {s : Setting} {replaced : List Sid} {done : List Nat} {i j : Nat}

theorem next_notMem (h : Run s replaced (done ++ [i])) : i ∉ done := fun hi =>
  (List.nodup_append.1 h.once).2.2 i hi i (List.mem_singleton_self i) rfl

theorem mem_of_next (h : Run s replaced (done ++ [i])) (hp : s.Precedes j i) : j ∈ done :=
  h.follows done i [] rfl j hp

/-- What comes before an action that was carried out, or is the next one, was carried out. -/
theorem mem_of_precedes (h : Run s replaced (done ++ [i])) {l : Nat} (hp : s.Precedes j l)
    (hl : l ∈ done ++ [i]) : j ∈ done := by
  rcases List.mem_append.1 hl with hl | hl
  · exact h.follows.initial.mem_of_mem hp hl
  · exact h.mem_of_next (List.mem_singleton.1 hl ▸ hp)

/-- What a device that goes held is gone when it goes itself. -/
theorem childless_of_last {sid : Sid} {c : Chain} (h : Run s replaced (done ++ [c.last]))
    (hc : s.deletes? sid = some c) : (s.machine done).Childless sid := by
  obtain ⟨old, goes, _⟩ := h.sound.of_deletes? hc
  have run : Run s replaced done := h.initial
  have begun : c.first ∈ done ++ [c.last] :=
    h.first_of_last (h.sound.find?_chains.1 hc).1 (by simp)
  intro x d hx px
  have st := run.standing x
  rw [hx] at st
  cases st with
  | old goes' pending' =>
    obtain ⟨cx, hcx, _⟩ := h.sound.exists_deletes? goes'
    exact pending' cx hcx (h.mem_of_precedes (.deletion hcx px hc) begun)
  | new comes created =>
    obtain ⟨cx, hcx, _⟩ := h.sound.exists_creates? comes
    exact h.next_notMem (run.deleted_of_created_on goes hc px hcx (created cx hcx))
  | kept stays =>
    exact stays.not_goes (h.sound.settled.goes_of_parent stays.before px goes)

/-- When a device comes, the one that it is to sit on is there and has room. -/
theorem hasRoom_of_first {sid parent : Sid} {c : Chain} (h : Run s replaced (done ++ [c.first]))
    (hc : s.creates? sid = some c) (absent : s.machine done sid = none)
    (hp : s.rhs.parent? sid = some parent) : (s.machine done).HasRoom parent := by
  have run : Run s replaced done := h.initial
  have settled := h.sound.settled
  obtain ⟨new, hn⟩ := h.sound.rhs.parent_found hp
  obtain ⟨p, there, kind_eq⟩ : ∃ p, s.machine done parent = some p ∧
      p.attributes.kind = new.kind := by
    rcases Settled.stays_or_comes s.lhs replaced hn with ⟨old, stays⟩ | comes
    · obtain ⟨a, ha, like⟩ := run.present_of_stays stays
      exact ⟨_, ha, like.kind_eq.trans (settled.inPlace stays).kind_eq.symm⟩
    · obtain ⟨above, habove, _⟩ := h.sound.exists_creates? comes
      have ended := h.mem_of_next (.creation hc hp habove)
      have begun := run.first_of_last (h.sound.find?_chains.1 habove).1 ended
      obtain ⟨a, ha, like⟩ := run.present_of_created comes habove begun
      exact ⟨_, ha, like.kind_eq⟩
  refine ⟨p, there, fun hk x d hx px => ?_⟩
  have only : s.rhs.parent? x ≠ some parent := by
    intro hpx
    obtain rfl := h.sound.rhs.onlyChild hn (kind_eq ▸ hk) hpx hp
    rw [absent] at hx
    cases hx
  have st := run.standing x
  rw [hx] at st
  cases st with
  | old goes pending =>
    obtain ⟨cx, hcx, _⟩ := h.sound.exists_deletes? goes
    have frees := h.sound.mem_frees.2 (.inl ⟨cx, hcx, rfl⟩)
    have uses := h.sound.mem_uses.2 (.inl ⟨c, hc, rfl⟩)
    exact pending cx hcx (h.mem_of_next (.space px hp frees uses))
  | new => exact only px
  | kept stays => exact only (settled.parent stays ▸ px)

/-! ### Each action comes at the right moment -/

theorem admits_removal {sid : Sid} {c : Chain} {old : Device}
    (h : Run s replaced (done ++ [c.last])) (goes : Goes s.lhs s.rhs replaced sid old)
    (hc : s.deletes? sid = some c) :
    (s.machine done).Admits s.rhs sid (removal old.attributes) := by
  have run : Run s replaced done := h.initial
  obtain ⟨a, ha, like⟩ := run.present_of_pending goes hc h.next_notMem
  have childless := h.childless_of_last hc
  unfold Admits
  cases hk : old.attributes with
  | disk =>
    refine .inl ⟨⟨_, ha, ?_⟩, childless⟩
    rw [like.kind_eq, hk]
    rfl
  | partitionTable => exact ⟨⟨_, ha⟩, childless⟩
  | partition => exact ⟨⟨_, ha⟩, childless⟩
  | filesystem => exact ⟨⟨_, ha⟩, childless⟩

theorem admits_addition {sid : Sid} {c : Chain} {new : Device}
    (h : Run s replaced (done ++ [c.first])) (comes : Comes s.lhs s.rhs replaced sid new)
    (hc : s.creates? sid = some c) :
    (s.machine done).Admits s.rhs sid (addition new.attributes) := by
  have run : Run s replaced done := h.initial
  have absent : s.machine done sid = none :=
    run.absent_of_uncreated comes hc h.next_notMem fun c' hc' => h.mem_of_next (.again hc' hc)
  have placed : new.attributes.kind ≠ .disk → ∃ parent, s.rhs.parent? sid = some parent ∧
      (s.machine done).HasRoom parent := by
    intro hk
    obtain ⟨parent, hp⟩ := h.sound.rhs.exists_parent comes.after hk
    exact ⟨parent, hp, h.hasRoom_of_first hc absent hp⟩
  unfold Admits
  cases hk : new.attributes with
  | disk =>
    have isDisk : new.kind = .disk := by rw [Device.kind, hk]; rfl
    exact .inr ⟨absent, ⟨new, comes.after, isDisk⟩, (h.sound.rhs.rooted comes.after).2 isDisk⟩
  | partitionTable => exact ⟨absent, placed (by simp [hk, Attributes.kind])⟩
  | partition => exact ⟨absent, placed (by simp [hk, Attributes.kind])⟩
  | filesystem => exact ⟨absent, placed (by simp [hk, Attributes.kind])⟩

/-- The deletion of a device has not ended before its next action. -/
theorem last_notMem (h : Run s replaced (done ++ [i])) {c : Chain} {k : Nat} {kind : ActionKind}
    (occurs : s.Occurs i c k kind) (hc : s.deletes? c.sid = some c) : c.last ∉ done := by
  obtain ⟨old, goes, _⟩ := h.sound.of_deletes? hc
  have lt := occurs.index_lt
  intro ended
  rw [(h.sound.occurs_removal hc goes.before).place] at ended
  have here := h.initial.mem_of_later occurs.mem (by omega) (Nat.le_sub_one_of_lt lt) ended
  rw [← occurs.place] at here
  exact h.next_notMem here

/-- The creation of a device has begun with its first action. -/
theorem first_mem (h : Run s replaced (done ++ [i])) {c : Chain} {k : Nat} {kind : ActionKind}
    (occurs : s.Occurs i c k kind) : c.first ∈ done ++ [i] :=
  h.mem_of_later occurs.mem occurs.index_lt (Nat.zero_le _) (by simp [← occurs.place])

theorem first_mem_of_lt (h : Run s replaced (done ++ [i])) {c : Chain} {k : Nat}
    {kind : ActionKind} (occurs : s.Occurs i c k kind) (later : c.first < i) : c.first ∈ done :=
  (List.mem_append.1 (h.first_mem occurs)).resolve_right fun next =>
    Nat.ne_of_lt later (List.mem_singleton.1 next)

/-- A device that is being deleted is there at each action. -/
theorem present_of_deletes (h : Run s replaced (done ++ [i])) {c : Chain} {k : Nat}
    {kind : ActionKind} (occurs : s.Occurs i c k kind) {old : Device}
    (goes : Goes s.lhs s.rhs replaced c.sid old) (hc : s.deletes? c.sid = some c) :
    ∃ d, s.machine done c.sid = some d := by
  obtain ⟨a, ha, _⟩ := h.initial.present_of_pending goes hc (h.last_notMem occurs hc)
  exact ⟨_, ha⟩

/-- A device that is being created is there at each action but the first. -/
theorem present_of_creates (h : Run s replaced (done ++ [i])) {c : Chain} {k : Nat}
    {kind : ActionKind} (occurs : s.Occurs i c k kind) {new : Device}
    (comes : Comes s.lhs s.rhs replaced c.sid new) (hc : s.creates? c.sid = some c)
    (later : c.first < i) : ∃ d, s.machine done c.sid = some d := by
  obtain ⟨a, ha, _⟩ := h.initial.present_of_created comes hc (h.first_mem_of_lt occurs later)
  exact ⟨_, ha⟩

theorem admits_of_modify {kind : ActionKind} (hk : kind.actionClass = .modify) {sid : Sid}
    (present : ∃ d, s.machine done sid = some d) : (s.machine done).Admits s.rhs sid kind := by
  rw [Admits, hk]
  exact present

theorem admits (h : Run s replaced (done ++ [i])) {a : Action} (ha : s.actions[i]? = some a) :
    (s.machine done).Admits s.rhs a.sid a.kind := by
  have run : Run s replaced done := h.initial
  obtain ⟨c, k, kind, occurs, rfl⟩ := h.sound.getElem?_actions.1 ha
  have found := fun phase (hp : c.phase = phase) => h.sound.find?_chains.2 ⟨occurs.mem, hp, rfl⟩
  have kept : ∀ {old new}, Stays s.lhs s.rhs replaced c.sid old new →
      (s.machine done).Admits s.rhs c.sid kind := by
    intro old new stays
    obtain ⟨_, present, _⟩ := run.present_of_stays stays
    exact admits_of_modify
      (h.sound.modify_of_stays occurs.mem stays (List.mem_of_getElem? occurs.kind_eq)) ⟨_, present⟩
  cases h.sound.shape occurs.mem with
  | delete phase goes kinds_eq =>
    rcases occurs.removal_or_modify kinds_eq with ⟨rfl, rfl⟩ | modify
    · exact h.admits_removal goes (found _ phase)
    · exact admits_of_modify modify (h.present_of_deletes occurs goes (found _ phase))
  | create phase comes kinds_eq =>
    rcases occurs.addition_or_modify kinds_eq with ⟨rfl, rfl⟩ | ⟨later, modify⟩
    · exact h.admits_addition comes (found _ phase)
    · exact admits_of_modify modify (h.present_of_creates occurs comes (found _ phase) later)
  | partition _ stays => exact kept stays
  | filesystem _ stays => exact kept stays

end Run

/-- A plan between checked devicegraphs deletes only what is there and holds nothing, creates only
what is not there, on what is there and has room, and modifies only what is there. So at no moment
is a device without the one below it, or a disk or a partition with two on it. -/
theorem hierarchy_between {lhs rhs : Devicegraph} (hl : lhs.check = .ok ())
    (hr : rhs.check = .ok ()) : ∃ p, between lhs rhs = .ok p ∧
      (∀ earlier a later, p.actions = earlier ++ a :: later →
        ((Machine.of lhs).replay rhs earlier).Admits rhs a.sid a.kind) ∧
      ∀ earlier later, p.actions = earlier ++ later →
        ((Machine.of lhs).replay rhs earlier).Nested := by
  obtain ⟨p, s, replaced, hp, rfl, rfl, realizes⟩ := between_spec hl hr
  have admits : ∀ earlier a later, p.actions = earlier ++ a :: later →
      ((Machine.of s.lhs).replay s.rhs earlier).Admits s.rhs a.sid a.kind := by
    intro earlier a later cut
    obtain ⟨done, i, run, ha, machine_eq⟩ := realizes.next_spec cut
    rw [machine_eq]
    exact run.admits ha
  refine ⟨p, hp, admits, fun earlier later cut => ?_⟩
  refine (nested_of_valid realizes.run.sound.lhs).replay fun before a after here => ?_
  exact admits before a (after ++ later) (by rw [cut, here, List.append_assoc, List.cons_append])

/-- A partition that moves is deleted and created again, and its filesystem with it. -/
theorem hierarchy_move : ∃ p,
    between (onePartition ⟨2048, 4096, 512⟩) (onePartition ⟨4096, 4096, 512⟩) = .ok p ∧
      (∀ earlier a later, p.actions = earlier ++ a :: later →
        ((Machine.of (onePartition ⟨2048, 4096, 512⟩)).replay (onePartition ⟨4096, 4096, 512⟩)
          earlier).Admits (onePartition ⟨4096, 4096, 512⟩) a.sid a.kind) ∧
      ∀ earlier later, p.actions = earlier ++ later →
        ((Machine.of (onePartition ⟨2048, 4096, 512⟩)).replay (onePartition ⟨4096, 4096, 512⟩)
          earlier).Nested :=
  hierarchy_between (by cbv) (by cbv)

end Plan

end StoragePlan
