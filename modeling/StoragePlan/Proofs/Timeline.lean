import StoragePlan.Proofs.Replay

/-!
# The machine at each moment of a plan

The actions of one device form one sequence, its `life`: the chain that deletes it and the chain
that creates it again, or the chain that changes it. The dependencies keep that sequence, so at each
moment of an order that follows them the actions done to the device are the first of its life
(`Run.machine_eq`).

From this follows how the device stands at the moment (`Standing`): it is still there as before, it
is gone, it is there as after, or it stays all the time.
-/

namespace StoragePlan.Plan

open Machine

namespace Setting

variable {s : Setting} {replaced : List Sid}

/-! ### The life of a device -/

/-- The actions of a chain with their places. -/
def stepsOf : Option Chain → List (ActionKind × Nat)
  | some c => c.kinds.zipIdx c.first
  | none => []

/-- The chain that changes a device. -/
def changes? (s : Setting) (sid : Sid) : Option Chain := Chain.find? s.chains .change sid

/-- All actions of a device with their places, in order. -/
def life (s : Setting) (sid : Sid) : List (ActionKind × Nat) :=
  stepsOf (s.deletes? sid) ++ stepsOf (s.changes? sid) ++ stepsOf (s.creates? sid)

theorem mem_stepsOf {c? : Option Chain} {x : ActionKind × Nat} : x ∈ stepsOf c? ↔
    ∃ c k, c? = some c ∧ c.kinds[k]? = some x.1 ∧ x.2 = c.first + k := by
  cases c? with
  | none => simp [stepsOf]
  | some c =>
    simp only [stepsOf, List.mem_zipIdx_iff_le_and_getElem?_sub, Option.some.injEq,
      exists_eq_left', exists_and_left]
    constructor
    · rintro ⟨le, hk⟩
      exact ⟨x.2 - c.first, hk, by omega⟩
    · rintro ⟨k, hk, place⟩
      refine ⟨by omega, ?_⟩
      rwa [place, Nat.add_sub_cancel_left]

namespace Sound

theorem mem_life (h : s.Sound replaced) {sid : Sid} {x : ActionKind × Nat} :
    x ∈ s.life sid ↔ ∃ c k, s.Occurs x.2 c k x.1 ∧ c.sid = sid := by
  simp only [life, List.mem_append, mem_stepsOf]
  constructor
  · rintro ((⟨c, k, hc, hk, place⟩ | ⟨c, k, hc, hk, place⟩) | ⟨c, k, hc, hk, place⟩)
    all_goals
      obtain ⟨mem, _, sid⟩ := h.find?_chains.1 hc
      exact ⟨c, k, ⟨mem, hk, place⟩, sid⟩
  · rintro ⟨c, k, ⟨mem, hk, place⟩, sid⟩
    have found := fun phase (hp : c.phase = phase) => h.find?_chains.2 ⟨mem, hp, sid⟩
    cases hp : c.phase with
    | delete => exact .inl (.inl ⟨c, k, found _ hp, hk, place⟩)
    | change => exact .inl (.inr ⟨c, k, found _ hp, hk, place⟩)
    | create => exact .inr ⟨c, k, found _ hp, hk, place⟩

/-- What stays is neither deleted nor created. -/
theorem life_of_stays (h : s.Sound replaced) {sid : Sid} {old new : Device}
    (stays : Stays s.lhs s.rhs replaced sid old new) : s.life sid = stepsOf (s.changes? sid) := by
  have undeleted := h.deletes?_eq_none fun _ => stays.not_goes
  have uncreated := h.creates?_eq_none fun _ => stays.not_comes
  simp [life, undeleted, uncreated, stepsOf]

/-- What does not stay is not changed. -/
theorem life_of_not_stays (h : s.Sound replaced) {sid : Sid}
    (none : ∀ old new, ¬Stays s.lhs s.rhs replaced sid old new) :
    s.life sid = stepsOf (s.deletes? sid) ++ stepsOf (s.creates? sid) := by
  have unchanged : s.changes? sid = Option.none := by
    by_contra hc
    obtain ⟨c, hc⟩ := Option.ne_none_iff_exists'.1 hc
    obtain ⟨mem, phase, rfl⟩ := h.find?_chains.1 hc
    have serves := h.serves mem
    rw [Chain.source, phase] at serves
    obtain ⟨old, new, stays, _⟩ := serves
    exact none old new stays
  simp [life, unchanged, stepsOf]

/-- The places of a chain follow each other. -/
theorem isChain_stepsOf (h : s.Sound replaced) {phase : Phase} {sid : Sid} :
    ((stepsOf (Chain.find? s.chains phase sid)).map Prod.snd).IsChain
      fun i j => i < j ∧ s.Precedes i j := by
  cases hc : Chain.find? s.chains phase sid with
  | none => exact .nil
  | some c =>
    rw [stepsOf, List.zipIdx_map_snd, List.isChain_iff_getElem]
    intro k hk
    rw [List.length_range'] at hk
    simp only [List.getElem_range', Nat.one_mul]
    exact ⟨by omega, .link (h.find?_chains.1 hc).1 hk⟩

/-- The places of a device follow each other. -/
theorem isChain_life (h : s.Sound replaced) (sid : Sid) :
    ((s.life sid).map Prod.snd).IsChain fun i j => i < j ∧ s.Precedes i j := by
  by_cases stays : ∃ old new, Stays s.lhs s.rhs replaced sid old new
  · obtain ⟨old, new, stays⟩ := stays
    rw [h.life_of_stays stays]
    exact h.isChain_stepsOf
  · rw [h.life_of_not_stays (by simpa using stays), List.map_append, List.isChain_append]
    refine ⟨h.isChain_stepsOf, h.isChain_stepsOf, fun i hi j hj => ?_⟩
    cases hc : s.deletes? sid with
    | none => simp [hc, stepsOf] at hi
    | some c =>
      cases hc' : s.creates? sid with
      | none => simp [hc', stepsOf] at hj
      | some c' =>
        obtain ⟨mem, phase, _⟩ := h.find?_chains.1 hc
        obtain ⟨mem', phase', _⟩ := h.find?_chains.1 hc'
        have before := h.chain_before mem mem' (by simp [phase, phase', Phase.rank])
        have nonempty := List.length_pos_iff.2 (h.exists_chain_iff.1 ⟨c, mem, rfl⟩).2
        have nonempty' := List.length_pos_iff.2 (h.exists_chain_iff.1 ⟨c', mem', rfl⟩).2
        simp only [Chain.source] at nonempty nonempty'
        simp only [hc, hc', stepsOf, List.zipIdx_map_snd, List.getLast?_range', List.head?_range',
          Nat.ne_of_gt nonempty, Nat.ne_of_gt nonempty', if_false, Option.mem_some_iff] at hi hj
        obtain rfl : c.last = i := by rw [← hi, Chain.last]
        subst hj
        exact ⟨by rw [Chain.last]; omega, .again hc hc'⟩

theorem ascending_life (h : s.Sound replaced) (sid : Sid) :
    ((s.life sid).map Prod.snd).Pairwise (· < ·) :=
  List.isChain_iff_pairwise.1 ((h.isChain_life sid).imp fun _ _ => And.left)

/-- The resize of a partition begins its life, and is the only one in it. -/
theorem life_of_resizing (h : s.Sound replaced) {sid : Sid} {i : Nat} {mode : ResizeMode}
    (resizing : s.Resizing i sid mode) : ∃ rest, s.life sid = (.resizePartition mode, i) :: rest ∧
      ∀ x ∈ rest, ∀ mode', x.1 ≠ .resizePartition mode' := by
  obtain ⟨rest, hlife⟩ : ∃ rest, s.life sid = (.resizePartition mode, i) :: rest := by
    obtain ⟨c, k, occurs, rfl⟩ := id resizing
    obtain ⟨phase, rfl, _, _, _, _, stays, _⟩ := occurs.resizePartition h
    have hc : s.changes? c.sid = some c := h.find?_chains.2 ⟨occurs.mem, phase, rfl⟩
    have first := occurs.kind_eq
    have place : i = c.first := occurs.place
    cases hk : c.kinds with
    | nil => simp [hk] at first
    | cons kind rest =>
      rw [hk, List.getElem?_cons_zero] at first
      refine ⟨rest.zipIdx (c.first + 1), ?_⟩
      rw [h.life_of_stays stays, hc, stepsOf, hk, List.zipIdx_cons, Option.some.inj first, place]
  refine ⟨rest, hlife, fun x hx mode' same => ?_⟩
  have ascending := h.ascending_life sid
  rw [hlife, List.map_cons, List.pairwise_cons] at ascending
  have lt := ascending.1 x.2 (List.mem_map_of_mem hx)
  obtain ⟨c, k, occurs, hs⟩ := h.mem_life.1 (hlife ▸ List.mem_cons_of_mem _ hx)
  have again : s.Resizing x.2 sid mode' := ⟨c, k, same ▸ occurs, hs⟩
  exact Nat.ne_of_lt lt (Resizing.unique h resizing again).1

/-! The actions of a device are those of its life. -/

theorem action_of_life (h : s.Sound replaced) {sid : Sid} {x : ActionKind × Nat}
    (hx : x ∈ s.life sid) :
    ∃ a, s.actions[x.2]? = some a ∧ a.sid = sid ∧ a.kind = x.1 := by
  obtain ⟨c, k, occurs, hs⟩ := h.mem_life.1 hx
  exact ⟨_, h.getElem?_actions.2 ⟨c, k, _, occurs, rfl⟩, hs, rfl⟩

theorem sid_eq_iff (h : s.Sound replaced) {sid : Sid} {i : Nat} {a : Action}
    (ha : s.actions[i]? = some a) : a.sid = sid ↔ i ∈ (s.life sid).map Prod.snd := by
  constructor
  · obtain ⟨c, k, kind, occurs, rfl⟩ := h.getElem?_actions.1 ha
    exact fun hs => List.mem_map.2 ⟨(kind, i), h.mem_life.2 ⟨c, k, occurs, hs⟩, rfl⟩
  · intro hi
    obtain ⟨x, hx, rfl⟩ := List.mem_map.1 hi
    obtain ⟨a', ha', hs, _⟩ := h.action_of_life hx
    exact Option.some.inj (ha'.symm.trans ha) ▸ hs

theorem kinds_of_life (h : s.Sound replaced) {sid : Sid} {l : List (ActionKind × Nat)}
    (hl : l ⊆ s.life sid) :
    ((l.map Prod.snd).filterMap fun i => s.actions[i]?).map Action.kind = l.map Prod.fst := by
  induction l with
  | nil => rfl
  | cons x l ih =>
    obtain ⟨hx, hl⟩ := List.cons_subset.1 hl
    obtain ⟨a, ha, _, hk⟩ := h.action_of_life hx
    simp only [List.map_cons, List.filterMap_cons, ha, hk, ih hl]

theorem filter_actions (h : s.Sound replaced) (sid : Sid) (done : List Nat) :
    (done.filterMap fun i => s.actions[i]?).filter (fun a => a.sid == sid) =
      (done.filter (· ∈ (s.life sid).map Prod.snd)).filterMap fun i => s.actions[i]? := by
  rw [List.filter_filterMap, List.filterMap_filter]
  refine List.filterMap_congr fun i _ => ?_
  cases ha : s.actions[i]? with
  | none => simp
  | some a => simp only [Option.filter, beq_iff_eq, h.sid_eq_iff ha, decide_eq_true_eq]

end Sound

/-- The machine after the actions at some places. -/
def machine (s : Setting) (done : List Nat) : Machine :=
  (Machine.of s.lhs).replay s.rhs (done.filterMap fun i => s.actions[i]?)

end Setting

/-! ### Carrying out a part of the plan -/

/-- The places were carried out in an order that follows the rules. -/
structure Run (s : Setting) (replaced : List Sid) (done : List Nat) : Prop where
  sound : s.Sound replaced
  /-- Whatever precedes a place by a rule was carried out before it. -/
  follows : Follows s.Precedes done
  /-- No place was carried out twice. -/
  once : done.Nodup

namespace Run

open Setting

variable {s : Setting} {replaced : List Sid} {done rest : List Nat} {i j : Nat} {sid : Sid}

theorem initial (h : Run s replaced (done ++ rest)) : Run s replaced done :=
  ⟨h.sound, h.follows.initial, (List.nodup_append.1 h.once).1⟩

/-- What a machine has at a sid is what the first actions of the device made of it, and these are
the ones that were carried out. -/
theorem machine_eq (h : Run s replaced done) (sid : Sid) : ∃ n,
    s.machine done sid = (((s.life sid).take n).map Prod.fst).foldl (effect s.rhs sid)
      (Machine.of s.lhs sid) ∧
    ∀ m x, (s.life sid)[m]? = some x → (x.2 ∈ done ↔ m < n) := by
  have distinct : ((s.life sid).map Prod.snd).Nodup :=
    (h.sound.ascending_life sid).imp Nat.ne_of_lt
  have linked := (h.sound.isChain_life sid).imp fun _ _ => And.right
  obtain ⟨n, hn⟩ := h.follows.filter_eq_take distinct linked h.once
  refine ⟨n, ?_, fun m x hx => ?_⟩
  · rw [machine, replay_apply, h.sound.filter_actions, hn, ← List.map_take,
      h.sound.kinds_of_life (List.take_subset _ _)]
  · refine mem_iff_of_filter_eq_take distinct hn ?_
    rw [List.getElem?_map, hx, Option.map_some]

end Run

/-! ### Plans as runs -/

/-- The plan carries out the actions of the setting in an order that follows the rules. -/
structure Realizes (p : Plan) (s : Setting) (replaced : List Sid) : Prop where
  actions_eq : p.graph.actions = s.actions
  run : Run s replaced p.order
  /-- Every action is carried out. -/
  complete : ∀ i < s.actions.length, i ∈ p.order

/-- Two checked devicegraphs have a plan, and it is a run. -/
theorem between_spec {lhs rhs : Devicegraph} (hl : lhs.check = .ok ()) (hr : rhs.check = .ok ()) :
    ∃ p s replaced, between lhs rhs = .ok p ∧ s.lhs = lhs ∧ s.rhs = rhs ∧
      Realizes p s replaced := by
  obtain ⟨s, replaced, dependencies, order, rfl, rfl, sound, hg, _, ho, perm, follows⟩ :=
    ordered_of_check hl hr
  refine ⟨⟨s.lhs, s.rhs, ⟨s.actions, dependencies⟩, order⟩, s, replaced, ?_, rfl, rfl, rfl,
    ⟨sound, follows, perm.nodup_iff.2 List.nodup_range⟩,
    fun i hi => perm.mem_iff.2 (List.mem_range.2 hi)⟩
  exact between_eq_ok.2 ⟨hl, hr, _, order, hg, ho, rfl⟩

namespace Realizes

variable {p : Plan} {s : Setting} {replaced : List Sid}

/-- Each action of the plan comes from a chain. -/
theorem exists_occurs (h : Realizes p s replaced) {a : Action} (ha : a ∈ p.actions) :
    ∃ i c k, s.Occurs i c k a.kind ∧ c.sid = a.sid := by
  rw [Plan.actions, h.actions_eq] at ha
  obtain ⟨i, _, hi⟩ := List.mem_filterMap.1 ha
  obtain ⟨c, k, kind, occurs, rfl⟩ := h.run.sound.getElem?_actions.1 hi
  exact ⟨i, c, k, occurs, rfl⟩

/-- Every beginning of the plan is a run, and leaves a machine that its places determine. -/
theorem prefix_spec (h : Realizes p s replaced) {earlier later : List Action}
    (cut : p.actions = earlier ++ later) : ∃ done rest, p.order = done ++ rest ∧
      Run s replaced done ∧ (Machine.of s.lhs).replay s.rhs earlier = s.machine done := by
  rw [Plan.actions, h.actions_eq] at cut
  obtain ⟨done, rest, order_eq, rfl, _⟩ := List.filterMap_eq_append_iff.1 cut
  exact ⟨done, rest, order_eq, (order_eq ▸ h.run).initial, rfl⟩

/-- A plan that is cut before an action, as an order that is cut before the place of it. -/
theorem cut_spec (h : Realizes p s replaced) {earlier later : List Action} {a : Action}
    (cut : p.actions = earlier ++ a :: later) : ∃ done i rest, Run s replaced (done ++ [i]) ∧
      p.order = done ++ i :: rest ∧ s.actions[i]? = some a ∧
      earlier = done.filterMap (fun i => s.actions[i]?) ∧
      later = rest.filterMap fun i => s.actions[i]? := by
  rw [Plan.actions, h.actions_eq] at cut
  obtain ⟨done, rest, order_eq, rfl, hrest⟩ := List.filterMap_eq_append_iff.1 cut
  obtain ⟨skipped, i, rest, rfl, hskipped, hi, rfl⟩ := List.filterMap_eq_cons_iff.1 hrest
  have unskipped : skipped.filterMap (fun i => s.actions[i]?) = [] :=
    List.filterMap_eq_nil_iff.2 hskipped
  refine ⟨done ++ skipped, i, rest, ?_, by rw [order_eq, List.append_assoc], hi, ?_, rfl⟩
  · have run := h.run
    rw [order_eq, show done ++ (skipped ++ i :: rest) = (done ++ skipped ++ [i]) ++ rest by simp]
      at run
    exact run.initial
  · rw [List.filterMap_append, unskipped, List.append_nil]

/-- The same for what comes up to the action. -/
theorem exists_next (h : Realizes p s replaced) {earlier later : List Action} {a : Action}
    (cut : p.actions = earlier ++ a :: later) : ∃ done i, Run s replaced (done ++ [i]) ∧
      s.actions[i]? = some a ∧ earlier = done.filterMap fun i => s.actions[i]? := by
  obtain ⟨done, i, _, run, _, ha, earlier_eq, _⟩ := h.cut_spec cut
  exact ⟨done, i, run, ha, earlier_eq⟩

theorem next_spec (h : Realizes p s replaced) {earlier later : List Action} {a : Action}
    (cut : p.actions = earlier ++ a :: later) : ∃ done i,
      Run s replaced (done ++ [i]) ∧ s.actions[i]? = some a ∧
        (Machine.of s.lhs).replay s.rhs earlier = s.machine done := by
  obtain ⟨done, i, run, ha, rfl⟩ := h.exists_next cut
  exact ⟨done, i, run, ha, rfl⟩

end Realizes

end StoragePlan.Plan
