import StoragePlan.Proofs.Standing

/-!
# A plan ends where it should

Replaying all actions of the plan for two checked devicegraphs on a machine with the devices of the
first one leaves a machine with the devices of the second one: the same sids, each on the same
parent, with attributes that agree (`Attributes.Agrees`). Since the actions of a device are only
about that device, it is enough to replay the life of each.
-/

namespace StoragePlan

/-- The machines have the same sids, and devices at them that agree. -/
def Machine.Agrees (m m' : Machine) : Prop :=
  ∀ sid, Option.Rel (fun d d' => d.parent = d'.parent ∧ d.attributes.Agrees d'.attributes)
    (m sid) (m' sid)

namespace Plan

open Machine Setting

variable {s : Setting} {replaced : List Sid} {done : List Nat} {sid : Sid}

/-- The actions that change a device that stays. It has no chain when it needs none. -/
theorem Setting.Sound.kinds_changes (h : s.Sound replaced) {old new : Device}
    (stays : Stays s.lhs s.rhs replaced sid old new) {kinds : List ActionKind}
    (hk : changeKinds s.lhs s.rhs old new = .ok kinds) :
    (stepsOf (s.changes? sid)).map Prod.fst = kinds := by
  by_cases empty : kinds = []
  · subst empty
    cases hc : s.changes? sid with
    | none => rfl
    | some c =>
      obtain ⟨mem, phase, rfl⟩ := h.find?_chains.1 hc
      obtain ⟨serves, nonempty⟩ := h.exists_chain_iff.1 ⟨c, mem, rfl⟩
      rw [Chain.source, phase] at serves nonempty
      obtain ⟨old', new', stays', hk'⟩ := serves
      obtain rfl := Option.some.inj (stays.before.symm.trans stays'.before)
      obtain rfl := Option.some.inj (stays.after.symm.trans stays'.after)
      exact absurd (Except.ok.inj (hk'.symm.trans hk)) nonempty
  · have serves : Serves s.lhs s.rhs replaced (.change, sid, kinds) := ⟨old, new, stays, hk⟩
    obtain ⟨c, hc, rfl⟩ := h.exists_chain serves empty
    rw [changes?, hc, stepsOf, List.zipIdx_map_fst]

/-- The actions that change a device make it what it is in `rhs`. -/
theorem foldl_changeKinds {lhs rhs : Devicegraph} {old new : Device} (hn : rhs.find? sid = some new)
    (h : old.attributes.InPlace new.attributes) {kinds : List ActionKind}
    (hk : changeKinds lhs rhs old new = .ok kinds) (parent : Option Sid) :
    ∃ a, kinds.foldl (effect rhs sid) (some ⟨parent, old.attributes⟩) = some ⟨parent, a⟩ ∧
      a.Agrees new.attributes := by
  unfold changeKinds at hk
  split at hk
  · next o n ho hn' =>
    rw [ho, hn'] at h
    obtain rfl := Except.ok.inj hk
    rw [ho, hn']
    exact ⟨_, foldl_partitionChanges hn hn' h parent, rfl⟩
  · next o n ho hn' =>
    rw [ho, hn'] at h
    obtain ⟨mode?, _, hk⟩ := Attempt.bind_eq_ok.1 hk
    obtain rfl := Attempt.pure_eq_ok.1 hk
    rw [ho, hn']
    exact foldl_filesystemChanges hn hn' h parent mode?
  · next notPartitions notFilesystems =>
    obtain rfl := Except.ok.inj hk
    refine ⟨_, rfl, ?_⟩
    cases ho : old.attributes <;> cases hn' : new.attributes <;>
      simp_all [Attributes.InPlace, Attributes.Agrees]

/-- Nothing is left of a device that does not stay. -/
theorem Setting.Sound.foldl_deletes (h : s.Sound replaced)
    (leaves : ∀ o n, ¬Stays s.lhs s.rhs replaced sid o n) :
    ((stepsOf (s.deletes? sid)).map Prod.fst).foldl (effect s.rhs sid) (Machine.of s.lhs sid) =
      none := by
  cases ho : s.lhs.find? sid with
  | none =>
    rw [h.deletes?_eq_none (not_goes_of_not_found ho)]
    simp [stepsOf, Machine.of, ho]
  | some old =>
    obtain ⟨c, hc, kinds_eq⟩ := h.exists_deletes? (Settled.goes_of_not_stays ho leaves)
    rw [hc, stepsOf, List.zipIdx_map_fst, kinds_eq, Run.machine_of_found ho]
    exact foldl_deleteKinds (.refl _)

/-- When all actions of a device were carried out, the machine has what `rhs` has at its sid. -/
theorem Run.machine_of_complete (h : Run s replaced done)
    (complete : ∀ i < s.actions.length, i ∈ done) :
    (s.machine done).Agrees (Machine.of s.rhs) := by
  intro sid
  obtain ⟨n, hn, carried⟩ := h.machine_eq sid
  have all : (s.life sid).take n = s.life sid := by
    refine List.take_of_length_le (Nat.le_of_not_lt fun lt => ?_)
    have hx := List.getElem?_eq_getElem lt
    obtain ⟨c, k, occurs, _⟩ := h.sound.mem_life.1 (List.getElem_mem lt)
    have := (carried n _ hx).1 (complete _ (h.sound.lt_length_of_taken ⟨c, k, _, occurs⟩))
    exact Nat.lt_irrefl _ this
  rw [hn, all]
  by_cases stays : ∃ o n, Stays s.lhs s.rhs replaced sid o n
  · obtain ⟨o, n, stays⟩ := stays
    obtain ⟨kinds, hk⟩ := changeKinds_total h.sound.rhs stays
    obtain ⟨a, ha, agrees⟩ := foldl_changeKinds stays.after (h.sound.settled.inPlace stays) hk
      (s.lhs.parent? sid)
    rw [h.sound.life_of_stays stays, h.sound.kinds_changes stays hk, Run.machine_of_found stays.before,
      ha, Run.machine_of_found stays.after]
    exact .some ⟨h.sound.settled.parent stays, agrees⟩
  · have leaves : ∀ o n, ¬Stays s.lhs s.rhs replaced sid o n := by simpa using stays
    rw [h.sound.life_of_not_stays leaves, List.map_append, List.foldl_append,
      h.sound.foldl_deletes leaves]
    cases hn : s.rhs.find? sid with
    | none =>
      rw [h.sound.creates?_eq_none (not_comes_of_not_found hn)]
      simp only [stepsOf, List.map_nil, List.foldl_nil, Machine.of, hn]
      exact .none
    | some new =>
      obtain ⟨c, hc, kinds_eq⟩ := h.sound.exists_creates? (Settled.comes_of_not_stays hn leaves)
      obtain ⟨a, ha, agrees⟩ := foldl_createKinds hn
      rw [hc, stepsOf, List.zipIdx_map_fst, kinds_eq, ha, Run.machine_of_found hn]
      exact .some ⟨rfl, agrees⟩

/-- The plan for two checked devicegraphs leads from the one to the other. -/
theorem replay_between {lhs rhs : Devicegraph} (hl : lhs.check = .ok ()) (hr : rhs.check = .ok ()) :
    ∃ p, between lhs rhs = .ok p ∧
      ((Machine.of lhs).replay rhs p.actions).Agrees (Machine.of rhs) := by
  obtain ⟨p, s, replaced, hp, rfl, rfl, realizes⟩ := between_spec hl hr
  refine ⟨p, hp, ?_⟩
  have final := realizes.run.machine_of_complete realizes.complete
  rwa [Setting.machine, ← realizes.actions_eq] at final

/-- A partition that grows with its filesystem. -/
theorem replay_growth : ∃ p,
    between (onePartition ⟨2048, 4096, 512⟩) (onePartition ⟨2048, 8192, 512⟩) = .ok p ∧
      ((Machine.of (onePartition ⟨2048, 4096, 512⟩)).replay (onePartition ⟨2048, 8192, 512⟩)
        p.actions).Agrees (Machine.of (onePartition ⟨2048, 8192, 512⟩)) :=
  replay_between (by cbv) (by cbv)

end Plan

end StoragePlan
