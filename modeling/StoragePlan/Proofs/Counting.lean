import Mathlib.Data.List.Sort
import Mathlib.Data.Prod.Lex
import StoragePlan.Proofs.Schedule

/-!
# Sorting by counting

`schedule` looks through the dependencies again for every place that it takes. The same order is
found by counting (`orderBy_eq_counted`): a `Tally` knows how many dependencies lead to each place
from places that were not taken, and keeps the places to which none leads in a queue. Taking the
first of the queue counts down the places that depend on it, once for each dependency, and those
that are down to none join the queue.
-/

namespace StoragePlan.Actiongraph

variable {g : Actiongraph} {remaining : List (Nat × Nat)} {waiting order : List Nat} {i j k : Nat}

/-! ### Places by sid -/

/-- The sid of the action at a place, then the place. -/
def key (g : Actiongraph) (i : Nat) : ℕ ×ₗ ℕ := toLex ((g.actions[i]?).elim 0 Action.sid, i)

theorem key_injective (g : Actiongraph) : Function.Injective g.key := fun _ _ same =>
  congrArg (fun k => (ofLex k).2) same

theorem placeBefore_iff {a b : Action × Nat} :
    placeBefore a b = true ↔ toLex (a.1.sid, a.2) ≤ toLex (b.1.sid, b.2) := by
  simp [placeBefore, Prod.Lex.toLex_le_toLex]

/-- The places come by the sids of their actions, then as they are. -/
theorem places_ascending (g : Actiongraph) : g.places.Pairwise fun i j => g.key i < g.key j := by
  have sorted : (g.actions.zipIdx.mergeSort placeBefore).Pairwise fun a b =>
      toLex (a.1.sid, a.2) ≤ toLex (b.1.sid, b.2) := by
    refine (List.pairwise_mergeSort (fun a b c => ?_) (fun a b => ?_) _).imp placeBefore_iff.1
    · simp only [placeBefore_iff]
      exact le_trans
    · simpa [placeBefore_iff] using le_total (toLex (a.1.sid, a.2)) (toLex (b.1.sid, b.2))
  have keys : ∀ x ∈ g.actions.zipIdx.mergeSort placeBefore, g.key x.2 = toLex (x.1.sid, x.2) := by
    intro x hx
    have found := List.mem_zipIdx_iff_getElem?.1 (List.mem_mergeSort.1 hx)
    simp [key, found]
  have distinct : g.places.Nodup := g.places_perm.nodup_iff.2 List.nodup_range
  unfold places at distinct ⊢
  refine List.pairwise_map.2 ?_
  refine (sorted.and (List.pairwise_map.1 distinct)).imp_of_mem fun {a b} ha hb ⟨le, ne⟩ => ?_
  refine lt_of_le_of_ne ?_ fun same => ne (g.key_injective same)
  rw [keys a ha, keys b hb]
  exact le

/-! ### Counting down -/

/-- A sort under way. -/
structure Tally where
  /-- How many dependencies lead to a place from places that were not taken. -/
  degree : Nat → Nat
  /-- The places to which none leads, in order. -/
  ready : List Nat

/-- A place on which one dependency less weighs. With the last one gone it may come next. -/
def release (g : Actiongraph) (t : Tally) (j : Nat) : Tally where
  degree := Function.update t.degree j (t.degree j - 1)
  ready := if t.degree j - 1 = 0 then t.ready.orderedInsert (g.key · ≤ g.key ·) j else t.ready

/-- The places that directly depend on a place, each as often as it does. -/
def targets (dependencies : List (Nat × Nat)) (i : Nat) : List Nat :=
  (dependencies.filter fun d => d.1 == i).map Prod.snd

/-- Takes the first ready place as long as there is one, at most `n` times. -/
def drain (g : Actiongraph) : Nat → Tally → List Nat
  | 0, _ => []
  | n + 1, t =>
    match t.ready with
    | [] => []
    | i :: rest => i :: drain g n ((targets g.dependencies i).foldl (release g) ⟨t.degree, rest⟩)

/-- The tally before anything is taken. -/
def start (g : Actiongraph) : Tally where
  degree j := g.dependencies.countP fun d => d.2 == j
  ready := g.places.filter fun j => g.dependencies.countP (fun d => d.2 == j) == 0

/-- The places that are taken by counting. -/
def counted (g : Actiongraph) : List Nat := drain g g.actions.length (start g)

/-- The queue is in order, and no place is in it twice. -/
structure Queued (g : Actiongraph) (ready : List Nat) : Prop where
  ascending : ready.Pairwise fun i j => g.key i ≤ g.key j
  once : ready.Nodup

theorem Queued.insert {ready : List Nat} (h : g.Queued ready) (hj : j ∉ ready) :
    g.Queued (ready.orderedInsert (g.key · ≤ g.key ·) j) := by
  have total : Std.Total fun i j => g.key i ≤ g.key j := ⟨fun i j => le_total _ _⟩
  have trans : IsTrans Nat fun i j => g.key i ≤ g.key j := ⟨fun i j k => le_trans⟩
  refine ⟨h.ascending.orderedInsert j, ?_⟩
  exact (List.perm_orderedInsert _ j ready).nodup_iff.2 (List.nodup_cons.2 ⟨hj, h.once⟩)

theorem Queued.sublist {ready ready' : List Nat} (h : g.Queued ready)
    (sub : ready'.Sublist ready) : g.Queued ready' :=
  ⟨h.ascending.sublist sub, h.once.sublist sub⟩

/-- Two queues of the same places are the same. -/
theorem Queued.eq {ready ready' : List Nat} (h : g.Queued ready) (h' : g.Queued ready')
    (same : ∀ i, i ∈ ready ↔ i ∈ ready') : ready = ready' := by
  have perm := (List.perm_ext_iff_of_nodup h.once h'.once).2 same
  refine perm.eq_of_pairwise (fun i j _ _ le ge => ?_) h.ascending h'.ascending
  exact g.key_injective (le_antisymm le ge)

/-- Counting down places, each at most as often as its degree says. -/
theorem foldl_release {js : List Nat} {t : Tally} (queued : g.Queued t.ready)
    (apart : ∀ j ∈ js, j ∉ t.ready) (enough : ∀ j, js.count j ≤ t.degree j) :
    (∀ j, (js.foldl (release g) t).degree j = t.degree j - js.count j) ∧
      (∀ j, j ∈ (js.foldl (release g) t).ready ↔
        j ∈ t.ready ∨ j ∈ js ∧ t.degree j = js.count j) ∧
      g.Queued (js.foldl (release g) t).ready := by
  induction js generalizing t with
  | nil => simpa using queued
  | cons i js ih =>
    have other : ∀ j, j ≠ i → (release g t i).degree j = t.degree j ∧
        (i :: js).count j = js.count j := fun j ne =>
      ⟨Function.update_of_ne ne _ _, List.count_cons_of_ne (Ne.symm ne)⟩
    have here : (release g t i).degree i = t.degree i - 1 := Function.update_self _ _ _
    have counts : (i :: js).count i = js.count i + 1 := List.count_cons_self
    have left := enough i
    -- The place joins the queue exactly if this was the last dependency on it.
    have joins : ∀ j, j ∈ (release g t i).ready ↔ j ∈ t.ready ∨ j = i ∧ t.degree i = 1 := by
      intro j
      by_cases last : t.degree i - 1 = 0
      · have one : t.degree i = 1 := by omega
        simp [release, one, or_comm]
      · have more : t.degree i ≠ 1 := by omega
        simp [release, last, more]
    have queued' : g.Queued (release g t i).ready := by
      unfold release
      dsimp only
      split
      · exact queued.insert (apart i List.mem_cons_self)
      · exact queued
    have apart' : ∀ j ∈ js, j ∉ (release g t i).ready := by
      intro j hj hm
      rcases (joins j).1 hm with hm | ⟨rfl, one⟩
      · exact apart j (List.mem_cons_of_mem i hj) hm
      · have := List.count_pos_iff.2 hj
        omega
    have enough' : ∀ j, js.count j ≤ (release g t i).degree j := by
      intro j
      by_cases same : j = i
      · subst same
        omega
      · have := enough j
        rw [(other j same).1]
        rwa [(other j same).2] at this
    obtain ⟨degrees, members, final⟩ := ih queued' apart' enough'
    refine ⟨fun j => ?_, fun j => ?_, final⟩
    · rw [List.foldl_cons, degrees]
      by_cases same : j = i
      · subst same
        omega
      · rw [(other j same).1, (other j same).2]
    · rw [List.foldl_cons, members, joins, List.mem_cons]
      by_cases same : j = i
      · subst same
        by_cases last : j ∈ js
        · have := List.count_pos_iff.2 last
          have untouched := apart j List.mem_cons_self
          simp only [untouched, last, here, counts, true_and, true_or, false_or]
          omega
        · have := List.count_eq_zero_of_not_mem last
          simp only [last, counts, this, true_and, false_and, or_false, Nat.zero_add]
      · simp only [(other j same).1, (other j same).2, same, false_and, or_false, false_or]

/-! ### Counting and looking -/

/-- What leads to a place comes from the one that is taken or from the others. -/
theorem count_targets (dependencies : List (Nat × Nat)) (i j : Nat) :
    (targets dependencies i).count j +
      (dependencies.filter fun d => d.1 != i).countP (fun d => d.2 == j) =
        dependencies.countP fun d => d.2 == j := by
  rw [List.countP_eq_countP_filter_add dependencies (fun d => d.2 == j) (fun d => d.1 == i)]
  rw [targets, List.count, List.countP_map]
  rfl

theorem mem_targets {dependencies : List (Nat × Nat)} :
    j ∈ targets dependencies i ↔ (i, j) ∈ dependencies := by
  simp [targets]

/-- What depends on a place has a dependency that leads to it. -/
theorem count_targets_pos {dependencies : List (Nat × Nat)} (h : j ∈ targets dependencies i) :
    0 < dependencies.countP fun d => d.2 == j :=
  List.countP_pos_iff.2 ⟨(i, j), mem_targets.1 h, beq_self_eq_true j⟩

/-- The dependencies of one place have nothing to do with those of another. -/
theorem targets_filter_ne {dependencies : List (Nat × Nat)} (ne : k ≠ i) :
    targets (dependencies.filter fun d => d.1 != i) k = targets dependencies k := by
  rw [targets, targets, List.filter_filter]
  refine congrArg _ (List.filter_congr fun d _ => ?_)
  by_cases same : d.1 = k
  · simp [same, ne]
  · simp [same]

theorem all_eq_countP (dependencies : List (Nat × Nat)) (j : Nat) :
    (dependencies.all fun d => d.2 != j) = (dependencies.countP (fun d => d.2 == j) == 0) := by
  rw [Bool.eq_iff_iff, beq_iff_eq, List.countP_eq_zero, List.all_eq_true]
  simp

/-- The tally counts the remaining dependencies, and its queue has the waiting places to which none
of them leads. -/
structure Counts (g : Actiongraph) (remaining : List (Nat × Nat)) (waiting : List Nat)
    (t : Tally) : Prop where
  degree_eq : ∀ j, t.degree j = remaining.countP fun d => d.2 == j
  ready_eq : t.ready = waiting.filter fun j => remaining.all fun d => d.2 != j
  queued : g.Queued waiting
  /-- Nothing that was taken depends on anything that remains. -/
  inside : ∀ d ∈ remaining, d.2 ∈ waiting
  /-- All dependencies on what is waiting remain. -/
  targets_eq : ∀ i ∈ waiting, targets g.dependencies i = targets remaining i

namespace Counts

variable {t : Tally} {rest : List Nat}

theorem start (inside : ∀ d ∈ g.dependencies, d.2 < g.actions.length) :
    Counts g g.dependencies g.places g.start where
  degree_eq _ := rfl
  ready_eq := List.filter_congr fun j _ => (all_eq_countP g.dependencies j).symm
  queued := ⟨g.places_ascending.imp le_of_lt, g.places_perm.nodup_iff.2 List.nodup_range⟩
  inside d hd := g.places_perm.mem_iff.2 (List.mem_range.2 (inside d hd))
  targets_eq _ _ := rfl

theorem mem_ready (h : Counts g remaining waiting t) :
    j ∈ t.ready ↔ j ∈ waiting ∧ remaining.countP (fun d => d.2 == j) = 0 := by
  rw [h.ready_eq, List.mem_filter, all_eq_countP, beq_iff_eq]

theorem queued_ready (h : Counts g remaining waiting t) : g.Queued t.ready := by
  rw [h.ready_eq]
  exact h.queued.sublist List.filter_sublist

/-- What is counted down when the first of the queue is taken: the rest of the queue stays, and
those that depended on nothing else join it. -/
theorem release_targets (h : Counts g remaining waiting t) (head : t.ready = i :: rest) :
    let t' := (targets remaining i).foldl (release g) ⟨t.degree, rest⟩
    (∀ j, t'.degree j = t.degree j - (targets remaining i).count j) ∧
      (∀ j, j ∈ t'.ready ↔
        j ∈ rest ∨ j ∈ targets remaining i ∧ t.degree j = (targets remaining i).count j) ∧
      g.Queued t'.ready := by
  have queued : g.Queued (Tally.mk t.degree rest).ready := by
    have all := h.queued_ready
    rw [head] at all
    exact all.sublist (List.sublist_cons_self i rest)
  have apart : ∀ j ∈ targets remaining i, j ∉ rest := by
    intro j hj hr
    have queue : j ∈ t.ready := head ▸ List.mem_cons_of_mem i hr
    have free := (h.mem_ready.1 queue).2
    have bound := count_targets_pos hj
    omega
  have enough : ∀ j, (targets remaining i).count j ≤ t.degree j := by
    intro j
    have split := count_targets remaining i j
    rw [h.degree_eq]
    omega
  exact foldl_release queued apart enough

/-- Taking the first of the queue keeps the count. -/
theorem next (h : Counts g remaining waiting t) (head : t.ready = i :: rest) :
    Counts g (remaining.filter fun d => d.1 != i) (waiting.erase i)
      ((targets g.dependencies i).foldl (release g) ⟨t.degree, rest⟩) := by
  have mem_queue : ∀ j, j ∈ i :: rest ↔
      j ∈ waiting ∧ remaining.countP (fun d => d.2 == j) = 0 := by
    intro j
    rw [← head]
    exact h.mem_ready
  have queued := h.queued_ready
  rw [head] at queued
  obtain ⟨waits, unbound⟩ := (mem_queue i).1 List.mem_cons_self
  have unqueued := (List.nodup_cons.1 queued.once).1
  have split := count_targets remaining i
  have degrees := h.degree_eq
  have queued' : g.Queued (waiting.erase i) := h.queued.sublist List.erase_sublist
  obtain ⟨degree, members, final⟩ := h.release_targets head
  rw [h.targets_eq i waits]
  refine ⟨fun j => ?_, ?_, queued', fun d hd => ?_, fun k hk => ?_⟩
  · have := split j
    rw [degree, degrees]
    omega
  · refine final.eq (queued'.sublist List.filter_sublist) fun j => ?_
    rw [members, List.mem_filter, all_eq_countP, beq_iff_eq, h.queued.once.mem_erase_iff, degrees]
    have := split j
    constructor
    · rintro (hj | ⟨hj, all⟩)
      · obtain ⟨hw, free⟩ := (mem_queue j).1 (List.mem_cons_of_mem i hj)
        exact ⟨⟨fun same => unqueued (same ▸ hj), hw⟩, by omega⟩
      · have pos := count_targets_pos hj
        refine ⟨⟨fun same => ?_, h.inside _ (mem_targets.1 hj)⟩, by omega⟩
        rw [same] at pos
        omega
    · rintro ⟨⟨ne, hw⟩, none⟩
      by_cases free : remaining.countP (fun d => d.2 == j) = 0
      · exact .inl ((List.mem_cons.1 ((mem_queue j).2 ⟨hw, free⟩)).resolve_left ne)
      · refine .inr ⟨List.count_pos_iff.1 ?_, ?_⟩ <;> omega
  · obtain ⟨hd, _⟩ := List.mem_filter.1 hd
    refine (List.mem_erase_of_ne fun same => ?_).2 (h.inside d hd)
    have pos : 0 < remaining.countP fun d => d.2 == i :=
      List.countP_pos_iff.2 ⟨d, hd, by simpa using same⟩
    omega
  · obtain ⟨ne, hw⟩ := h.queued.once.mem_erase_iff.1 hk
    rw [h.targets_eq k hw]
    exact (targets_filter_ne ne).symm

/-- The first of the queue is the place that `schedule` looks for. -/
theorem head_eq (h : Counts g remaining waiting t) :
    t.ready.head? = waiting.find? fun j => remaining.all fun d => d.2 != j := by
  rw [h.ready_eq, List.head?_filter]

/-- Counting takes the places that `schedule` takes, and stops where that is stuck. -/
theorem drain_eq (h : Counts g remaining waiting t) {n : Nat} (le : waiting.length ≤ n) :
    (∀ order, schedule remaining waiting = .ok order → drain g n t = order) ∧
      ∀ left, schedule remaining waiting = .error left →
        (drain g n t).length < waiting.length := by
  fun_induction schedule remaining waiting generalizing n t with
  | case1 remaining waiting none empty =>
    have head := List.head?_eq_none_iff.1 (h.head_eq.trans none)
    refine ⟨fun order ok => ?_, fun left error => by cases error⟩
    obtain rfl := Except.ok.inj ok
    cases n with
    | zero => rfl
    | succ n => simp only [drain, head]
  | case2 remaining waiting none nonempty =>
    have head := List.head?_eq_none_iff.1 (h.head_eq.trans none)
    refine ⟨fun order ok => (by cases ok), fun left _ => ?_⟩
    have stuck : drain g n t = [] := by
      cases n with
      | zero => rfl
      | succ n => simp only [drain, head]
    rw [stuck]
    exact List.length_pos_iff.2 (by simpa using nonempty)
  | case3 remaining waiting i found ih =>
    simp only [List.unattach_filter, List.unattach_attach] at ih
    obtain ⟨rest, queue⟩ := List.head?_eq_some_iff.1 (h.head_eq.trans found)
    have waits := List.mem_of_find?_eq_some found
    have length := List.length_erase_of_mem waits
    have nonempty := List.length_pos_of_mem waits
    obtain ⟨m, rfl⟩ := Nat.exists_eq_add_one.2 (Nat.lt_of_lt_of_le nonempty le)
    have next := h.next queue
    obtain ⟨done, stuck⟩ := ih next (n := m) (by omega)
    have step : drain g (m + 1) t = i :: drain g m
        ((targets g.dependencies i).foldl (release g) ⟨t.degree, rest⟩) := by
      simp only [drain, queue]
    rw [step]
    constructor
    · intro order ok
      obtain ⟨others, hothers, horder⟩ := Attempt.bind_eq_ok.1 ok
      obtain rfl := Attempt.pure_eq_ok.1 horder
      rw [done others hothers]
    · intro left error
      cases hrest : schedule (remaining.filter fun d => d.1 != i) (waiting.erase i) with
      | ok others =>
        rw [hrest] at error
        cases error
      | error left' =>
        have lt := stuck left' hrest
        rw [List.length_cons]
        omega

end Counts

/-- Counting finds the order, and falls short of it when there is none. -/
theorem orderBy_eq_counted {scc : Actiongraph → List (List Nat)}
    (inside : ∀ d ∈ g.dependencies, d.1 < g.actions.length ∧ d.2 < g.actions.length) :
    g.orderBy scc = if g.counted.length < g.actions.length then
        .error ↑(Fault.unresolvableDependency (g.cycleSids (scc g)))
      else .ok g.counted := by
  have length : g.places.length = g.actions.length := by
    rw [g.places_perm.length_eq, List.length_range]
  obtain ⟨done, stuck⟩ := (Counts.start fun d hd => (inside d hd).2).drain_eq (le_of_eq length)
  cases hs : schedule g.dependencies g.places with
  | ok order =>
    have complete := (of_order (fun d hd => (inside d hd).1) (order_eq_ok.2 hs)).1.length_eq
    rw [List.length_range] at complete
    rw [orderBy_eq_ok.2 hs, counted, done order hs, if_neg (by omega)]
  | error left =>
    have short := stuck left hs
    rw [counted, if_pos (by omega)]
    simp only [orderBy, hs]

end StoragePlan.Actiongraph
