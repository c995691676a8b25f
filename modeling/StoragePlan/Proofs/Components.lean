import Mathlib.Data.List.Sort
import Mathlib.Logic.Relation
import StoragePlan.Devicegraph.Navigation
import StoragePlan.Plan.Actiongraph

/-!
# Strongly connected components

Two actions are in one strongly connected component if each has to come before the other.
`Actiongraph.Components` says of lists of places that they are the components, in any order and with
the places of each in any order. From whatever components the failure of a sort is made, it names
the devices of exactly the actions that have to come before themselves (`Components.mem_cycleSids`).
`components_spec` is that there are such lists: `components` finds them.
-/

namespace StoragePlan.Actiongraph

open Relation

variable {g : Actiongraph} {dependencies : List (Nat × Nat)} {found : List Nat} {i j : Nat}

/-! ### What comes after a place -/

/-- Whatever comes directly after a place of the list is in it. -/
def Closed (dependencies : List (Nat × Nat)) (found : List Nat) : Prop :=
  ∀ d ∈ dependencies, d.1 ∈ found → d.2 ∈ found

theorem mem_step : j ∈ step dependencies found ↔
    j ∈ found ∨ ∃ i ∈ found, (i, j) ∈ dependencies := by
  simp only [step, List.mem_append, List.mem_map, List.mem_filter, Bool.and_eq_true,
    decide_eq_true_eq, Prod.exists, exists_eq_right]
  constructor
  · rintro (member | ⟨i, hd, source, _⟩)
    · exact .inl member
    · exact .inr ⟨i, source, hd⟩
  · rintro (member | ⟨i, source, hd⟩)
    · exact .inl member
    · by_cases target : j ∈ found
      · exact .inl target
      · exact .inr ⟨i, hd, source, target⟩

/-- How many dependencies lead to places that were not found. -/
def ahead (dependencies : List (Nat × Nat)) (found : List Nat) : Nat :=
  dependencies.countP fun d => d.2 ∉ found

/-- A step that finds something leaves less ahead. -/
theorem ahead_step_lt (h : ¬Closed dependencies found) :
    ahead dependencies (step dependencies found) < ahead dependencies found := by
  obtain ⟨d, hd, source, target⟩ : ∃ d ∈ dependencies, d.1 ∈ found ∧ d.2 ∉ found := by
    simpa [Closed] using h
  refine Devicegraph.countP_lt_of_mem (fun x hx => ?_) hd (by simpa using target) ?_
  · simp only [decide_eq_true_eq, mem_step, not_or] at hx ⊢
    exact hx.1
  · have reached : d.2 ∈ step dependencies found := mem_step.2 (.inr ⟨d.1, source, hd⟩)
    simpa using reached

theorem step_of_closed (h : Closed dependencies found) : step dependencies found = found := by
  have nothing : dependencies.filter (fun d => d.1 ∈ found && d.2 ∉ found) = [] :=
    List.filter_eq_nil_iff.2 fun d hd => by simpa using h d hd
  rw [step, nothing, List.map_nil, List.append_nil]

/-- Some rounds of steps. -/
def rounds (dependencies : List (Nat × Nat)) (found : List Nat) (n : Nat) : List Nat :=
  (List.range n).foldl (fun found _ => step dependencies found) found

theorem rounds_succ (n : Nat) :
    rounds dependencies found (n + 1) = step dependencies (rounds dependencies found n) := by
  rw [rounds, List.range_succ, List.foldl_append]
  rfl

/-- After each round there is nothing left to find, or one dependency less ahead. -/
theorem closed_or_ahead_le (dependencies : List (Nat × Nat)) (found : List Nat) (n : Nat) :
    Closed dependencies (rounds dependencies found n) ∨
      ahead dependencies (rounds dependencies found n) + n ≤ ahead dependencies found := by
  induction n with
  | zero => exact .inr (Nat.le_refl _)
  | succ n ih =>
    rw [rounds_succ]
    by_cases closed : Closed dependencies (rounds dependencies found n)
    · rw [step_of_closed closed]
      exact .inl closed
    · have lt := ahead_step_lt closed
      have le := ih.resolve_left closed
      exact .inr (by omega)

/-- There are enough rounds to find everything. -/
theorem closed_later (dependencies : List (Nat × Nat)) (found : List Nat) :
    Closed dependencies (later dependencies found) := by
  show Closed dependencies (rounds dependencies found dependencies.length)
  rcases closed_or_ahead_le dependencies found dependencies.length with closed | le
  · exact closed
  · have bound : ahead dependencies found ≤ dependencies.length := List.countP_le_length
    have none : ahead dependencies (rounds dependencies found dependencies.length) = 0 := by omega
    intro d hd _
    simpa using List.countP_eq_zero.1 none d hd

theorem subset_rounds (n : Nat) : found ⊆ rounds dependencies found n := by
  induction n with
  | zero => exact List.Subset.refl found
  | succ n ih =>
    intro i hi
    rw [rounds_succ]
    exact mem_step.2 (.inl (ih hi))

/-- Each round finds places that can be reached. -/
theorem reached_of_mem_rounds {n : Nat} (h : j ∈ rounds dependencies found n) :
    ∃ i ∈ found, ReflTransGen (fun i j => (i, j) ∈ dependencies) i j := by
  induction n generalizing j with
  | zero => exact ⟨j, h, .refl⟩
  | succ n ih =>
    rw [rounds_succ, mem_step] at h
    rcases h with h | ⟨k, hk, hd⟩
    · exact ih h
    · obtain ⟨i, hi, path⟩ := ih hk
      exact ⟨i, hi, path.tail hd⟩

/-- `later` finds the places that can be reached along the dependencies. -/
theorem mem_later : j ∈ later dependencies found ↔
    ∃ i ∈ found, ReflTransGen (fun i j => (i, j) ∈ dependencies) i j := by
  constructor
  · exact reached_of_mem_rounds (n := dependencies.length)
  · rintro ⟨i, hi, path⟩
    induction path with
    | refl => exact subset_rounds dependencies.length hi
    | tail _ hd ih => exact closed_later dependencies found _ hd ih

/-! ### Cycles -/

/-- The one place has to come before the other, directly or not. -/
def Leads (g : Actiongraph) : Nat → Nat → Prop := TransGen fun i j => (i, j) ∈ g.dependencies

/-- The dependencies are between actions of the graph. -/
def WellFormed (g : Actiongraph) : Prop :=
  ∀ d ∈ g.dependencies, d.1 < g.actions.length ∧ d.2 < g.actions.length

/-- Two places have a way from each to the other, which may be empty. -/
def Connected (g : Actiongraph) (i j : Nat) : Prop :=
  ReflTransGen (fun i j => (i, j) ∈ g.dependencies) i j ∧
    ReflTransGen (fun i j => (i, j) ∈ g.dependencies) j i

theorem Connected.symm (h : g.Connected i j) : g.Connected j i := ⟨h.2, h.1⟩

theorem Connected.trans {k : Nat} (h : g.Connected i j) (h' : g.Connected j k) : g.Connected i k :=
  ⟨h.1.trans h'.1, h'.2.trans h.2⟩

/-- From a place that is connected with another one there is a way back to it. -/
theorem Connected.leads_self (h : g.Connected i j) (ne : i ≠ j) : g.Leads i i := by
  have there : g.Leads i j := (reflTransGen_iff_eq_or_transGen.1 h.1).resolve_left ne.symm
  exact there.trans_left h.2

/-- A way back goes over the place itself or over one that it is connected with. -/
theorem Leads.connected (h : g.Leads i i) : ∃ j, (i, j) ∈ g.dependencies ∧ g.Connected i j := by
  obtain ⟨j, hd, back⟩ := TransGen.head'_iff.1 h
  exact ⟨j, hd, .single hd, back⟩

/-- The lists are the strongly connected components of the graph. -/
structure Components (g : Actiongraph) (components : List (List Nat)) : Prop where
  /-- Every place is in one of them, once. -/
  perm : components.flatten.Perm (List.range g.actions.length)
  /-- Two places are in the same one exactly if they are connected. -/
  same_iff : ∀ i < g.actions.length, ∀ j < g.actions.length,
    (∃ c ∈ components, i ∈ c ∧ j ∈ c) ↔ g.Connected i j

namespace Components

variable {components : List (List Nat)} {c : List Nat}

theorem lt_length (h : g.Components components) (hc : c ∈ components) (hi : i ∈ c) :
    i < g.actions.length :=
  List.mem_range.1 (h.perm.mem_iff.1 (List.mem_flatten.2 ⟨c, hc, hi⟩))

theorem nodup (h : g.Components components) (hc : c ∈ components) : c.Nodup :=
  (List.nodup_flatten.1 (h.perm.nodup_iff.2 List.nodup_range)).1 c hc

/-- The places of a component that is a cycle lead back to themselves. -/
theorem leads_self (h : g.Components components) (hc : c ∈ components) (cycle : g.isCycle c = true)
    (hi : i ∈ c) : g.Leads i i := by
  by_cases alone : c = [i]
  · subst alone
    exact .single (by simpa [isCycle] using cycle)
  · rcases ((h.nodup hc).ne_singleton_iff i).1 alone with rfl | ⟨j, hj, ne⟩
    · cases hi
    · have connected : g.Connected i j :=
        (h.same_iff i (h.lt_length hc hi) j (h.lt_length hc hj)).1 ⟨c, hc, hi, hj⟩
      exact connected.leads_self (Ne.symm ne)

/-- A place that leads back to itself is in a component that is a cycle. -/
theorem exists_isCycle (h : g.Components components) (inside : g.WellFormed) (back : g.Leads i i) :
    ∃ c ∈ components, g.isCycle c = true ∧ i ∈ c := by
  obtain ⟨j, hd, connected⟩ := back.connected
  obtain ⟨hi, hj⟩ := inside (i, j) hd
  obtain ⟨c, hc, hic, hjc⟩ := (h.same_iff i hi j hj).2 connected
  refine ⟨c, hc, ?_, hic⟩
  rcases c with _ | ⟨k, _ | ⟨l, rest⟩⟩
  · cases hic
  · obtain rfl := List.mem_singleton.1 hic
    obtain rfl := List.mem_singleton.1 hjc
    simpa [isCycle] using hd
  · simp [isCycle]

/-- The sids of a failure are those of the actions that have to come before themselves, whatever
finds the components. -/
theorem mem_cycleSids (h : g.Components components) (inside : g.WellFormed) {sid : Sid} :
    sid ∈ g.cycleSids components ↔
      ∃ i a, g.actions[i]? = some a ∧ a.sid = sid ∧ g.Leads i i := by
  simp only [cycleSids, SidList.mem_ofList, List.mem_filterMap, List.mem_flatten, List.mem_filter,
    Option.map_eq_some_iff]
  constructor
  · rintro ⟨i, ⟨c, ⟨hc, cycle⟩, hi⟩, a, ha, rfl⟩
    exact ⟨i, a, ha, rfl, h.leads_self hc cycle hi⟩
  · rintro ⟨i, a, ha, rfl, back⟩
    obtain ⟨c, hc, cycle, hi⟩ := h.exists_isCycle inside back
    exact ⟨i, ⟨c, ⟨hc, cycle⟩, hi⟩, a, ha, rfl⟩

/-- All ways to find the components give the same sids. -/
theorem cycleSids_eq {components' : List (List Nat)} (h : g.Components components)
    (h' : g.Components components') (inside : g.WellFormed) :
    g.cycleSids components = g.cycleSids components' := by
  refine (SidList.pairwise_ofList _).eq_of_mem_iff (SidList.pairwise_ofList _) fun sid => ?_
  exact (h.mem_cycleSids inside).trans (h'.mem_cycleSids inside).symm

end Components

/-! ### Finding the components -/

theorem connected_iff : g.connected i j = true ↔ g.Connected i j := by
  simp only [connected, Bool.and_eq_true, List.contains_iff_mem, mem_later, List.mem_singleton,
    exists_eq_left, Connected]

/-- Connected places have the same first place. -/
theorem find?_connected (h : g.Connected i j) (places : List Nat) :
    places.find? (g.connected i) = places.find? (g.connected j) := by
  refine congrArg (fun p => places.find? p) (funext fun k => Bool.eq_iff_iff.2 ?_)
  rw [connected_iff, connected_iff]
  exact ⟨h.symm.trans, h.trans⟩

theorem mem_components {c : List Nat} : c ∈ g.components ↔
    ∃ i < g.actions.length, (List.range g.actions.length).find? (g.connected i) = some i ∧
      (List.range g.actions.length).filter (g.connected i) = c := by
  simp only [components, List.mem_map, List.mem_filter, List.mem_range, beq_iff_eq, and_assoc]

/-- Every place is in the component that stands where its first place is. -/
theorem exists_component (hi : i < g.actions.length) : ∃ k < g.actions.length,
    (List.range g.actions.length).find? (g.connected k) = some k ∧ g.Connected k i := by
  have found : ((List.range g.actions.length).find? (g.connected i)).isSome = true :=
    List.find?_isSome.2 ⟨i, List.mem_range.2 hi, connected_iff.2 ⟨.refl, .refl⟩⟩
  obtain ⟨k, hk⟩ := Option.isSome_iff_exists.1 found
  have joined : g.Connected i k := connected_iff.1 (List.find?_some hk)
  refine ⟨k, List.mem_range.1 (List.mem_of_find?_eq_some hk), ?_, joined.symm⟩
  rw [← find?_connected joined, hk]

/-- Where two components share a place they stand at the same place. -/
theorem pairwise_disjoint_components (g : Actiongraph) : g.components.Pairwise List.Disjoint := by
  refine List.pairwise_map.2 ((List.nodup_range.filter _).pairwise_of_forall_ne ?_)
  intro k hk l hl ne m hm hm'
  have first := beq_iff_eq.1 (List.mem_filter.1 hk).2
  have first' := beq_iff_eq.1 (List.mem_filter.1 hl).2
  have joined : g.Connected k l := (connected_iff.1 (List.mem_filter.1 hm).2).trans
    (connected_iff.1 (List.mem_filter.1 hm').2).symm
  exact ne (Option.some.inj (by rw [← first, ← first', find?_connected joined]))

theorem flatten_components_perm (g : Actiongraph) :
    g.components.flatten.Perm (List.range g.actions.length) := by
  have once : g.components.flatten.Nodup := by
    refine List.nodup_flatten.2 ⟨fun c hc => ?_, g.pairwise_disjoint_components⟩
    obtain ⟨k, _, _, rfl⟩ := mem_components.1 hc
    exact List.nodup_range.filter _
  refine (List.perm_ext_iff_of_nodup once List.nodup_range).2 fun i => ?_
  rw [List.mem_flatten]
  constructor
  · rintro ⟨c, hc, hi⟩
    obtain ⟨k, _, _, rfl⟩ := mem_components.1 hc
    exact (List.mem_filter.1 hi).1
  · intro hi
    obtain ⟨k, hk, first, joined⟩ := exists_component (List.mem_range.1 hi)
    exact ⟨_, mem_components.2 ⟨k, hk, first, rfl⟩, List.mem_filter.2 ⟨hi, connected_iff.2 joined⟩⟩

/-- `components` finds the strongly connected components. -/
theorem components_spec (g : Actiongraph) : g.Components g.components := by
  refine ⟨g.flatten_components_perm, fun i hi j hj => ⟨?_, fun joined => ?_⟩⟩
  · rintro ⟨c, hc, hic, hjc⟩
    obtain ⟨k, _, _, rfl⟩ := mem_components.1 hc
    exact (connected_iff.1 (List.mem_filter.1 hic).2).symm.trans
      (connected_iff.1 (List.mem_filter.1 hjc).2)
  · obtain ⟨k, hk, first, there⟩ := exists_component hi
    refine ⟨_, mem_components.2 ⟨k, hk, first, rfl⟩, List.mem_filter.2 ⟨List.mem_range.2 hi, ?_⟩,
      List.mem_filter.2 ⟨List.mem_range.2 hj, ?_⟩⟩
    · exact connected_iff.2 there
    · exact connected_iff.2 (there.trans joined)

end StoragePlan.Actiongraph
