import Mathlib.Data.Finset.Card
import StoragePlan.Proofs.Components
import StoragePlan.Proofs.Counting

/-!
# The order of an actiongraph

An actiongraph can be put in order exactly if none of its actions leads back to itself, whatever its
dependencies are: some may be there twice, and an action may depend on itself. There is one order
that is asked for (`Actiongraph.Canonical`): in it each action is the least, by sid and place, of
those that may come next. `order_canonical` says that it is found, and that otherwise the failure
names the devices of the actions on cycles, and no others that have to wait for these.
-/

namespace StoragePlan.Actiongraph

open Relation

variable {g : Actiongraph} {dependencies : List (Nat × Nat)} {order waiting : List Nat} {i j : Nat}
  {scc : Actiongraph → List (List Nat)}

/-! ### Cycles -/

/-- In an order that follows the dependencies nothing comes before itself. -/
theorem not_leads_of_follows (once : order.Nodup)
    (follows : Follows (fun i j => (i, j) ∈ g.dependencies) order) (hi : i ∈ order) :
    ¬g.Leads i i := by
  intro cycle
  obtain ⟨earlier, rest, rfl⟩ := List.append_of_mem hi
  have again : i ∈ earlier := follows.mem_earlier rfl cycle
  exact (List.nodup_append.1 once).2.2 i again i List.mem_cons_self rfl

/-- Without cycles every action has more before it than those that it depends on. -/
theorem order_total_of_acyclic (inside : g.WellFormed) (acyclic : ∀ i, ¬g.Leads i i) :
    ∃ order, g.order = .ok order := by
  classical
  let before (i : Nat) : Finset Nat := (Finset.range g.actions.length).filter fun k => g.Leads k i
  let rank (i : Nat) : Nat := (before i).card
  have rising : ∀ d ∈ g.dependencies, rank d.1 < rank d.2 := by
    intro d hd
    have direct : g.Leads d.1 d.2 := .single hd
    refine Finset.card_lt_card (Finset.ssubset_iff_of_subset (fun k hk => ?_) |>.2 ⟨d.1, ?_, ?_⟩)
    · obtain ⟨lt, leads⟩ := Finset.mem_filter.1 hk
      exact Finset.mem_filter.2 ⟨lt, leads.trans direct⟩
    · exact Finset.mem_filter.2 ⟨Finset.mem_range.2 (inside d hd).1, direct⟩
    · exact fun hd' => acyclic d.1 (Finset.mem_filter.1 hd').2
  exact order_total (fun d hd => (inside d hd).1) rising

/-! ### The least place -/

/-- The place was not taken, and all that has to come directly before it was. -/
structure Ready (g : Actiongraph) (taken : List Nat) (i : Nat) : Prop where
  inside : i < g.actions.length
  untaken : i ∉ taken
  free : ∀ k, (k, i) ∈ g.dependencies → k ∈ taken

/-- The order that is asked for. -/
structure Canonical (g : Actiongraph) (order : List Nat) : Prop where
  /-- Every action is there once. -/
  perm : order.Perm (List.range g.actions.length)
  /-- What an action depends on comes before it. -/
  follows : Follows (fun i j => (i, j) ∈ g.dependencies) order
  /-- Each action is the least of those that may come next. -/
  least : ∀ earlier i later, order = earlier ++ i :: later →
    ∀ j, g.Ready earlier j → g.key i ≤ g.key j

/-- Of the waiting places that may come next the first one is taken. -/
theorem least_of_schedule {r : Nat → Nat → Prop} (ascending : waiting.Pairwise r)
    (h : schedule dependencies waiting = .ok order) {earlier later : List Nat}
    (cut : order = earlier ++ i :: later) (hj : j ∈ waiting) (untaken : j ∉ earlier)
    (free : ∀ k, (k, j) ∈ dependencies → k ∈ earlier) : i = j ∨ r i j := by
  fun_induction schedule dependencies waiting generalizing order earlier with
  | case1 dependencies waiting none empty =>
    rw [List.isEmpty_iff.1 empty] at hj
    cases hj
  | case2 => cases h
  | case3 dependencies waiting first found ih =>
    simp only [List.unattach_filter, List.unattach_attach] at ih
    obtain ⟨rest, hrest, horder⟩ := Attempt.bind_eq_ok.1 h
    obtain rfl := Attempt.pure_eq_ok.1 horder
    cases earlier with
    | nil =>
      obtain ⟨rfl, _⟩ := List.cons.inj cut
      obtain ⟨_, skipped, others, rfl, bound⟩ := List.find?_eq_some_iff_append.1 found
      have unbound : (dependencies.all fun d => d.2 != j) = true := by
        refine List.all_eq_true.2 fun d hd => ?_
        by_contra same
        obtain rfl : d.2 = j := by simpa using same
        exact absurd (free d.1 hd) List.not_mem_nil
      rcases List.mem_append.1 hj with hj | hj
      · simpa [unbound] using bound j hj
      · rcases List.mem_cons.1 hj with rfl | hj
        · exact .inl rfl
        · have below := (List.pairwise_append.1 ascending).2.1
          exact .inr ((List.pairwise_cons.1 below).1 j hj)
    | cons taken earlier =>
      obtain ⟨rfl, hrest'⟩ := List.cons.inj cut
      have ne : j ≠ first := fun same => untaken (same ▸ List.mem_cons_self)
      refine ih (ascending.sublist List.erase_sublist) hrest hrest'
        ((List.mem_erase_of_ne ne).2 hj) (fun hj => untaken (List.mem_cons_of_mem _ hj)) ?_
      intro k hd
      obtain ⟨hd, other⟩ := List.mem_filter.1 hd
      exact (List.mem_cons.1 (free k hd)).resolve_left (by simpa using other)

/-- In an order that follows the dependencies each action may come where it does. -/
theorem Canonical.ready {earlier later : List Nat} (h : g.Canonical order)
    (cut : order = earlier ++ i :: later) : g.Ready earlier i := by
  have once : (earlier ++ i :: later).Nodup := cut ▸ h.perm.nodup_iff.2 List.nodup_range
  refine ⟨?_, fun mem => ?_, fun k hd => h.follows earlier i later cut k hd⟩
  · have member : i ∈ order := by simp [cut]
    exact List.mem_range.1 (h.perm.mem_iff.1 member)
  · exact (List.nodup_append.1 once).2.2 i mem i List.mem_cons_self rfl

/-- There is at most one such order. -/
theorem Canonical.unique {order' : List Nat} (h : g.Canonical order) (h' : g.Canonical order') :
    order = order' := by
  -- After the same beginning both go on with the least place that is ready.
  have same : ∀ later earlier later', order = earlier ++ later → order' = earlier ++ later' →
      later = later' := by
    intro later
    induction later with
    | nil =>
      intro earlier later' cut cut'
      have length := (h.perm.trans h'.perm.symm).length_eq
      rw [cut, cut'] at length
      simpa [eq_comm] using length
    | cons i later ih =>
      intro earlier later' cut cut'
      cases later' with
      | nil =>
        have length := (h.perm.trans h'.perm.symm).length_eq
        rw [cut, cut'] at length
        simp at length
      | cons j later' =>
        have le := h.least earlier i later cut j (h'.ready cut')
        have ge := h'.least earlier j later' cut' i (h.ready cut)
        obtain rfl := g.key_injective (le_antisymm le ge)
        have rest := ih (earlier ++ [i]) later' (by simp [cut]) (by simp [cut'])
        rw [rest]
  exact same order [] order' rfl rfl

/-- An order that is found is the one that is asked for. -/
theorem canonical_of_order (inside : g.WellFormed) (h : g.order = .ok order) :
    g.Canonical order := by
  obtain ⟨perm, follows⟩ := of_order (fun d hd => (inside d hd).1) h
  refine ⟨perm, follows, fun earlier i later cut j ready => ?_⟩
  have member : j ∈ g.places := g.places_perm.mem_iff.2 (List.mem_range.2 ready.inside)
  rcases least_of_schedule g.places_ascending (order_eq_ok.1 h) cut member ready.untaken ready.free
    with rfl | lt
  · exact le_refl _
  · exact le_of_lt lt

/-- Where there is such an order nothing leads back to itself. -/
theorem Canonical.acyclic (inside : g.WellFormed) (h : g.Canonical order) : ∀ i, ¬g.Leads i i := by
  intro i cycle
  obtain ⟨j, hd, _⟩ := TransGen.head'_iff.1 cycle
  have member : i ∈ order := h.perm.mem_iff.2 (List.mem_range.2 (inside _ hd).1)
  exact not_leads_of_follows (h.perm.nodup_iff.2 List.nodup_range) h.follows member cycle

/-- An order that is asked for is found. -/
theorem order_of_canonical (inside : g.WellFormed) (h : g.Canonical order) :
    g.order = .ok order := by
  obtain ⟨order', found⟩ := order_total_of_acyclic inside (h.acyclic inside)
  rw [found, (canonical_of_order inside found).unique h]

/-! ### All graphs -/

/-- Whatever finds the strongly connected components, the graph is put in the same order, or fails
with the same sids. -/
theorem orderBy_eq_order (inside : g.WellFormed) (hscc : g.Components (scc g)) :
    g.orderBy scc = g.order := by
  unfold order orderBy
  rw [hscc.cycleSids_eq g.components_spec inside]

/-- Let `scc` find the strongly connected components. An actiongraph can be put in order exactly if
nothing leads back to itself, and the order is the one that is asked for, which counting finds.
Otherwise the failure names the devices of the actions on cycles, by ascending sid. -/
theorem order_canonical (g : Actiongraph) (scc : Actiongraph → List (List Nat))
    (inside : g.WellFormed) (hscc : g.Components (scc g)) :
    ((∃ order, g.orderBy scc = .ok order) ↔ ∀ i, ¬g.Leads i i) ∧
      (∀ order, g.orderBy scc = .ok order ↔ g.Canonical order) ∧
      (∀ f, g.orderBy scc = .error f → ∃ sids, f = ↑(Fault.unresolvableDependency sids) ∧
        sids.Pairwise (· < ·) ∧
        ∀ sid, sid ∈ sids ↔ ∃ i a, g.actions[i]? = some a ∧ a.sid = sid ∧ g.Leads i i) ∧
      (g.orderBy scc = if g.counted.length < g.actions.length then
        .error ↑(Fault.unresolvableDependency (g.cycleSids (scc g))) else .ok g.counted) ∧
      g.orderBy scc = g.order := by
  have same := orderBy_eq_order inside hscc
  have canonical : ∀ order, g.orderBy scc = .ok order ↔ g.Canonical order := by
    intro order
    rw [same]
    exact ⟨canonical_of_order inside, order_of_canonical inside⟩
  refine ⟨⟨?_, fun acyclic => ?_⟩, canonical, ?_, orderBy_eq_counted inside, same⟩
  · rintro ⟨order, h⟩ i cycle
    exact ((canonical order).1 h).acyclic inside i cycle
  · rw [same]
    exact order_total_of_acyclic inside acyclic
  · intro f h
    refine ⟨g.cycleSids (scc g), ?_, SidList.pairwise_ofList _, fun sid => hscc.mem_cycleSids inside⟩
    unfold orderBy at h
    split at h
    · cases h
    · exact (Except.error.inj h).symm

/-- Two actions that wait for each other and one that waits for itself. One comes before the first
two, by two dependencies, and one after them. -/
def tangled : Actiongraph where
  actions := [⟨9, .nop, true, true⟩, ⟨4, .setLabel, true, false⟩, ⟨4, .setUuid, false, true⟩,
    ⟨7, .setBoot, true, true⟩, ⟨2, .updateFstab, true, true⟩]
  dependencies := [(0, 1), (0, 1), (1, 2), (2, 1), (3, 3), (2, 4)]

/-- The strongly connected components as a depth-first search leaves them, the last ones first. -/
def tangledComponents : List (List Nat) := [[4], [2, 1], [0], [3]]

theorem components_tangled : tangled.Components tangledComponents := by
  have joined : ∀ i < 5, ∀ j < 5,
      (∃ c ∈ tangledComponents, i ∈ c ∧ j ∈ c) ↔ tangled.connected i j = true := by decide
  exact ⟨by decide, fun i hi j hj => (joined i hi j hj).trans connected_iff⟩

theorem order_canonical_tangled :
    (tangled.WellFormed ∧ tangled.Components tangledComponents) ∧
    ((∃ order, tangled.orderBy (fun _ => tangledComponents) = .ok order) ↔
      ∀ i, ¬tangled.Leads i i) ∧
    (∀ order, tangled.orderBy (fun _ => tangledComponents) = .ok order ↔
      tangled.Canonical order) ∧
    (∀ f, tangled.orderBy (fun _ => tangledComponents) = .error f →
      ∃ sids, f = ↑(Fault.unresolvableDependency sids) ∧ sids.Pairwise (· < ·) ∧
      ∀ sid, sid ∈ sids ↔ ∃ i a, tangled.actions[i]? = some a ∧ a.sid = sid ∧ tangled.Leads i i) ∧
    (tangled.orderBy (fun _ => tangledComponents) =
      if tangled.counted.length < tangled.actions.length then
        .error ↑(Fault.unresolvableDependency (tangled.cycleSids tangledComponents))
      else .ok tangled.counted) ∧
    tangled.orderBy (fun _ => tangledComponents) = tangled.order := by
  have inside : tangled.WellFormed := by simp [WellFormed, tangled]
  exact ⟨⟨inside, components_tangled⟩,
    order_canonical tangled (fun _ => tangledComponents) inside components_tangled⟩

/-- Neither the device of the action before the cycles nor that of the one after them is named. -/
example : tangled.orderBy (fun _ => tangledComponents) =
    .error ↑(Fault.unresolvableDependency [4, 7]) := by cbv

end StoragePlan.Actiongraph
