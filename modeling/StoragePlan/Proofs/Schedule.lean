import Mathlib.Data.Finset.Max
import Mathlib.Data.List.Induction
import Mathlib.Data.List.Nodup
import Mathlib.Logic.Relation
import StoragePlan.Plan.Actiongraph
import StoragePlan.Proofs.Attempts

/-!
# Orders that follow dependencies

`schedule` takes the first waiting place that no other waiting place has to come before. What it
returns therefore follows the dependencies: whatever comes before a place has been taken when the
place is (`Follows`). It never gets stuck when the dependencies go up in some rank, since then the
lowest of the waiting places is free.

`Follows.filter_eq_take` is what the order means for places that come one after the other, such as
those of one device: at each moment the ones that were taken are the first of them.
-/

namespace StoragePlan

/-- Whatever has to come before a place comes before it. -/
def Follows (r : Nat → Nat → Prop) (order : List Nat) : Prop :=
  ∀ earlier j later, order = earlier ++ j :: later → ∀ i, r i j → i ∈ earlier

namespace Follows

variable {r : Nat → Nat → Prop} {order rest : List Nat} {i j : Nat}

/-- The beginning of an order follows the dependencies as well. -/
theorem initial (h : Follows r (order ++ rest)) : Follows r order := by
  rintro earlier j later rfl i hd
  exact h earlier j (later ++ rest) (by simp) i hd

theorem mem_of_mem (h : Follows r order) (hd : r i j) (hj : j ∈ order) : i ∈ order := by
  obtain ⟨earlier, later, rfl⟩ := List.append_of_mem hj
  exact List.mem_append_left _ (h earlier j later rfl i hd)

theorem mem_of_transGen (h : Follows r order) (hd : Relation.TransGen r i j) (hj : j ∈ order) :
    i ∈ order := by
  induction hd using Relation.TransGen.head_induction_on with
  | single hd => exact h.mem_of_mem hd hj
  | head hd _ ih => exact h.mem_of_mem hd ih

/-- Whatever leads to a place comes before it. -/
theorem mem_earlier {earlier later : List Nat} (h : Follows r order)
    (cut : order = earlier ++ j :: later) (path : Relation.TransGen r i j) : i ∈ earlier := by
  subst cut
  obtain ⟨k, path, hd⟩ := Relation.TransGen.tail'_iff.1 path
  have direct : k ∈ earlier := h earlier j later rfl k hd
  rcases Relation.reflTransGen_iff_eq_or_transGen.1 path with rfl | path
  · exact direct
  · exact h.initial.mem_of_transGen path direct

/-- Of places that come one after the other, those that were taken are the first. -/
theorem filter_eq_take {places : List Nat} (distinct : places.Nodup) (linked : places.IsChain r)
    (h : Follows r order) (once : order.Nodup) :
    ∃ n, order.filter (· ∈ places) = places.take n := by
  induction order using List.reverseRecOn with
  | nil => exact ⟨0, by simp⟩
  | append_singleton order j ih =>
    obtain ⟨n, hn⟩ := ih h.initial (List.nodup_append.1 once).1
    rw [List.filter_append, hn]
    by_cases hj : j ∈ places
    · obtain ⟨m, hm, rfl⟩ := List.getElem_of_mem hj
      have untaken : places[m] ∉ order := fun mem => by
        simpa using (List.nodup_append.1 once).2.2 _ mem places[m] (by simp)
      have taken : ∀ k, (hk : k < places.length) → places[k] ∈ order → k < n := by
        intro k hk mem
        have : places[k] ∈ places.take n :=
          hn ▸ List.mem_filter.2 ⟨mem, by simp⟩
        obtain ⟨k', hk', same⟩ := List.mem_take_iff_getElem.1 this
        have := (distinct.getElem_inj_iff).1 same
        omega
      have le : n ≤ m := by
        by_contra lt
        refine untaken (List.mem_of_mem_filter (p := (· ∈ places)) (hn ▸ ?_))
        exact List.mem_take_iff_getElem.2 ⟨m, by omega, rfl⟩
      have ge : m ≤ n := by
        cases m with
        | zero => exact Nat.zero_le n
        | succ k =>
          have before := h order _ [] rfl _ (List.isChain_iff_getElem.1 linked k hm)
          exact taken k (by omega) before
      obtain rfl := Nat.le_antisymm le ge
      exact ⟨n + 1, by rw [List.take_add_one, List.getElem?_eq_getElem hm]; simp⟩
    · exact ⟨n, by simp [hj]⟩

end Follows

/-- When the places that were taken are the first `n`, the others were not. -/
theorem mem_iff_of_filter_eq_take {places order : List Nat} {n : Nat} (distinct : places.Nodup)
    (h : order.filter (· ∈ places) = places.take n) {m i : Nat} (hi : places[m]? = some i) :
    i ∈ order ↔ m < n := by
  obtain ⟨hm, rfl⟩ := List.getElem?_eq_some_iff.1 hi
  have taken : places[m] ∈ order ↔ places[m] ∈ places.take n := by
    rw [← h, List.mem_filter, decide_eq_true_eq]
    exact ⟨fun mem => ⟨mem, List.getElem_mem hm⟩, And.left⟩
  rw [taken, List.mem_take_iff_getElem]
  constructor
  · rintro ⟨k, hk, same⟩
    have := distinct.getElem_inj_iff.1 same
    omega
  · exact fun lt => ⟨m, Nat.lt_min.2 ⟨lt, hm⟩, rfl⟩

namespace Actiongraph

variable {dependencies : List (Nat × Nat)} {waiting order : List Nat}

/-- With a place go the dependencies that it was the source of. -/
theorem sources_erase {i : Nat} (sources : ∀ d ∈ dependencies, d.1 ∈ waiting) :
    ∀ d ∈ dependencies.filter fun d => d.1 != i, d.1 ∈ waiting.erase i := by
  intro d hd
  obtain ⟨hd, ne⟩ := List.mem_filter.1 hd
  exact (List.mem_erase_of_ne (by simpa using ne)).2 (sources d hd)

/-- What is waiting is put in an order that follows the dependencies. -/
theorem of_schedule (sources : ∀ d ∈ dependencies, d.1 ∈ waiting)
    (h : schedule dependencies waiting = .ok order) :
    order.Perm waiting ∧ Follows (fun i j => (i, j) ∈ dependencies) order := by
  fun_induction schedule dependencies waiting generalizing order with
  | case1 dependencies waiting none empty =>
    obtain rfl := List.isEmpty_iff.1 empty
    obtain rfl := Except.ok.inj h
    exact ⟨.refl _, fun earlier j later split => by simp at split⟩
  | case2 => cases h
  | case3 dependencies waiting i found ih =>
    simp only [List.unattach_filter, List.unattach_attach] at ih
    obtain ⟨rest, hrest, horder⟩ := Attempt.bind_eq_ok.1 h
    obtain rfl := Attempt.pure_eq_ok.1 horder
    have free : ∀ d ∈ dependencies, d.2 ≠ i := by simpa using List.find?_some found
    obtain ⟨perm, follows⟩ := ih (sources_erase sources) hrest
    refine ⟨(perm.cons i).trans (List.perm_cons_erase (List.mem_of_find?_eq_some found)).symm, ?_⟩
    intro earlier j later cut k hd
    cases earlier with
    | nil =>
      obtain ⟨rfl, _⟩ := List.cons.inj cut
      exact absurd rfl (free _ hd)
    | cons first earlier =>
      obtain ⟨rfl, hrest'⟩ := List.cons.inj cut
      by_cases same : k = i
      · exact same ▸ List.mem_cons_self
      · refine List.mem_cons_of_mem _ (follows earlier j later hrest' k ?_)
        exact List.mem_filter.2 ⟨hd, by simpa using same⟩

/-- The dependencies lead up in some rank, so that there is always a free place. -/
theorem schedule_total {α : Type} [LinearOrder α] {rank : Nat → α}
    (sources : ∀ d ∈ dependencies, d.1 ∈ waiting)
    (rising : ∀ d ∈ dependencies, rank d.1 < rank d.2) :
    ∃ order, schedule dependencies waiting = .ok order := by
  fun_induction schedule dependencies waiting with
  | case1 => exact ⟨[], rfl⟩
  | case2 dependencies waiting none nonempty =>
    -- The lowest of the waiting places would have to wait for a lower one.
    obtain ⟨i, hi, least⟩ := waiting.toFinset.exists_min_image rank
      (by simpa [List.toFinset_nonempty_iff] using nonempty)
    simp only [List.find?_eq_none, List.all_eq_true, bne_iff_ne, not_forall, not_not] at none
    obtain ⟨d, hd, rfl⟩ := none i (List.mem_toFinset.1 hi)
    exact absurd (rising d hd) (not_lt.2 (least d.1 (List.mem_toFinset.2 (sources d hd))))
  | case3 dependencies waiting i found ih =>
    simp only [List.unattach_filter, List.unattach_attach] at ih
    obtain ⟨rest, hrest⟩ := ih (sources_erase sources)
      fun d hd => rising d (List.mem_of_mem_filter hd)
    exact ⟨i :: rest, Attempt.bind_eq_ok.2 ⟨rest, hrest, rfl⟩⟩

/-! ### The order of an actiongraph -/

variable {g : Actiongraph}

/-- The places of all actions, each once. -/
theorem places_perm (g : Actiongraph) : g.places.Perm (List.range g.actions.length) := by
  refine ((List.mergeSort_perm _ _).map Prod.snd).trans ?_
  rw [List.zipIdx_map_snd, List.range_eq_range']

/-- The strongly connected components have no part in an order. -/
theorem orderBy_eq_ok {scc : Actiongraph → List (List Nat)} :
    g.orderBy scc = .ok order ↔ schedule g.dependencies g.places = .ok order := by
  unfold orderBy
  cases schedule g.dependencies g.places <;> simp

theorem order_eq_ok : g.order = .ok order ↔ schedule g.dependencies g.places = .ok order :=
  orderBy_eq_ok

theorem of_order (inside : ∀ d ∈ g.dependencies, d.1 < g.actions.length)
    (h : g.order = .ok order) :
    order.Perm (List.range g.actions.length) ∧
      Follows (fun i j => (i, j) ∈ g.dependencies) order := by
  have sources : ∀ d ∈ g.dependencies, d.1 ∈ g.places := fun d hd =>
    g.places_perm.mem_iff.2 (List.mem_range.2 (inside d hd))
  obtain ⟨perm, follows⟩ := of_schedule sources (order_eq_ok.1 h)
  exact ⟨perm.trans g.places_perm, follows⟩

theorem order_total {α : Type} [LinearOrder α] {rank : Nat → α}
    (inside : ∀ d ∈ g.dependencies, d.1 < g.actions.length)
    (rising : ∀ d ∈ g.dependencies, rank d.1 < rank d.2) : ∃ order, g.order = .ok order := by
  obtain ⟨order, h⟩ := schedule_total
    (fun d hd => g.places_perm.mem_iff.2 (List.mem_range.2 (inside d hd))) rising
  exact ⟨order, order_eq_ok.2 h⟩

end Actiongraph

end StoragePlan
