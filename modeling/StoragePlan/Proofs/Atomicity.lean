import StoragePlan.Proofs.Operations

/-!
# All or nothing

An operation on a valid devicegraph that fails has done nothing (`Operation.atomic`). It is not that
failures are repaired: where an edit could stop halfway, it does not. The new device of `addChild`
can always be joined to the parent that was accepted (`join_added`), so that it is never taken away
again, and the loop of a removal finds every device that it is about to drop (`found_in_removal`).
-/

namespace StoragePlan

namespace Step

variable {σ α β : Type} {x : Step σ α} {s : σ}

/-- If the step fails, it leaves the state as it was. -/
def AllOrNothing (x : Step σ α) (s : σ) : Prop := ∀ f s', x s = .error f s' → s' = s

/-- A step that does not fail. -/
theorem AllOrNothing.of_ok {a : α} {s' : σ} (h : x s = .ok a s') : AllOrNothing x s := by
  intro f t failed
  rw [h] at failed
  cases failed

/-- It does not matter what the result is made into. -/
theorem AllOrNothing.map (h : AllOrNothing x s) (b : α → β) :
    AllOrNothing (x >>= fun a => pure (b a)) s := by
  intro f s' failed
  cases hx : x s with
  | ok a t =>
    rw [bind_of_ok hx] at failed
    cases failed
  | error e t =>
    rw [bind_of_error hx] at failed
    cases failed
    exact h _ _ hx

end Step

namespace Edit

open Step

variable {α β : Type} {s : Editor}

/-- An edit that checks first does nothing when it is refused. -/
theorem ChecksFirst.allOrNothing {x : Edit α} {verdict : Except Failure Unit}
    {done : α → Editor → Prop} (h : ChecksFirst x s verdict done) : AllOrNothing x s := by
  cases hv : verdict with
  | error e =>
    intro f s' failed
    rw [h.refused hv] at failed
    cases failed
    rfl
  | ok _ =>
    obtain ⟨a, s', performed, _⟩ := h.accepted hv
    exact .of_ok performed

/-- A question changes nothing. -/
theorem atomic_ask {question : Devicegraph → Except Failure α} {f : α → Edit β}
    (h : ∀ a, question s.graph = .ok a → AllOrNothing (f a) s) :
    AllOrNothing (ask question >>= f) s := by
  intro e s' failed
  cases hq : question s.graph with
  | error _ =>
    rw [bind_of_error (ask_of_error hq)] at failed
    cases failed
    rfl
  | ok a =>
    rw [bind_of_ok (ask_of_ok hq)] at failed
    exact h a hq e s' failed

/-- A change of the devicegraph does not fail. -/
theorem atomic_change (f : Devicegraph → Devicegraph) : AllOrNothing (change f) s := .of_ok rfl

theorem atomic_changeFilesystem (sid : Sid) (f : Filesystem → Filesystem) :
    AllOrNothing (changeFilesystem sid f) s := atomic_ask fun _ _ => atomic_change _

/-! ### Where an edit could stop halfway -/

/-- When its turn comes, each device of a removal is there. -/
theorem found_in_removal (law : s.graph.Lawful) {sid x : Sid} {gone before after : List Sid}
    (removal : s.graph.removal sid = .ok gone) (turn : gone.reverse = before ++ x :: after) :
    ∃ s₁ d, before.forM drop s = .ok () s₁ ∧ s₁.graph.find x = .ok d := by
  have distinct : (before ++ x :: after).Nodup :=
    turn ▸ List.nodup_reverse.2 (Devicegraph.nodup_removal removal)
  have found : ∀ y ∈ before ++ x :: after, ∃ d, s.graph.find? y = some d := fun y hy =>
    law.found_of_mem_removal removal (List.mem_reverse.1 (turn ▸ hy))
  obtain ⟨s₁, dropped, graph, _⟩ := forM_drop (List.nodup_append.1 distinct).1 fun y hy =>
    found y (List.mem_append_left _ hy)
  obtain ⟨d, hd⟩ := found x (List.mem_append_right _ List.mem_cons_self)
  refine ⟨s₁, d, dropped, Devicegraph.find_eq_ok.2 ?_⟩
  rw [graph, (Devicegraph.shrunk_foldl s.graph before).find?, if_neg, hd]
  exact fun went => (List.nodup_append.1 distinct).2.2 x went x List.mem_cons_self rfl

end Edit

namespace Operation

open Step Edit

variable {s : Editor}

/-- Each operation does all or nothing. -/
theorem allOrNothing (law : s.graph.Lawful) (op : Operation) : AllOrNothing op.perform s := by
  cases op with
  | checked e =>
    cases e with
    | create c => exact (c.checksFirst s).allOrNothing.map _
    | change c => exact (c.checksFirst s).allOrNothing
  | setDiskRotational | setDiskTransport => exact atomic_ask fun _ _ => atomic_change _
  | setPartitionId | setPartitionBoot => exact atomic_ask fun _ _ => atomic_change _
  | setFilesystemType | setFilesystemLabel | setFilesystemUuid | addMountpoint | setMountpoints
  | setMountBy | setFstabOptions => exact atomic_changeFilesystem _ _
  | removeMountpoint sid mountpoint =>
    exact (atomic_ask fun _ _ => (atomic_changeFilesystem sid _).map _).map _
  | setUserData sid key value =>
    exact (atomic_ask fun _ _ => (atomic_change _).map _).map _
  | remove sid => exact (remove_checksFirst law sid).allOrNothing.map _
  | clear => exact .of_ok rfl

/-- In a valid devicegraph an operation that fails leaves everything as it was: devices, holders,
the next sid, and the log. What could fail after something was changed does not: the new device of
`addChild` is joined to its parent, so that it need not be removed again, and the loop of a removal
finds each device when its turn comes. -/
theorem atomic (valid : s.graph.check = .ok ()) :
    (∀ (op : Operation) f s', op.perform s = .error f s' → s' = s) ∧
    (∀ parent a sid s₁, s.graph.checkPlacement parent a.kind = .ok () →
      addDevice a s = .ok sid s₁ →
      ∃ s₂, addHolder parent sid a.kind.parentHolderKind s₁ = .ok () s₂) ∧
    ∀ sid gone before x after, s.graph.removal sid = .ok gone →
      gone.reverse = before ++ x :: after →
      ∃ s₁ d, before.forM drop s = .ok () s₁ ∧ s₁.graph.find x = .ok d := by
  have law := Devicegraph.check_eq_ok.1 valid
  refine ⟨fun op f s' failed => allOrNothing law op f s' failed, ?_, ?_⟩
  · intro parent a sid s₁ accepted added
    obtain ⟨sid', s₁', s₂, added', joined, _⟩ := join_added accepted
    obtain ⟨rfl, rfl⟩ := EStateM.Result.ok.inj (added.symm.trans added')
    exact ⟨s₂, joined⟩
  · intro sid gone before x after removal turn
    exact found_in_removal law removal turn

/-- A partition that begins inside another one is refused, and nothing has changed. -/
theorem atomic_overlap : ∃ f,
    (checked (.create (.partition 2 "/dev/sda2" .primary ⟨4096, 4096, 512⟩))).perform
      { graph := Plan.onePartition ⟨2048, 4096, 512⟩ } =
        .error f { graph := Plan.onePartition ⟨2048, 4096, 512⟩ } := by
  obtain ⟨f, s', failed⟩ : ∃ f s',
      (checked (.create (.partition 2 "/dev/sda2" .primary ⟨4096, 4096, 512⟩))).perform
        { graph := Plan.onePartition ⟨2048, 4096, 512⟩ } = .error f s' :=
    ⟨_, _, bind_of_error ((Creation.checksFirst _ _).refused (by cbv))⟩
  obtain rfl := (atomic (by cbv)).1 _ f s' failed
  exact ⟨f, failed⟩

end Operation

end StoragePlan
