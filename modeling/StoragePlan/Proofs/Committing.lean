import StoragePlan.Proofs.Commands
import StoragePlan.Proofs.Unchanged

/-!
# What a commit carries out

A commit begins the steps of the plan one after the other, up to and including the first that fails
(`execute_of_carriesOut`, `execute_of_failsAt`). An executor either carries out all steps or there
is a first one at which it fails (`carriesOut_or_failsAt`), and so one of these two says what came
of the commit.

After a commit that succeeds there is nothing left to do: the plan from a devicegraph to itself has
no action, not even one that does nothing (`between_self`).
-/

namespace StoragePlan

/-! ### No action from a devicegraph to itself -/

namespace Plan

/-- The plan from a devicegraph to itself has no action. -/
theorem between_self {g : Devicegraph} (valid : g.check = .ok ()) :
    ∃ p, between g g = .ok p ∧ p.graph.actions = [] ∧ p.actions = [] := by
  obtain ⟨p, s, replaced, hp, hl, hr, realizes⟩ := between_spec valid valid
  have alike : Alike s.lhs s.rhs := by
    rw [hl, hr]
    exact .refl g
  exact ⟨p, hp, realizes.graph_empty_iff.2 alike, realizes.actions_empty_iff.2 alike⟩

end Plan

/-! ### The steps that are carried out -/

/-- The executor carries out actions one after the other. -/
def Executor.CarriesOut (executor : Executor) (actions : List Action) : Prop :=
  ∀ earlier a later, actions = earlier ++ a :: later → executor earlier a = .ok ()

/-- The executor carries out the first actions of a list and fails at the next one. -/
structure Executor.FailsAt (executor : Executor) (actions earlier : List Action) (a : Action)
    (causes : List String) : Prop where
  next : ∃ later, actions = earlier ++ a :: later
  carriesOut : executor.CarriesOut earlier
  failure : executor earlier a = .error causes

namespace Executor

variable {executor : Executor} {actions earlier : List Action} {a : Action} {causes : List String}

theorem carriesOut_nil (executor : Executor) : executor.CarriesOut [] := by
  rintro earlier a later cut
  simp at cut

theorem carriesOut_concat : executor.CarriesOut (earlier ++ [a]) ↔
    executor.CarriesOut earlier ∧ executor earlier a = .ok () := by
  constructor
  · refine fun h => ⟨fun done b later cut => ?_, h _ _ _ rfl⟩
    exact h done b (later ++ [a]) (by rw [cut, List.append_assoc, List.cons_append])
  · rintro ⟨h, last⟩ done b later cut
    rcases List.eq_nil_or_concat later with rfl | ⟨rest, c, rfl⟩
    · obtain ⟨rfl, same⟩ := List.append_inj' cut rfl
      obtain rfl := (List.cons.inj same).1
      exact last
    · rw [List.concat_eq_append, ← List.cons_append, ← List.append_assoc] at cut
      exact h done b rest (List.append_inj' cut rfl).1

/-- An executor carries out all actions, or there is a first one at which it fails. -/
theorem carriesOut_or_failsAt (executor : Executor) (actions : List Action) :
    executor.CarriesOut actions ∨
      ∃ earlier a causes, executor.FailsAt actions earlier a causes := by
  induction actions using List.reverseRecOn with
  | nil => exact .inl executor.carriesOut_nil
  | append_singleton actions a ih =>
    rcases ih with carriesOut | ⟨earlier, b, causes, ⟨later, cut⟩, carriesOut, failure⟩
    · cases h : executor actions a with
      | ok _ => exact .inl (carriesOut_concat.2 ⟨carriesOut, h⟩)
      | error causes => exact .inr ⟨actions, a, causes, ⟨[], rfl⟩, carriesOut, h⟩
    · exact .inr ⟨earlier, b, causes, ⟨later ++ [a], by simp [cut]⟩, carriesOut, failure⟩

theorem FailsAt.not_carriesOut (h : executor.FailsAt actions earlier a causes) :
    ¬executor.CarriesOut actions := by
  intro carriesOut
  obtain ⟨later, cut⟩ := h.next
  cases h.failure.symm.trans (carriesOut earlier a later cut)

end Executor

/-- The action that the executor is called for. -/
def Event.executed? : Event → Option Action
  | execute _ _ a => some a
  | _ => none

namespace Plan

variable (p : Plan) (root : String) {executor : Executor}

/-- What happens when a step is begun. -/
def begun (a : Action) : List Event :=
  [.message (p.text a), .pre a, .execute root (p.text a) a]

/-- What happens when a step is carried out. -/
def performed (a : Action) : List Event := p.begun root a ++ [.post a]

theorem executed_performed (actions : List Action) :
    (actions.flatMap (p.performed root)).filterMap Event.executed? = actions := by
  induction actions with
  | nil => rfl
  | cons a rest ih => simp [performed, begun, List.filterMap_cons, Event.executed?, ih]

theorem executeFrom_append (earlier : List Action) {done : List Action} (rest : List Action)
    (carriesOut : ∀ before a after, done = before ++ a :: after →
      executor (earlier ++ before) a = .ok ()) :
    p.executeFrom root executor earlier (done ++ rest) =
      (done.flatMap (p.performed root) ++ (p.executeFrom root executor (earlier ++ done) rest).1,
        (p.executeFrom root executor (earlier ++ done) rest).2) := by
  induction done generalizing earlier with
  | nil => simp
  | cons a done ih =>
    have first := carriesOut [] a done rfl
    rw [List.append_nil] at first
    have others := ih (earlier ++ [a]) fun before b after cut => by
      rw [List.append_assoc]
      exact carriesOut (a :: before) b after (by rw [cut, List.cons_append])
    rw [List.append_assoc, List.singleton_append] at others
    rw [List.cons_append, executeFrom, first]
    simp [others, performed, begun]

/-- All steps are carried out. -/
theorem execute_of_carriesOut (h : executor.CarriesOut p.steps) :
    p.execute root executor = (p.steps.flatMap (p.performed root), .ok ()) := by
  have all := p.executeFrom_append root [] [] h
  simpa [execute, executeFrom] using all

/-- The steps before the one that fails are carried out, and it is the last one that is begun. -/
theorem execute_of_failsAt {earlier : List Action} {a : Action} {causes : List String}
    (h : executor.FailsAt p.steps earlier a causes) : p.execute root executor =
      (earlier.flatMap (p.performed root) ++ p.begun root a,
        .error ⟨.actionFailed earlier.length (p.text a), [], causes⟩) := by
  obtain ⟨later, cut⟩ := h.next
  rw [execute, cut, p.executeFrom_append root [] (a :: later) h.carriesOut]
  simp [executeFrom, h.failure, begun]

end Plan

/-! ### Commits -/

namespace Session

open Command

variable {s : Session} (executor : Executor)

theorem commit_of_readOnly (readOnly : s.environment.readOnly = true) :
    s.commit executor = ⟨[], .error ↑InputFault.readOnly, s⟩ := if_pos readOnly

/-- Without a plan nothing is carried out. -/
theorem commit_of_no_plan (may : s.environment.readOnly = false)
    (none : ∀ p, Plan.between s.probed s.staging ≠ .ok p) :
    (s.commit executor).events = [] ∧ ∃ f, (s.commit executor).result = .error f := by
  cases hp : calculate s with
  | ok p s' => exact absurd (calculate_eq_ok.1 hp).1 (none p)
  | error f s' => simp [commit, may, hp]

theorem carryOut_spec (s : Session) (p : Plan) :
    (s.carryOut p executor).events = (p.execute s.environment.targetMode.root executor).1 ∧
    (s.carryOut p executor).result = (p.execute s.environment.targetMode.root executor).2 := by
  unfold carryOut
  rcases p.execute s.environment.targetMode.root executor with ⟨events, _ | _⟩
  · exact ⟨rfl, rfl⟩
  · exact ⟨rfl, rfl⟩

/-- With a plan, its steps are carried out. -/
theorem commit_of_plan (may : s.environment.readOnly = false) {p : Plan}
    (hp : Plan.between s.probed s.staging = .ok p) :
    (s.commit executor).events = (p.execute s.environment.targetMode.root executor).1 ∧
    (s.commit executor).result = (p.execute s.environment.targetMode.root executor).2 := by
  have planned := calculate_eq_ok.2 ⟨hp, rfl⟩
  have commit_eq : s.commit executor =
      (s.write (Plan.records s.probed s.staging)).carryOut p executor := by
    simp [commit, may, planned]
  rw [commit_eq]
  exact carryOut_spec executor _ p

/-- Nothing was called, and nothing changed. -/
structure Refused (s : Session) (c : Commit) : Prop where
  events : c.events = []
  failed : ∃ f, c.result = .error f
  quiet : Quiet s c.session

/-- All steps of the plan were carried out, and `staging` was taken for real. -/
structure Succeeded (s : Session) (p : Plan) (c : Commit) : Prop where
  result : c.result = .ok ()
  events : c.events = (p.actions.filter fun a => !a.isNop).flatMap
    (p.performed s.environment.targetMode.root)
  /-- The actions that do something were carried out in the order of the plan. -/
  ordered : c.events.filterMap Event.executed? = p.actions.filter fun a => !a.isNop
  /-- Each action that does something was carried out once. -/
  executed : (c.events.filterMap Event.executed?).Perm (p.graph.actions.filter fun a => !a.isNop)
  quiet : Quiet { s with probed := s.staging } c.session
  /-- A new plan has no action. -/
  settled : ∃ q s', calculate c.session = .ok q s' ∧ q.isEmpty = true ∧ q.actions = []

/-- The first steps of the plan were carried out, the next one failed, and `probed` stayed. -/
structure Stopped (s : Session) (p : Plan) (earlier : List Action) (a : Action)
    (causes : List String) (c : Commit) : Prop where
  result : c.result = .error ⟨.actionFailed earlier.length (p.text a), [], causes⟩
  events : c.events = earlier.flatMap (p.performed s.environment.targetMode.root) ++
    p.begun s.environment.targetMode.root a
  quiet : Quiet s c.session

theorem commit_of_refused (reason : s.environment.readOnly = true ∨ s.probed.check ≠ .ok () ∨
    s.staging.check ≠ .ok ()) : Refused s (s.commit executor) := by
  obtain ⟨events, f, failed⟩ : (s.commit executor).events = [] ∧
      ∃ f, (s.commit executor).result = .error f := by
    cases may : s.environment.readOnly with
    | true => exact commit_of_readOnly executor may ▸ ⟨rfl, _, rfl⟩
    | false =>
      refine commit_of_no_plan executor may fun p hp => ?_
      obtain ⟨_, _, probed, staging⟩ := Plan.of_between hp
      simp [may, probed, staging] at reason
  exact ⟨events, ⟨f, failed⟩, (commit_spec s executor).1 f failed⟩

theorem commit_of_carriesOut {executor : Executor} (may : s.environment.readOnly = false) {p : Plan}
    (hp : Plan.between s.probed s.staging = .ok p) (complete : p.actions.Perm p.graph.actions)
    (carriesOut : executor.CarriesOut p.steps) : Succeeded s p (s.commit executor) := by
  obtain ⟨events, result⟩ := commit_of_plan executor may hp
  rw [p.execute_of_carriesOut _ carriesOut] at events result
  obtain ⟨valid, quiet⟩ := (commit_spec s executor).2 result
  have ordered : (s.commit executor).events.filterMap Event.executed? = p.steps := by
    rw [events, p.executed_performed]
  refine ⟨result, events, ordered, ?_, quiet, ?_⟩
  · rw [ordered]
    exact complete.filter _
  · obtain ⟨q, hq, none, empty⟩ := Plan.between_self valid
    refine ⟨q, _, calculate_eq_ok.2 ⟨?_, rfl⟩, by rw [Plan.isEmpty, none]; rfl, empty⟩
    rw [quiet.probed, quiet.staging]
    exact hq

theorem commit_of_failsAt {executor : Executor} (may : s.environment.readOnly = false) {p : Plan}
    (hp : Plan.between s.probed s.staging = .ok p) {earlier : List Action} {a : Action}
    {causes : List String} (failsAt : executor.FailsAt p.steps earlier a causes) :
    Stopped s p earlier a causes (s.commit executor) := by
  obtain ⟨events, result⟩ := commit_of_plan executor may hp
  rw [p.execute_of_failsAt _ failsAt] at events result
  exact ⟨result, events, (commit_spec s executor).1 _ result⟩

/-- A commit is refused before anything is called, or it carries out the actions of the plan that do
something, in the order of the plan, up to the first one at which the executor fails. It fails
exactly if there is such an action. -/
theorem commit_executes_prefix (s : Session) (executor : Executor) :
    (s.environment.readOnly = true ∨ s.probed.check ≠ .ok () ∨ s.staging.check ≠ .ok ()) ∧
      Refused s (s.commit executor) ∨
    s.environment.readOnly = false ∧ ∃ p, Plan.between s.probed s.staging = .ok p ∧
      ((∃ f, (s.commit executor).result = .error f) ↔
        ∃ earlier a causes,
          executor.FailsAt (p.actions.filter fun a => !a.isNop) earlier a causes) ∧
      (executor.CarriesOut (p.actions.filter fun a => !a.isNop) ∧
          Succeeded s p (s.commit executor) ∨
        ∃ earlier a causes,
          executor.FailsAt (p.actions.filter fun a => !a.isNop) earlier a causes ∧
          Stopped s p earlier a causes (s.commit executor)) := by
  by_cases reason : s.environment.readOnly = true ∨ s.probed.check ≠ .ok () ∨
      s.staging.check ≠ .ok ()
  · exact .inl ⟨reason, commit_of_refused executor reason⟩
  · simp only [not_or, Bool.not_eq_true, not_not] at reason
    obtain ⟨may, probed, staging⟩ := reason
    obtain ⟨p, setting, replaced, hp, _, _, realizes⟩ := Plan.between_spec probed staging
    refine .inr ⟨may, p, hp, ?_⟩
    rcases executor.carriesOut_or_failsAt p.steps with carriesOut | ⟨earlier, a, causes, failsAt⟩
    · have succeeded := commit_of_carriesOut may hp realizes.actions_perm carriesOut
      refine ⟨iff_of_false ?_ ?_, .inl ⟨carriesOut, succeeded⟩⟩
      · rintro ⟨f, failed⟩
        cases succeeded.result.symm.trans failed
      · rintro ⟨earlier, a, causes, failsAt⟩
        exact failsAt.not_carriesOut carriesOut
    · have stopped := commit_of_failsAt may hp failsAt
      exact ⟨iff_of_true ⟨_, stopped.result⟩ ⟨earlier, a, causes, failsAt⟩,
        .inr ⟨earlier, a, causes, failsAt, stopped⟩⟩

end Session

end StoragePlan
