import StoragePlan.Plan.Basic

/-!
# Carrying out a plan

The steps of a plan are carried out in order by an executor, and a caller is told about each step
before and after it. The first step that fails ends the commit.

An executor is given by what it decides: it sees what it has carried out so far and the next
action, and succeeds or fails.
-/

namespace StoragePlan

/-- Carries out an action, after the earlier ones; fails with the texts of what went wrong,
outermost first. -/
abbrev Executor := List Action → Action → Except (List String) Unit

/-- What happens during a commit. -/
inductive Event where
  /-- The caller gets the line for a step. -/
  | message (text : String)
  /-- The caller is told that an action comes next. -/
  | pre (action : Action)
  /-- The executor is called, with the directory that mountpoints are below. -/
  | execute (root text : String) (action : Action)
  /-- The caller is told that an action was carried out. -/
  | post (action : Action)
  deriving DecidableEq, Repr

namespace Plan

/-- Carries out the remaining steps after the earlier ones. -/
def executeFrom (p : Plan) (root : String) (executor : Executor) :
    List Action → List Action → List Event × Except Failure Unit
  | _, [] => ([], .ok ())
  | earlier, a :: rest =>
    let text := p.text a
    let start := [Event.message text, .pre a, .execute root text a]
    match executor earlier a with
    | .error causes => (start, .error ⟨.actionFailed earlier.length text, [], causes⟩)
    | .ok () =>
      let (events, result) := p.executeFrom root executor (earlier ++ [a]) rest
      (start ++ .post a :: events, result)

/-- Carries out the steps of the plan. -/
def execute (p : Plan) (root : String) (executor : Executor) : List Event × Except Failure Unit :=
  p.executeFrom root executor [] p.steps

/-- What carrying out the plan writes to the log: one line for each step that was begun. -/
def executionRecords (p : Plan) (events : List Event) : List Record :=
  let begun := events.filterMap fun
    | .message text => some text
    | _ => none
  [⟨.info, s!"Committing {p.steps.length} steps"⟩,
    ⟨.debug, s!"Committing {p.numActions} actions"⟩] ++
    begun.zipIdx.map fun (text, i) => ⟨.info, s!"Commit step {i}: {text}"⟩

end Plan

end StoragePlan
