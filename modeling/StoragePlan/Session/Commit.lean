import StoragePlan.Plan.Commit
import StoragePlan.Session.Storing

/-!
# Planning and committing in a session

A commit carries out the plan from `probed` to `staging`. If all steps succeed, `staging` has become
real and is the new `probed`; else `probed` stays as it was.
-/

namespace StoragePlan

namespace Command

/-- The plan between two devicegraphs. -/
def planBetween (lhs rhs : Devicegraph) : Command Plan := do
  write (Plan.records lhs rhs)
  lift (Plan.between lhs rhs)

/-- The plan between the devicegraphs with two names. -/
def plan (lhs rhs : String) : Command Plan := do
  let before ← graph lhs
  let after ← graph rhs
  planBetween before after

/-- The plan that makes the system as it should be. -/
def calculate : Command Plan := do
  let s ← get
  (planBetween s.probed s.staging).within
    "Failed to calculate actions from probed to staging devicegraph"

/-- Writes the drawing of a plan to a file. -/
def drawPlan (lhs rhs path : String) : Command Unit := do
  let p ← plan lhs rhs
  writeFile (.saveActiongraph path) path p.dot

end Command

/-- What came of a commit. -/
structure Commit where
  /-- What happened, in order. -/
  events : List Event
  /-- Whether it succeeded. -/
  result : Except Failure Unit
  /-- The session afterwards. -/
  session : Session

namespace Session

/-- Carries out a plan and, if it succeeds, takes its outcome for real. -/
def carryOut (s : Session) (p : Plan) (executor : Executor) : Commit :=
  let (events, result) := p.execute s.environment.targetMode.root executor
  let s := s.write (p.executionRecords events)
  match result with
  | .error f => ⟨events, .error f, s⟩
  | .ok () =>
    let s := s.write (p.rhs.copyRecords ++ [⟨.info, "Commit finished"⟩])
    ⟨events, .ok (), { s with probed := p.rhs }⟩

/-- Commits `staging`, unless the session may not change the system. -/
def commit (s : Session) (executor : Executor) : Commit :=
  if s.environment.readOnly then ⟨[], .error ↑InputFault.readOnly, s⟩
  else
    match Command.calculate s with
    | .error f s => ⟨[], .error f, s⟩
    | .ok p s => s.carryOut p executor

end Session

end StoragePlan
