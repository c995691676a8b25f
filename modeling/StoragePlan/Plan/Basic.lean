import StoragePlan.Devicegraph.Check
import StoragePlan.Editor.Basic
import StoragePlan.Plan.ActionText
import StoragePlan.Plan.Actiongraph
import StoragePlan.Plan.Precedence
import StoragePlan.Text

/-!
# Plans

A plan leads from one devicegraph to another: actions in an order in which they can be carried out.
`Plan.between` makes one for any two devicegraphs that pass their checks, and `Plan.records` is what
it writes to the log meanwhile.
-/

namespace StoragePlan

/-- The way from one devicegraph to another. -/
structure Plan where
  /-- The devicegraph before. -/
  lhs : Devicegraph
  /-- The devicegraph after. -/
  rhs : Devicegraph
  /-- The actions and what has to come before what. -/
  graph : Actiongraph
  /-- The places of the actions in the order they are carried out. -/
  order : List Nat
  deriving DecidableEq, Repr

namespace Plan

/-- The actions that turn one devicegraph into the other. -/
def actiongraph (lhs rhs : Devicegraph) : Except Failure Actiongraph := do
  let setting : Setting := { lhs, rhs, chains := ← chains lhs rhs }
  return ⟨setting.actions, ← setting.dependencies⟩

/-- The plan that turns one devicegraph into the other. -/
def between (lhs rhs : Devicegraph) : Except Failure Plan := do
  within "Baseline devicegraph is invalid" lhs.check
  within "Staged devicegraph is invalid" rhs.check
  let graph ← actiongraph lhs rhs
  return { lhs, rhs, graph, order := ← graph.order }

/-- All actions in order. -/
def actions (p : Plan) : List Action := p.order.filterMap fun i => p.graph.actions[i]?

/-- The number of actions. -/
def numActions (p : Plan) : Nat := p.graph.actions.length

/-- Whether there is no action, not even one that does nothing. -/
def isEmpty (p : Plan) : Bool := p.graph.actions.isEmpty

/-- The actions that do something, in order. -/
def steps (p : Plan) : List Action := p.actions.filter fun a => !a.isNop

/-- The line for an action of the plan. -/
def text (p : Plan) (a : Action) : String := a.text p.lhs p.rhs

/-- The lines for the actions that do something. -/
def stepTexts (p : Plan) : List String := p.steps.map p.text

/-! ### The log -/

/-- What is logged about the devices of the plan. -/
def deviceRecords (lhs rhs : Devicegraph) : List Record :=
  match hindered lhs rhs, replaced lhs rhs with
  | .ok hindered, .ok replaced =>
    let replacing := hindered.map fun (d, o) => s!"Replacing {d.description}: {o.text}"
    let deleting := (deleted lhs rhs replaced).map fun d => s!"Deleting {d.description}"
    let creating := (created lhs rhs replaced).map fun d => s!"Creating {d.description}"
    (replacing ++ deleting ++ creating).map (Record.mk .trace)
  | _, _ => []

/-- What is logged about the dependencies of the plan. -/
def ruleRecords : List Record :=
  ["Adding creation and deletion dependencies", "Adding space dependencies",
    "Adding resize dependencies", "Adding extended partition dependencies",
    "Adding mount dependencies"].map (Record.mk .trace)

/-- What is logged about the order of the actions. -/
def orderRecords (lhs rhs : Devicegraph) (g : Actiongraph) : List Record :=
  ⟨.trace, s!"Sorting {g.actions.length} actions"⟩ ::
    match g.order with
    | .error _ => []
    | .ok _ =>
      lhs.copyRecords ++ rhs.copyRecords ++
        [⟨.debug, s!"Actiongraph has {g.actions.length} actions and " ++
          s!"{g.dependencies.length} dependencies"⟩]

/-- What making the plan writes to the log. -/
def records (lhs rhs : Devicegraph) : List Record :=
  ⟨.debug, "Calculating actiongraph"⟩ :: lhs.checkRecords ++
    match lhs.check with
    | .error _ => []
    | .ok () => rhs.checkRecords ++
      match rhs.check with
      | .error _ => []
      | .ok () => deviceRecords lhs rhs ++
        match actiongraph lhs rhs with
        | .error _ => []
        | .ok g => ruleRecords ++ orderRecords lhs rhs g

/-! ### Drawing -/

/-- An action in a drawing. -/
def nodeLine (p : Plan) (place : Nat) (a : Action) : String :=
  s!"a{place} [label=\"" ++ Dot.escape (p.text a) ++
    s!"\", color=\"{a.kind.actionClass.color}\", fillcolor=\"#ffffff\"];"

/-- A dependency in a drawing. -/
def edgeLine (d : Nat × Nat) : String := s!"a{d.1} -> a{d.2};"

/-- The plan as a drawing. -/
def dot (p : Plan) : String :=
  Dot.graph "actiongraph"
    ("node [shape=rectangle, style=filled, fontname=\"Arial\"];" ::
      p.graph.actions.zipIdx.map (fun (a, place) => p.nodeLine place a) ++
      p.graph.dependencies.map edgeLine)

end Plan

end StoragePlan
