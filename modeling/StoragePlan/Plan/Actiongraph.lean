import StoragePlan.Failure
import StoragePlan.Plan.Action

/-!
# Actiongraphs and their order

An actiongraph holds actions and dependencies between them. Actions are known by their places in the
list; a dependency `(i, j)` says that action `i` comes before action `j`.

`schedule` takes, as long as it can, the first waiting action that no other waiting action has to
come before. With the actions waiting by sid and place, the result is the order in which each action
is the least that may come next (`Actiongraph.order`). If the actions wait for each other, the
failure names the devices of the strongly connected components that are cycles: those of several
actions, and those whose one action depends on itself (`cycleSids`). How the components are found is
left open in `orderBy`; `components` is one way to do it.
-/

namespace StoragePlan

/-- Actions with the dependencies between them. -/
structure Actiongraph where
  /-- The actions. -/
  actions : List Action
  /-- Which action comes before which, by their places. -/
  dependencies : List (Nat × Nat)
  deriving DecidableEq, Repr

namespace Actiongraph

/-- Puts the places of a list in an order that follows the dependencies among them, or tells which
places are left when none can come next. -/
def schedule (dependencies : List (Nat × Nat)) (waiting : List Nat) :
    Except (List Nat) (List Nat) :=
  match _ : waiting.find? fun i => dependencies.all fun d => d.2 != i with
  | none => if waiting.isEmpty then .ok [] else .error waiting
  | some i => do
    let rest ← schedule (dependencies.filter fun d => d.1 != i) (waiting.erase i)
    return i :: rest
termination_by waiting.length
decreasing_by
  have member := List.mem_of_find?_eq_some ‹_›
  have := List.length_pos_of_mem member
  rw [List.length_erase_of_mem member]
  omega

/-- Places go by the sids of their actions, then as they are. -/
def placeBefore (a b : Action × Nat) : Bool :=
  a.1.sid < b.1.sid || (a.1.sid == b.1.sid && a.2 ≤ b.2)

/-- All places, by the sids of their actions. -/
def places (g : Actiongraph) : List Nat := (g.actions.zipIdx.mergeSort placeBefore).map Prod.snd

/-- Adds the places that places of the list come directly before. -/
def step (dependencies : List (Nat × Nat)) (found : List Nat) : List Nat :=
  found ++ (dependencies.filter fun d => d.1 ∈ found && d.2 ∉ found).map Prod.snd

/-- The places that places of the list come before, and the list. Each round finds a new place or
none is left, so that there are no more rounds than dependencies. -/
def later (dependencies : List (Nat × Nat)) (found : List Nat) : List Nat :=
  (List.range dependencies.length).foldl (fun found _ => step dependencies found) found

/-- Whether two places come before each other, or are the same. -/
def connected (g : Actiongraph) (i j : Nat) : Bool :=
  (later g.dependencies [i]).contains j && (later g.dependencies [j]).contains i

/-- The strongly connected components: the places that come before each other are in one list. Each
list stands where its first place is. -/
def components (g : Actiongraph) : List (List Nat) :=
  let places := List.range g.actions.length
  let first := places.filter fun i => places.find? (g.connected i) == some i
  first.map fun i => places.filter (g.connected i)

/-- Whether a strongly connected component is a cycle: it has several places, or one that depends on
itself. -/
def isCycle (g : Actiongraph) (component : List Nat) : Bool :=
  component.length > 1 || component.head?.any fun i => g.dependencies.contains (i, i)

/-- The devices of the actions on cycles, from the strongly connected components. -/
def cycleSids (g : Actiongraph) (components : List (List Nat)) : List Sid :=
  SidList.ofList ((components.filter g.isCycle).flatten.filterMap fun i =>
    (g.actions[i]?).map Action.sid)

/-- The places of all actions in the order of the plan. The strongly connected components, as `scc`
finds them, are asked for when there is no order. -/
def orderBy (scc : Actiongraph → List (List Nat)) (g : Actiongraph) : Except Failure (List Nat) :=
  match schedule g.dependencies g.places with
  | .ok order => .ok order
  | .error _ => .error ↑(Fault.unresolvableDependency (g.cycleSids (scc g)))

/-- The places of all actions in the order of the plan. -/
def order (g : Actiongraph) : Except Failure (List Nat) := g.orderBy components

end Actiongraph

end StoragePlan
