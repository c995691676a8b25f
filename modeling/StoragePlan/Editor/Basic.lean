import StoragePlan.Devicegraph.Check
import StoragePlan.Log.Fanout

/-!
# Editing a devicegraph

An edit works on a devicegraph, on the supply of fresh sids and on the log. It keeps what it did
when it fails, so that an edit leaves everything alone on failure only if it checks first and acts
after; all edits here are written that way.

This module has the steps that all edits share: adding a device, joining it to its parent, and
removing a device with everything on it.
-/

namespace StoragePlan

/-- The source of sids for new devices. -/
structure SidSupply where
  /-- The sid of the next device. -/
  next : Sid := 42
  deriving DecidableEq, Repr

namespace SidSupply

/-- The supply after its next sid was handed out; after the last one it starts again from 0. -/
def advance (s : SidSupply) : SidSupply := ⟨if s.next < maxWord then s.next + 1 else 0⟩

/-- The supply after the sid was used elsewhere: it will not be handed out, unless it is the last
one. -/
def reserve (s : SidSupply) (sid : Sid) : SidSupply := ⟨max s.next (min (sid + 1) maxWord)⟩

end SidSupply

/-- What an edit works on. -/
structure Editor where
  /-- The devicegraph being edited. -/
  graph : Devicegraph := {}
  /-- The sids for new devices, shared by all devicegraphs of a session. -/
  supply : SidSupply := {}
  /-- The log of the session. -/
  log : Log := #[]

/-- A step that reads and changes a state and may fail; what it changed before it failed stays
changed. -/
abbrev Step (σ : Type) := EStateM Failure σ

/-- A step on an editor. -/
abbrev Edit := Step Editor

/-- A step that fails otherwise. -/
def Step.mapFailure {σ α : Type} (change : Failure → Failure) (step : Step σ α) : Step σ α :=
  fun s =>
    match step s with
    | .ok a s => .ok a s
    | .error f s => .error (change f) s

/-- A step that adds to its failure what was being done. -/
def Step.within {σ α : Type} (text : String) (step : Step σ α) : Step σ α :=
  step.mapFailure (·.within text)

namespace Devicegraph

/-- What checking the devicegraph writes to the log. -/
def checkRecords (g : Devicegraph) : List Record :=
  ⟨.debug, s!"Checking devicegraph with {g.numDevices} devices"⟩ ::
    match g.check with
    | .ok () => g.labelWarnings.map (Record.mk .warn)
    | .error _ => []

/-- What copying the devicegraph writes to the log. -/
def copyRecords (g : Devicegraph) : List Record :=
  [⟨.trace, s!"Copying devicegraph with {g.numDevices} devices"⟩]

/-- The devices that go when a device is removed: the device, for an extended partition also its
logical ones, and everything on them. -/
def removal (g : Devicegraph) (sid : Sid) : Except Failure (List Sid) := do
  let logicals ← if (← g.find sid).kind = .partition then g.logicalPartitionsOf sid else pure []
  let all ← (sid :: logicals).mapM fun root => g.descendants root true
  return SidList.ofList all.flatten

end Devicegraph

namespace Edit

/-- Asks the devicegraph. -/
def ask {α : Type} (question : Devicegraph → Except Failure α) : Edit α := fun s =>
  match question s.graph with
  | .ok a => .ok a s
  | .error f => .error f s

/-- Changes the devicegraph. -/
def change (f : Devicegraph → Devicegraph) : Edit Unit :=
  modify fun s => { s with graph := f s.graph }

/-- Writes to the log. -/
def log (level : Level) (message : String) : Edit Unit :=
  modify fun s => { s with log := s.log.push ⟨level, message⟩ }

/-- Checks the devicegraph. -/
def check : Edit Unit := do
  modify fun s => { s with log := s.log.write s.graph.checkRecords }
  ask Devicegraph.check

/-- Adds a device with a fresh sid. -/
def addDevice (attributes : Attributes) : Edit Sid := do
  let sid := (← get).supply.next
  let d : Device := { sid, attributes }
  modify fun s => { s with supply := s.supply.advance }
  log .trace s!"Adding {d.description}"
  change (·.addDevice d)
  return sid

/-- Adds a holder between two devices, which may not be joined yet. -/
def addHolder (source target : Sid) (kind : HolderKind) : Edit Unit := do
  let _ ← ask (·.find source)
  let d ← ask (·.find target)
  if ((← get).graph.findHolder source target).toOption.isSome then
    throw ↑(TopologyFault.invalidParentCount target d.kind 2 (.exactly 1))
  log .trace s!"Adding {kind.name} holder from {source} to {target}"
  change (·.addEdge source target kind)

/-- Removes a device that nothing is done about. -/
def drop (sid : Sid) : Edit Unit := do
  let d ← ask (·.find sid)
  change (·.eraseDevice sid)
  log .trace s!"Removed {d.description}"

/-- Removes a device with everything on it, and an extended partition with its logical ones; tells
how many devices are gone. -/
def remove (sid : Sid) : Edit Nat := do
  let sids ← ask (·.removal sid)
  sids.reverse.forM drop
  log .debug s!"Removed {sids.length} device(s) starting at {sid}"
  return sids.length

/-- Removes all devices and holders. -/
def clear : Edit Unit := change fun _ => .empty

/-- Adds a device with a fresh sid on a parent that has room for it. -/
def addChild (parent : Sid) (attributes : Attributes) : Edit Sid := do
  ask (·.checkPlacement parent attributes.kind)
  let sid ← addDevice attributes
  try
    addHolder parent sid attributes.kind.parentHolderKind
  catch f =>
    let _ ← remove sid
    throw f
  return sid

/-- The description of a device, for the log. -/
def describe (sid : Sid) : Edit String := do return (← ask (·.find sid)).description

end Edit

end StoragePlan
