import StoragePlan.Devicegraph.Navigation

/-!
# Cycles of holders

A device that sits on itself, directly or through others, makes a devicegraph unusable. `acyclic`
decides whether there is one. `cycleSid` names a device for the message: the one that two sweeps
meet, first depth-first along the holders to order the devices, then against the holders in the
reverse of that order.
-/

namespace StoragePlan.Devicegraph

/-- Whether a device leads back to itself. -/
def onCycle (g : Devicegraph) (n : Node) : Bool :=
  (g.explore .down [] [n.ref]).contains n.device.sid

/-- Whether no device sits on itself, directly or not. -/
def acyclic (g : Devicegraph) : Bool := !g.nodes.any g.onCycle

/-- The state of the sweep along the holders. -/
structure Sweep where
  /-- The devices met. -/
  seen : List Ref := []
  /-- The devices done with, latest first. -/
  finished : List Ref := []

/-- Sweeps along the holders from the devices on a stack; stops at a device that sits on itself. The
first argument bounds the number of steps. -/
def sweepDown (g : Devicegraph) : Nat → Sweep → List Ref → Except Ref Sweep
  | 0, s, _ => .ok s
  | _, s, [] => .ok s
  | steps + 1, s, r :: stack =>
    if r ∈ s.seen then
      let finished := if r ∈ s.finished then s.finished else r :: s.finished
      g.sweepDown steps { s with finished } stack
    else
      let targets := (g.next .down r).map Node.ref
      if r ∈ targets then .error r
      else
        let seen := r :: s.seen
        let fresh := targets.filter fun t => t ∉ seen
        g.sweepDown steps { s with seen } (fresh.reverse ++ r :: stack)

/-- Sweeps against the holders; stops at the second new device. -/
def sweepUp (g : Devicegraph) : Nat → List Ref → Bool → List Ref → Except Ref (List Ref)
  | 0, seen, _, _ => .ok seen
  | _, seen, _, [] => .ok seen
  | steps + 1, seen, found, r :: stack =>
    if r ∈ seen then g.sweepUp steps seen found stack
    else
      let seen := r :: seen
      let fresh := ((g.next .up r).map Node.ref).filter fun s => s ∉ seen
      if found then .error r else g.sweepUp steps seen true (fresh.reverse ++ stack)

/-- More steps than a sweep can take: each device is met and left once, and each holder puts one
device on the stack. -/
def sweepSteps (g : Devicegraph) : Nat := 2 * g.nodes.length + g.edges.length + 2

/-- Sweeps from every device, in the order they came, and then back. -/
def sweep (g : Devicegraph) : Except Ref Unit := do
  let s ← (g.nodes.reverse.map Node.ref).foldlM (fun s r =>
    if r ∈ s.seen then .ok s else g.sweepDown g.sweepSteps s [r]) {}
  let _ ← s.finished.foldlM (fun seen r => g.sweepUp g.sweepSteps seen false [r]) []
  return ()

/-- The sid of the device that the sweeps stop at. -/
def cycleSid (g : Devicegraph) : Sid :=
  match g.sweep with
  | .error r => r.sid
  | .ok () => 0

end StoragePlan.Devicegraph
