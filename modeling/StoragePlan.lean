import StoragePlan.Devicegraph.Gaps
import StoragePlan.Devicegraph.Render
import StoragePlan.Editor.Change
import StoragePlan.Editor.Create
import StoragePlan.Log.Fanout
import StoragePlan.Log.Startup
import StoragePlan.Session.Commit
import StoragePlan.Session.Probe
import StoragePlan.Failure.Form
import StoragePlan.Proofs.Attempts
import StoragePlan.Proofs.Holding
import StoragePlan.Proofs.Navigation
import StoragePlan.Proofs.Replacement
import StoragePlan.Proofs.Chains
import StoragePlan.Proofs.Partitioning
import StoragePlan.Proofs.Precedence
import StoragePlan.Proofs.Schedule
import StoragePlan.Proofs.Stages
import StoragePlan.Proofs.Acyclicity
import StoragePlan.Proofs.Replay
import StoragePlan.Proofs.Timeline
import StoragePlan.Proofs.Standing
import StoragePlan.Proofs.Fidelity
import StoragePlan.Proofs.Hierarchy
import StoragePlan.Proofs.Space
import StoragePlan.Proofs.Capacity
import StoragePlan.Proofs.Layout
import StoragePlan.Proofs.Enclosure
import StoragePlan.Proofs.Lawful
import StoragePlan.Proofs.Changing
import StoragePlan.Proofs.Growing
import StoragePlan.Proofs.Shrinking
import StoragePlan.Proofs.Editing
import StoragePlan.Proofs.Operations
import StoragePlan.Proofs.Documents
import StoragePlan.Proofs.Sectors
import StoragePlan.Proofs.Topology
import StoragePlan.Proofs.Commands
import StoragePlan.Proofs.Outcomes
import StoragePlan.Proofs.Sessions
import StoragePlan.Proofs.Loading
import StoragePlan.Proofs.Allocation
import StoragePlan.Proofs.Correlation
import StoragePlan.Proofs.Committing
import StoragePlan.Proofs.Baseline
import StoragePlan.Proofs.Mounting
import StoragePlan.Proofs.Rearranging
import StoragePlan.Proofs.Scalars
import StoragePlan.Proofs.Fields
import StoragePlan.Proofs.Persistence
import StoragePlan.Proofs.Components
import StoragePlan.Proofs.Counting
import StoragePlan.Proofs.Sorting
import StoragePlan.Proofs.LeastReplacement
import StoragePlan.Proofs.Unchanged
import StoragePlan.Proofs.MountOrder
import StoragePlan.Proofs.Gaps
import StoragePlan.Proofs.Removal
import StoragePlan.Proofs.Atomicity
import StoragePlan.Proofs.Relevance
import StoragePlan.Proofs.DiskSpace
import StoragePlan.Proofs.Reachability
import StoragePlan.Proofs.Wording
import StoragePlan.Proofs.Bytes
import StoragePlan.Proofs.DotReading
import StoragePlan.Proofs.Sketches
import StoragePlan.Proofs.Drawings
