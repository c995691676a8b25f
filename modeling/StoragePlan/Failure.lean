import StoragePlan.Region
import StoragePlan.Vocabulary.Device
import StoragePlan.Vocabulary.Partition

/-!
# What can go wrong

A `Fault` is the cause of a failure, with the values its message needs. A `Failure` adds what was
being done (`context`, innermost first) and the texts of a failure from outside that led to it
(`causes`, outermost first; none when the fault was found here).

`Failure.message` is the text of the fault alone, `Failure.report` the text with context and causes,
and `Failure.chain` the texts under a heading, as another failure lists its causes.
-/

namespace StoragePlan

/-- The number that identifies a device, across all devicegraphs of a session. -/
abbrev Sid := Nat

/-- A devicegraph that breaks the rules on where devices may be and what they may hold. -/
inductive TopologyFault where
  /-- A device sits on a device of a kind it cannot sit on. -/
  | invalidParentKind (child : DeviceKind) (parent : Sid) (parentKind : DeviceKind)
      (validParents : KindSet)
  /-- A device sits on too few or too many devices. -/
  | invalidParentCount (sid : Sid) (kind : DeviceKind) (count : Nat) (expected : Cardinality)
  /-- Too many devices sit on a device. -/
  | tooManyChildren (parent : Sid) (parentKind : DeviceKind) (count : Nat) (expected : Cardinality)
  /-- A holder is not of the kind its target needs. -/
  | invalidHolderKind (source target : Sid) (kind expected : HolderKind)
  /-- Two devices of a document have one sid. -/
  | duplicateSid (sid : Sid)
  /-- Two block devices have one name. -/
  | duplicateName (name : String)
  /-- The device sits on itself, directly or not. -/
  | cycle (sid : Sid)
  /-- A disk cannot have sectors of no bytes. -/
  | invalidSectorSize (name : String)
  /-- A partition without sectors. -/
  | emptyRegion (name : String)
  /-- The end or the size of a region is not a 64-bit number. -/
  | regionOverflow (region : Region)
  /-- A partition and its disk have sectors of different sizes. -/
  | sectorSizeMismatch (name : String) (regionSectorSize diskSectorSize : Nat)
  /-- A partition reaches beyond its disk. -/
  | regionOutsideParent (name : String) (region extent : Region)
  /-- Two partitions that compete for space overlap. -/
  | regionOverlap (name : String) (region : Region) (otherName : String) (otherRegion : Region)
  /-- The partition table cannot hold partitions of the type. -/
  | unsupportedPartitionType (name : String) (type : PartitionType) (table : PtType)
  /-- The partition table is full. -/
  | tooManyPrimaryPartitions (table : PtType) (max : Nat)
  /-- A partition table holds one extended partition at most. -/
  | duplicateExtendedPartition (name existing : String)
  /-- There is no extended partition for a logical one. -/
  | missingExtendedPartition (name : String)
  /-- A logical partition reaches beyond the extended one. -/
  | logicalOutsideExtended (name : String) (region extended : Region)
  deriving DecidableEq, Repr

/-- A reference to something that does not exist. -/
inductive MissingFault where
  /-- No device has the sid. -/
  | device (sid : Sid)
  /-- No block device has the name. -/
  | deviceName (name : String)
  /-- No holder joins the devices. -/
  | holder (source target : Sid)
  /-- No devicegraph has the name. -/
  | devicegraph (name : String)
  deriving DecidableEq, Repr

/-- Input that cannot be used. -/
inductive InputFault where
  /-- The device is not of the kind that the operation is for. -/
  | wrongDeviceKind (sid : Sid) (expected actual : DeviceKind)
  | loadDevicegraph (path : String)
  | parseDevicegraph
  | saveDevicegraph (path : String)
  | saveActiongraph (path : String)
  | serializeDevicegraph
  | loadConfiguration (path : String)
  | parseConfiguration
  /-- The name is taken. -/
  | devicegraphExists (name : String)
  /-- The session needs the devicegraph. -/
  | reservedDevicegraph (name : String)
  | readOnly
  deriving DecidableEq, Repr

/-- A cause of failure, by category. -/
inductive Fault where
  | topology (fault : TopologyFault)
  | missing (fault : MissingFault)
  | input (fault : InputFault)
  /-- Actions that wait for each other; `sids` are their devices. -/
  | unresolvableDependency (sids : List Sid)
  /-- The prober failed. -/
  | probe
  /-- The prober returned a devicegraph that breaks the rules. -/
  | inconsistentProbe
  /-- The executor failed at an action of a plan. -/
  | actionFailed (index : Nat) (action : String)
  /-- A devicegraph has lost track of its devices. -/
  | internal (text : String)
  | initializeLogger
  deriving DecidableEq, Repr

namespace TopologyFault

/-- The text for the user. -/
def message : TopologyFault → String
  | invalidParentKind child parent parentKind validParents =>
    s!"Device of kind '{child.name}' cannot be placed on device {parent} of kind " ++
      s!"'{parentKind.name}', acceptable parent kinds are: {validParents.text}"
  | invalidParentCount sid kind count expected =>
    s!"Device {sid} of kind '{kind.name}' has {count} parents, but must have {expected.text}"
  | tooManyChildren parent parentKind count expected =>
    s!"Device {parent} of kind '{parentKind.name}' would have {count} children, but must have " ++
      expected.text
  | invalidHolderKind source target kind expected =>
    s!"Holder from {source} to {target} is of kind '{kind.name}', but must be of kind " ++
      s!"'{expected.name}'"
  | duplicateSid sid => s!"Device {sid} is defined more than once"
  | duplicateName name => s!"Block device name '{name}' is used more than once"
  | cycle sid => s!"Devicegraph contains a cycle through device {sid}"
  | invalidSectorSize name => s!"Sector size of device '{name}' must not be zero"
  | emptyRegion name => s!"Partition '{name}' must have a non-empty region"
  | regionOverflow region => s!"Region {region.text} ends beyond the last addressable sector"
  | sectorSizeMismatch name regionSectorSize diskSectorSize =>
    s!"Region of partition '{name}' uses sectors of {regionSectorSize} bytes, but the disk uses " ++
      s!"sectors of {diskSectorSize} bytes"
  | regionOutsideParent name region extent =>
    s!"Region {region.text} of partition '{name}' lies outside of {extent.text}"
  | regionOverlap name region otherName otherRegion =>
    s!"Region {region.text} of partition '{name}' overlaps region {otherRegion.text} of " ++
      s!"partition '{otherName}'"
  | unsupportedPartitionType name type table =>
    s!"Partition '{name}' of type '{type.name}' is not supported on '{table.name}' tables"
  | tooManyPrimaryPartitions table max =>
    s!"Partition table of type '{table.name}' can hold at most {max} primary partitions"
  | duplicateExtendedPartition name existing =>
    s!"Partition '{name}' cannot be extended, '{existing}' is already extended"
  | missingExtendedPartition name => s!"Logical partition '{name}' requires an extended partition"
  | logicalOutsideExtended name region extended =>
    s!"Region {region.text} of logical partition '{name}' lies outside of extended partition " ++
      s!"region {extended.text}"

end TopologyFault

namespace MissingFault

/-- The text for the user. -/
def message : MissingFault → String
  | device sid => s!"Device {sid} not found"
  | deviceName name => s!"Device with name '{name}' not found"
  | holder source target => s!"Holder from {source} to {target} not found"
  | devicegraph name => s!"Devicegraph '{name}' not found"

end MissingFault

namespace InputFault

/-- The text for the user. -/
def message : InputFault → String
  | wrongDeviceKind sid expected actual =>
    s!"Device {sid} is of kind '{actual.name}', not '{expected.name}'"
  | loadDevicegraph path => s!"Failed to read devicegraph from '{path}'"
  | parseDevicegraph => "Failed to parse devicegraph"
  | saveDevicegraph path => s!"Failed to write devicegraph to '{path}'"
  | saveActiongraph path => s!"Failed to write actiongraph to '{path}'"
  | serializeDevicegraph => "Failed to serialize devicegraph"
  | loadConfiguration path => s!"Failed to read configuration from '{path}'"
  | parseConfiguration => "Failed to parse configuration"
  | devicegraphExists name => s!"Devicegraph '{name}' already exists"
  | reservedDevicegraph name => s!"Devicegraph '{name}' is reserved and cannot be removed"
  | readOnly => "Environment is read-only, refusing to commit"

end InputFault

namespace Fault

/-- The text for the user. -/
def message : Fault → String
  | topology fault => fault.message
  | missing fault => fault.message
  | input fault => fault.message
  | unresolvableDependency sids =>
    "Actions of devices " ++ ", ".intercalate (sids.map toString) ++
      " depend on each other in a cycle"
  | probe => "Failed to probe devices"
  | inconsistentProbe => "Probed devicegraph is inconsistent"
  | actionFailed index action => s!"Action {index} '{action}' failed"
  | internal text => s!"Internal error: {text}"
  | initializeLogger => "Failed to initialize logger"

/-- The word for the category of the fault. -/
def category : Fault → String
  | topology _ => "invalid-topology"
  | missing _ => "not-found"
  | input _ => "invalid-input"
  | unresolvableDependency _ => "unresolvable-dependency"
  | probe | inconsistentProbe => "probe"
  | actionFailed _ _ => "commit"
  | internal _ | initializeLogger => "internal"

end Fault

/-- A fault with what was being done and what led to it. -/
structure Failure where
  /-- What went wrong. -/
  fault : Fault
  /-- What was being done, innermost first. -/
  context : List String := []
  /-- The texts of the failure that led to this one, outermost first. -/
  causes : List String := []
  deriving DecidableEq, Repr

instance : Coe TopologyFault Failure := ⟨fun fault => ⟨.topology fault, [], []⟩⟩

instance : Coe MissingFault Failure := ⟨fun fault => ⟨.missing fault, [], []⟩⟩

instance : Coe InputFault Failure := ⟨fun fault => ⟨.input fault, [], []⟩⟩

instance : Coe Fault Failure := ⟨fun fault => ⟨fault, [], []⟩⟩

namespace Failure

/-- The text of the fault. -/
def message (f : Failure) : String := f.fault.message

/-- The failure with one more line on what was being done. -/
def within (f : Failure) (text : String) : Failure := { f with context := f.context ++ [text] }

/-- The texts of the failure under a heading: the heading, the fault and what led to it. -/
def chain (f : Failure) (heading : String) : List String := heading :: f.message :: f.causes

/-- A number right-aligned in five columns. -/
def column (n : Nat) : String :=
  let digits := toString n
  "".pushn ' ' (5 - digits.length) ++ digits

/-- One numbered text to a line; the further lines of a text are indented. -/
def numbered (texts : List String) : String :=
  String.join (texts.zipIdx.map fun (text, i) =>
    s!"{column i}: " ++ "\n       ".intercalate (text.splitOn "\n") ++ "\n")

/-- A titled list of numbered texts, or nothing if there are none. -/
def paragraph (title : String) (texts : List String) : String :=
  if texts.isEmpty then "" else s!"\n\n{title}:\n" ++ numbered texts

/-- The whole failure: the fault, what was being done and what led to it. -/
def report (f : Failure) : String :=
  f.message ++ paragraph "Context" f.context ++ paragraph "Caused by" f.causes

end Failure

/-- The cause of a failure to read a document: it stands for the report on its malformed text. -/
def malformed : String := "<yaml>"

/-- A result that adds a line on what was being done to every failure. -/
def within {α : Type} (text : String) : Except Failure α → Except Failure α
  | .ok a => .ok a
  | .error f => .error (f.within text)

/-- The result of a computation on regions: an overflow is a fault of the topology. -/
def ofRegion {α : Type} : Except Overflow α → Except Failure α
  | .ok a => .ok a
  | .error o => .error ↑(TopologyFault.regionOverflow o.region)

end StoragePlan
