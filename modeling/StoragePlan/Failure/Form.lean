import StoragePlan.Failure
import StoragePlan.Region.Form

/-!
# Faults as data

A fault is passed on as a word for what went wrong, with the values its message needs as the
argument of the word. `Fault.toTree` gives that form, and `Fault.ofValue?` reads it for a category
of faults.
-/

namespace StoragePlan

open Yaml

namespace Cardinality

/-- The tree of a cardinality; a missing bound is null. -/
def toTree (c : Cardinality) : Tree :=
  let bound := fun (n : Option Nat) => (n.map Tree.number).getD (.plain "null")
  .record [("min_count", bound c.min?), ("max_count", bound c.max?)]

/-- Reads a bound, which may be null. -/
def bound? : Value → Option (Option Nat) := Value.option? Value.word?

/-- Reads a cardinality: a mapping where a bound may be missing, or a list of both bounds. -/
def ofValue? : Value → Option Cardinality
  | .list [low, high] => do return ⟨← bound? low, ← bound? high⟩
  | v => do
    let fields ← fields? ["min_count", "max_count"] false (← v.entries?)
    return ⟨← optional? "min_count" bound? none fields, ← optional? "max_count" bound? none fields⟩

end Cardinality

/-- Reads a set of device kinds. -/
def KindSet.ofValue? (v : Value) : Option KindSet := do KindSet.ofFlagText? (← v.text?)

namespace TopologyFault

/-- The word and its argument for a broken rule. -/
def toTree : TopologyFault → Tree
  | invalidParentKind child parent parentKind validParents =>
    .variant "invalid-parent-kind" <| .record [("child_kind", .plain child.name),
      ("parent", .number parent), ("parent_kind", .plain parentKind.name),
      ("valid_parents", .ofString validParents.flagText)]
  | invalidParentCount sid kind count expected =>
    .variant "invalid-parent-count" <| .record [("sid", .number sid), ("kind", .plain kind.name),
      ("count", .number count), ("expected", expected.toTree)]
  | tooManyChildren parent parentKind count expected =>
    .variant "too-many-children" <| .record [("parent", .number parent),
      ("parent_kind", .plain parentKind.name), ("child_count", .number count),
      ("expected", expected.toTree)]
  | invalidHolderKind source target kind expected =>
    .variant "invalid-holder-kind" <| .record [("source_sid", .number source),
      ("target_sid", .number target), ("holder_kind", .plain kind.name),
      ("expected", .plain expected.name)]
  | duplicateSid sid => .variant "duplicate-sid" (.number sid)
  | duplicateName name => .variant "duplicate-name" (.ofString name)
  | cycle sid => .variant "cycle" (.number sid)
  | invalidSectorSize name => .variant "invalid-sector-size" (.record [("name", .ofString name)])
  | emptyRegion name => .variant "empty-region" (.record [("name", .ofString name)])
  | regionOverflow region => .variant "region-overflow" (.record [("region", region.toTree)])
  | sectorSizeMismatch name regionSectorSize diskSectorSize =>
    .variant "sector-size-mismatch" <| .record [("name", .ofString name),
      ("region_sector_size", .number regionSectorSize),
      ("disk_sector_size", .number diskSectorSize)]
  | regionOutsideParent name region extent =>
    .variant "region-outside-parent" <| .record [("name", .ofString name),
      ("region", region.toTree), ("extent", extent.toTree)]
  | regionOverlap name region otherName otherRegion =>
    .variant "region-overlap" <| .record [("name", .ofString name), ("region", region.toTree),
      ("other_name", .ofString otherName), ("other_region", otherRegion.toTree)]
  | unsupportedPartitionType name type table =>
    .variant "unsupported-partition-type" <| .record [("name", .ofString name),
      ("partition_type", .plain type.name), ("pt_type", .plain table.name)]
  | tooManyPrimaryPartitions table max =>
    .variant "too-many-primary-partitions" <| .record [("pt_type", .plain table.name),
      ("max", .number max)]
  | duplicateExtendedPartition name existing =>
    .variant "duplicate-extended-partition" <| .record [("name", .ofString name),
      ("existing", .ofString existing)]
  | missingExtendedPartition name =>
    .variant "missing-extended-partition" (.record [("name", .ofString name)])
  | logicalOutsideExtended name region extended =>
    .variant "logical-outside-extended" <| .record [("name", .ofString name),
      ("region", region.toTree), ("extended", extended.toTree)]

/-- Reads the word for a broken rule and its argument. -/
def ofWord? (word : String) (argument : Value) : Option TopologyFault := do
  match word with
  | "duplicate-sid" => return duplicateSid (← argument.word?)
  | "duplicate-name" => return duplicateName (← argument.text?)
  | "cycle" => return cycle (← argument.word?)
  | _ =>
    let fields ← argument.entries?
    match word with
    | "invalid-parent-kind" =>
      return invalidParentKind (← required? "child_kind" Value.named? fields)
        (← required? "parent" Value.word? fields) (← required? "parent_kind" Value.named? fields)
        (← required? "valid_parents" KindSet.ofValue? fields)
    | "invalid-parent-count" =>
      return invalidParentCount (← required? "sid" Value.word? fields)
        (← required? "kind" Value.named? fields) (← required? "count" Value.word? fields)
        (← required? "expected" Cardinality.ofValue? fields)
    | "too-many-children" =>
      return tooManyChildren (← required? "parent" Value.word? fields)
        (← required? "parent_kind" Value.named? fields)
        (← required? "child_count" Value.word? fields)
        (← required? "expected" Cardinality.ofValue? fields)
    | "invalid-holder-kind" =>
      return invalidHolderKind (← required? "source_sid" Value.word? fields)
        (← required? "target_sid" Value.word? fields)
        (← required? "holder_kind" Value.named? fields)
        (← required? "expected" Value.named? fields)
    | "invalid-sector-size" => return invalidSectorSize (← required? "name" Value.text? fields)
    | "empty-region" => return emptyRegion (← required? "name" Value.text? fields)
    | "region-overflow" => return regionOverflow (← required? "region" Region.ofValue? fields)
    | "sector-size-mismatch" =>
      return sectorSizeMismatch (← required? "name" Value.text? fields)
        (← required? "region_sector_size" Value.word? fields)
        (← required? "disk_sector_size" Value.word? fields)
    | "region-outside-parent" =>
      return regionOutsideParent (← required? "name" Value.text? fields)
        (← required? "region" Region.ofValue? fields)
        (← required? "extent" Region.ofValue? fields)
    | "region-overlap" =>
      return regionOverlap (← required? "name" Value.text? fields)
        (← required? "region" Region.ofValue? fields)
        (← required? "other_name" Value.text? fields)
        (← required? "other_region" Region.ofValue? fields)
    | "unsupported-partition-type" =>
      return unsupportedPartitionType (← required? "name" Value.text? fields)
        (← required? "partition_type" Value.named? fields)
        (← required? "pt_type" Value.named? fields)
    | "too-many-primary-partitions" =>
      return tooManyPrimaryPartitions (← required? "pt_type" Value.named? fields)
        (← required? "max" Value.word? fields)
    | "duplicate-extended-partition" =>
      return duplicateExtendedPartition (← required? "name" Value.text? fields)
        (← required? "existing" Value.text? fields)
    | "missing-extended-partition" =>
      return missingExtendedPartition (← required? "name" Value.text? fields)
    | "logical-outside-extended" =>
      return logicalOutsideExtended (← required? "name" Value.text? fields)
        (← required? "region" Region.ofValue? fields)
        (← required? "extended" Region.ofValue? fields)
    | _ => failure

end TopologyFault

namespace MissingFault

/-- The word and its argument for a reference to nothing. -/
def toTree : MissingFault → Tree
  | device sid => .variant "device" (.number sid)
  | deviceName name => .variant "device-name" (.ofString name)
  | holder source target =>
    .variant "holder" (.record [("source_sid", .number source), ("target_sid", .number target)])
  | devicegraph name => .variant "devicegraph" (.ofString name)

/-- Reads the word for a reference to nothing and its argument. -/
def ofWord? (word : String) (argument : Value) : Option MissingFault := do
  match word with
  | "device" => return device (← argument.word?)
  | "device-name" => return deviceName (← argument.text?)
  | "holder" =>
    let fields ← argument.entries?
    return holder (← required? "source_sid" Value.word? fields)
      (← required? "target_sid" Value.word? fields)
  | "devicegraph" => return devicegraph (← argument.text?)
  | _ => failure

end MissingFault

namespace InputFault

/-- The word and its argument for unusable input. -/
def toTree : InputFault → Tree
  | wrongDeviceKind sid expected actual =>
    .variant "wrong-device-kind" <| .record [("sid", .number sid),
      ("expected", .plain expected.name), ("actual", .plain actual.name)]
  | loadDevicegraph path => .variant "load-devicegraph" (.record [("path", .ofString path)])
  | parseDevicegraph => .plain "parse-devicegraph"
  | saveDevicegraph path => .variant "save-devicegraph" (.record [("path", .ofString path)])
  | saveActiongraph path => .variant "save-actiongraph" (.record [("path", .ofString path)])
  | serializeDevicegraph => .plain "serialize-devicegraph"
  | loadConfiguration path => .variant "load-configuration" (.record [("path", .ofString path)])
  | parseConfiguration => .plain "parse-configuration"
  | devicegraphExists name => .variant "devicegraph-exists" (.ofString name)
  | reservedDevicegraph name => .variant "reserved-devicegraph" (.ofString name)
  | readOnly => .plain "read-only"

/-- Reads the word for unusable input, with an argument. -/
def ofWord? (word : String) (argument : Value) : Option InputFault := do
  let path := do required? "path" Value.text? (← argument.entries?)
  match word with
  | "wrong-device-kind" =>
    let fields ← argument.entries?
    return wrongDeviceKind (← required? "sid" Value.word? fields)
      (← required? "expected" Value.named? fields) (← required? "actual" Value.named? fields)
  | "load-devicegraph" => return loadDevicegraph (← path)
  | "save-devicegraph" => return saveDevicegraph (← path)
  | "save-actiongraph" => return saveActiongraph (← path)
  | "load-configuration" => return loadConfiguration (← path)
  | "devicegraph-exists" => return devicegraphExists (← argument.text?)
  | "reserved-devicegraph" => return reservedDevicegraph (← argument.text?)
  | _ => failure

/-- Reads the word for unusable input, without an argument. -/
def ofBareWord? : String → Option InputFault
  | "parse-devicegraph" => some parseDevicegraph
  | "serialize-devicegraph" => some serializeDevicegraph
  | "parse-configuration" => some parseConfiguration
  | "read-only" => some readOnly
  | _ => none

end InputFault

namespace Fault

/-- The word and its argument for a fault. -/
def toTree : Fault → Tree
  | topology fault => fault.toTree
  | missing fault => fault.toTree
  | input fault => fault.toTree
  | unresolvableDependency sids =>
    .variant "unresolvable-dependency" (.record [("sids", .seq none (sids.map .number))])
  | probe => .plain "probe"
  | inconsistentProbe => .plain "inconsistent-probe"
  | actionFailed index action =>
    .variant "action-failed" <| .record [("action_index", .number index),
      ("action", .ofString action)]
  | internal text => .variant "internal" (.ofString text)
  | initializeLogger => .plain "initialize-logger"

/-- Reads a word without an argument as a fault of a category. -/
def ofBareWord? (category word : String) : Option Fault :=
  match category, word with
  | "invalid-input", _ => (InputFault.ofBareWord? word).map .input
  | "probe", "probe" => some .probe
  | "probe", "inconsistent-probe" => some .inconsistentProbe
  | "internal", "initialize-logger" => some .initializeLogger
  | _, _ => none

/-- Reads a word with its argument as a fault of a category. -/
def ofWord? (category word : String) (argument : Value) : Option Fault := do
  match category, word with
  | "invalid-topology", _ => return .topology (← TopologyFault.ofWord? word argument)
  | "not-found", _ => return .missing (← MissingFault.ofWord? word argument)
  | "invalid-input", _ => return .input (← InputFault.ofWord? word argument)
  | "unresolvable-dependency", "unresolvable-dependency" =>
    let sids ← required? "sids" Value.list? (← argument.entries?)
    return .unresolvableDependency (← sids.mapM Value.word?)
  | "commit", "action-failed" =>
    let fields ← argument.entries?
    return .actionFailed (← required? "action_index" Value.word? fields)
      (← required? "action" Value.text? fields)
  | _, _ => failure

/-- Reads a fault of a category; a word without an argument may have null for one. -/
def ofValue? (category : String) : Value → Option Fault
  | .text word | .map [(.text word, .null)] => ofBareWord? category word
  | .map [(.text word, argument)] => ofWord? category word argument
  | _ => none

end Fault

end StoragePlan
