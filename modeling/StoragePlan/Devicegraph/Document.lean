import StoragePlan.Devicegraph.Basic
import StoragePlan.Region.Form
import StoragePlan.Yaml.Reader

/-!
# Devicegraphs as documents

A document lists devices and holders. `Document.toTree` gives its tree and `Document.ofTree?` reads
one, so that writing a document and reading it back gives the same document; the text of a tree is
the matter of YAML.

The attributes of a device stand beside its sid and its kind. Since they can only be read once the
kind is known, they are read as values: a string has to be a string. What is not an attribute of the
kind is ignored there, and refused in holders, regions and the document itself.
-/

namespace StoragePlan

open Yaml

/-- The content of a document. -/
structure Document where
  /-- The devices. -/
  devices : List Device := []
  /-- The holders between them. -/
  holders : List Holder := []
  deriving DecidableEq, Repr

/-- The document of a devicegraph. -/
def Devicegraph.document (g : Devicegraph) : Document := ⟨g.devices, g.holders⟩

namespace Document

/-! ### Writing -/

/-- The entries for the attributes of a device. -/
def attributeEntries : Attributes → List (String × Tree)
  | .disk d =>
    [("name", .ofString d.name), ("size-k", .number d.sizeK), ("sector-size", .number d.sectorSize),
      ("rotational", .flag d.rotational), ("transport", .plain d.transport.name)]
  | .partitionTable t => [("pt-type", .plain t.ptType.name)]
  | .partition p =>
    [("name", .ofString p.name), ("partition-type", .plain p.type.name),
      ("region", p.region.toTree), ("id", .number p.id), ("boot", .flag p.boot)]
  | .filesystem fs =>
    [("fs-type", .plain fs.fsType.name), ("label", .ofString fs.label)] ++
      (fs.uuid.toList.map fun u => ("uuid", .ofString u.text)) ++
      (if fs.mountpoints.isEmpty then [] else [("mountpoints", .strings fs.mountpoints)]) ++
      [("mount-by", .plain fs.mountBy.name)] ++
      (if fs.fstabOptions.isEmpty then [] else [("fstab-options", .strings fs.fstabOptions)])

/-- The tree of a device. -/
def deviceTree (d : Device) : Tree :=
  .record ([("sid", .number d.sid), ("kind", .plain d.kind.name)] ++
    attributeEntries d.attributes ++
    if d.userData.isEmpty then []
    else [("userdata", .map none (d.userData.map fun (k, v) => (.ofString k, .ofString v)))])

/-- The tree of a holder. -/
def holderTree (h : Holder) : Tree :=
  .record [("source", .number h.source), ("target", .number h.target), ("kind", .plain h.kind.name)]

/-- The tree of a document. -/
def toTree (d : Document) : Tree :=
  .record [("devices", .seq none (d.devices.map deviceTree)),
    ("holders", .seq none (d.holders.map holderTree))]

/-- The text of a document. -/
def text (d : Document) : String := d.toTree.text

/-! ### Reading -/

/-- Reads the attributes of a disk. -/
def disk? (entries : List (String × Value)) : Option Disk := do
  let fields ← fields? ["name", "size-k", "sector-size", "rotational", "transport"] false entries
  return {
    name := ← required? "name" Value.text? fields
    sizeK := ← optional? "size-k" Value.word? 0 fields
    sectorSize := ← optional? "sector-size" Value.word? defaultSectorSize fields
    rotational := ← optional? "rotational" Value.bool? false fields
    transport := ← optional? "transport" Value.choice? .unknown fields }

/-- Reads the attributes of a partition table. -/
def partitionTable? (entries : List (String × Value)) : Option PartitionTable := do
  let fields ← fields? ["pt-type"] false entries
  return ⟨← required? "pt-type" Value.choice? fields⟩

/-- Reads the attributes of a partition. -/
def partition? (entries : List (String × Value)) : Option Partition := do
  let fields ← fields? ["name", "partition-type", "region", "id", "boot"] false entries
  return {
    name := ← required? "name" Value.text? fields
    type := ← optional? "partition-type" Value.choice? .primary fields
    region := ← required? "region" Region.ofValue? fields
    id := ← required? "id" (Value.natural? maxHalfWord) fields
    boot := ← optional? "boot" Value.bool? false fields }

/-- Reads the attributes of a filesystem. -/
def filesystem? (entries : List (String × Value)) : Option Filesystem := do
  let fields ← fields?
    ["fs-type", "label", "uuid", "mountpoints", "mount-by", "fstab-options"] false entries
  return {
    fsType := ← required? "fs-type" Value.choice? fields
    label := ← optional? "label" Value.text? "" fields
    uuid := ← optional? "uuid" (Value.option? fun v => do Uuid.ofText? (← v.text?)) none fields
    mountpoints := ← optional? "mountpoints" Value.strings? [] fields
    mountBy := ← optional? "mount-by" Value.choice? .device fields
    fstabOptions := ← optional? "fstab-options" Value.strings? [] fields }

/-- Reads the attributes of a device. -/
def attributes? (entries : List (String × Value)) : Option Attributes := do
  let kind : DeviceKind ← required? "kind" Value.key? (← fields? ["kind"] false entries)
  match kind with
  | .disk => (disk? entries).map .disk
  | .partitionTable => (partitionTable? entries).map .partitionTable
  | .partition => (partition? entries).map .partition
  | .filesystem => (filesystem? entries).map .filesystem

/-- Reads user data; of two entries with one key the later counts. -/
def userData? (n : Tree) : Option UserData := do
  return Keyed.ofPairs (← (← n.entries?).mapM fun (k, v) => do return (k, ← v.string?))

/-- Reads a device. -/
def device? (n : Tree) : Option Device := do
  let entries ← n.entries?
  let fields ← fields? ["sid", "userdata"] false entries
  let others := entries.filter fun (k, _) => k != "sid" && k != "userdata"
  return {
    sid := ← required? "sid" Tree.natural? fields
    attributes := ← attributes? (← others.mapM fun (k, v) => do return (k, ← v.value?))
    userData := ← optional? "userdata" userData? [] fields }

/-- Reads a holder. -/
def holder? (n : Tree) : Option Holder := do
  let fields ← fields? ["source", "target", "kind"] true (← n.entries?)
  return ⟨← required? "source" Tree.natural? fields, ← required? "target" Tree.natural? fields,
    ← required? "kind" Tree.named? fields⟩

/-- Reads a document. -/
def ofTree? (n : Tree) : Option Document := do
  let fields ← fields? ["devices", "holders"] true (← n.entries?)
  return ⟨← optional? "devices" (fun v => do (← v.items?).mapM device?) [] fields,
    ← optional? "holders" (fun v => do (← v.items?).mapM holder?) [] fields⟩

/-- Reads the text of a document; an empty text is an empty document. -/
def ofText? (text : String) : Option Document := do ofTree? (← Tree.ofText? text)

end Document

end StoragePlan
