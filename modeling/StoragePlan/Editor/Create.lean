import StoragePlan.Devicegraph.Document
import StoragePlan.Editor.Basic

/-!
# Creating and loading devices

Each kind of device is created on the device it sits on. A device that breaks a rule is refused
before anything changes, and takes no sid.

A document is loaded into an empty devicegraph, first its devices and then its holders, each in the
order of the document, and the result is checked. The sids of the document are kept, and the sids of
new devices will be greater.
-/

namespace StoragePlan.Edit

/-- Creates a disk; size 0 stands for an unknown size. -/
def createDisk (name : String) (sizeK : Nat) : Edit Sid := do
  ask (·.checkNameUnused name none)
  let sid ← addDevice (.disk { name, sizeK })
  log .debug ("Created " ++ (← describe sid))
  return sid

/-- Creates a partition table on a disk. -/
def createPartitionTable (disk : Sid) (ptType : PtType) : Edit Sid := do
  let sid ← addChild disk (.partitionTable ⟨ptType⟩)
  log .debug ("Created " ++ (← describe sid) ++ " on " ++ (← describe disk))
  return sid

/-- Creates a partition in a partition table, inside the disk and beside the other partitions. -/
def createPartition (table : Sid) (name : String) (type : PartitionType) (region : Region) :
    Edit Sid := do
  let p : Partition := { name, type, region, id := type.defaultId }
  let _ ← ask (·.partitionTable table)
  ask (·.checkNameUnused name none)
  ask (·.checkPartitionPlacement table p none)
  let sid ← addChild table (.partition p)
  log .debug ("Created " ++ (← describe sid) ++ " at " ++ region.text)
  return sid

/-- Creates a filesystem on a partition, or on a disk without a partition table. -/
def createFilesystem (blkDevice : Sid) (fsType : FsType) : Edit Sid := do
  let sid ← addChild blkDevice (.filesystem { fsType })
  log .debug ("Created " ++ (← describe sid) ++ " on " ++ (← describe blkDevice))
  return sid

/-! ### Loading a document -/

/-- Adds a device that has a sid, which no other device has. -/
def insertDevice (d : Device) : Edit Unit := do
  if (← get).graph.contains d.sid then throw ↑(TopologyFault.duplicateSid d.sid)
  modify fun s => { s with supply := s.supply.reserve d.sid }
  change (·.addDevice d)

/-- Adds the devices and holders of a document and checks the result. -/
def load (d : Document) : Edit Unit := do
  d.devices.forM insertDevice
  d.holders.forM fun h => addHolder h.source h.target h.kind
  check.within "Loaded devicegraph is invalid"

/-- Loads the text of a document. -/
def loadText (text : String) : Edit Unit :=
  match Document.ofText? text with
  | some d => load d
  | none => throw { (↑InputFault.parseDevicegraph : Failure) with causes := [malformed] }

end StoragePlan.Edit
