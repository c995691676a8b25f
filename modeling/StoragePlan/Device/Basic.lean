import StoragePlan.Device.Uuid
import StoragePlan.Failure
import StoragePlan.Keyed
import StoragePlan.Vocabulary.Filesystem

/-!
# Devices

A device is a sid, the attributes of its kind and free-form user data. The functions here read a
single device; the devices around it belong to a devicegraph.
-/

namespace StoragePlan

/-- A physical disk. -/
structure Disk where
  /-- The name of the block device. -/
  name : String
  /-- The size in KiB, 0 when it is unknown. -/
  sizeK : Nat := 0
  /-- The bytes in a sector. -/
  sectorSize : Nat := defaultSectorSize
  /-- Whether the disk spins. -/
  rotational : Bool := false
  /-- How the disk is attached. -/
  transport : Transport := .unknown
  deriving DecidableEq, Repr

/-- A partition table on a disk. -/
structure PartitionTable where
  /-- The type of the table. -/
  ptType : PtType
  deriving DecidableEq, Repr

/-- A partition of a partition table. -/
structure Partition where
  /-- The name of the block device. -/
  name : String
  /-- The role in the table. -/
  type : PartitionType := .primary
  /-- The sectors of the partition. -/
  region : Region
  /-- The partition id, such as 0x83 for Linux. -/
  id : Nat
  /-- The boot flag. -/
  boot : Bool := false
  deriving DecidableEq, Repr

/-- A filesystem on a disk or a partition. -/
structure Filesystem where
  /-- The type of the filesystem. -/
  fsType : FsType
  /-- The label, empty when there is none. -/
  label : String := ""
  /-- The identifier, if one is chosen. -/
  uuid : Option Uuid := none
  /-- Where it is mounted, in the order the mountpoints were added; `swap` for swap space. -/
  mountpoints : List String := []
  /-- How the table of filesystems refers to it. -/
  mountBy : MountBy := .device
  /-- The options in the table of filesystems. -/
  fstabOptions : List String := []
  deriving DecidableEq, Repr

/-- The attributes of a device, by kind. -/
inductive Attributes where
  | disk (disk : Disk)
  | partitionTable (table : PartitionTable)
  | partition (partition : Partition)
  | filesystem (filesystem : Filesystem)
  deriving DecidableEq, Repr

/-- Free-form texts by key that the caller attaches to a device. -/
abbrev UserData := Keyed String

/-- A storage device. -/
structure Device where
  /-- The number of the device. -/
  sid : Sid
  /-- What the device is. -/
  attributes : Attributes
  /-- What the caller attached to it. -/
  userData : UserData := []
  deriving DecidableEq, Repr

namespace Disk

/-- Larger disks get a GPT by default: 2 TiB in KiB. -/
def msdosLimitK : Nat := 2147483648

/-- The sectors of the disk, at most as many as a region can have; none when the size of the disk
or of its sectors is unknown. -/
def extent? (d : Disk) : Option Region :=
  if d.sizeK = 0 ∨ d.sectorSize = 0 then none
  else some ⟨0, min (d.sizeK * 1024 / d.sectorSize) maxWord, d.sectorSize⟩

/-- The type of partition table for the disk when none is asked for. -/
def defaultPtType (d : Disk) : PtType := if msdosLimitK < d.sizeK then .gpt else .msdos

end Disk

namespace Partition

/-- The number at the end of the name, if there is one below `2 ^ 32`. -/
def number? (p : Partition) : Option Nat := do
  let digits := (p.name.toList.reverse.takeWhile Char.isDigit).reverse
  let n ← Numeral.ofDigits? 10 digits
  if n ≤ maxHalfWord then some n else none

end Partition

namespace Filesystem

/-- Whether the filesystem can store its label; an empty one always fits. -/
def labelFits (fs : Filesystem) : Bool :=
  fs.label.isEmpty || (fs.fsType.supportsLabel && fs.label.utf8ByteSize ≤ fs.fsType.maxLabelSize)

end Filesystem

namespace Attributes

/-- The kind of device that has the attributes. -/
def kind : Attributes → DeviceKind
  | disk _ => .disk
  | partitionTable _ => .partitionTable
  | partition _ => .partition
  | filesystem _ => .filesystem

/-- The name of a block device. -/
def name? : Attributes → Option String
  | disk d => some d.name
  | partition p => some p.name
  | partitionTable _ | filesystem _ => none

/-- The attributes of a disk. -/
def disk? : Attributes → Option Disk
  | disk d => some d
  | _ => none

/-- The attributes of a partition table. -/
def partitionTable? : Attributes → Option PartitionTable
  | partitionTable t => some t
  | _ => none

/-- The attributes of a partition. -/
def partition? : Attributes → Option Partition
  | partition p => some p
  | _ => none

/-- The attributes of a filesystem. -/
def filesystem? : Attributes → Option Filesystem
  | filesystem fs => some fs
  | _ => none

end Attributes

namespace Device

/-- The kind of the device. -/
def kind (d : Device) : DeviceKind := d.attributes.kind

/-- The name of a block device. -/
def name? (d : Device) : Option String := d.attributes.name?

/-- A short name for people: the name of a block device, else the type, with the label if any. -/
def displayName (d : Device) : String :=
  match d.attributes with
  | .disk disk => disk.name
  | .partition p => p.name
  | .partitionTable t => t.ptType.name
  | .filesystem fs =>
    if fs.label.isEmpty then fs.fsType.name else s!"{fs.fsType.name} ({fs.label})"

/-- The device as messages describe it. -/
def description (d : Device) : String :=
  match d.attributes with
  | .disk disk => s!"disk '{disk.name}'"
  | .partition p => s!"partition '{p.name}'"
  | .partitionTable t => s!"partition table [type:{t.ptType.name} sid:{d.sid}]"
  | .filesystem fs => s!"filesystem [type:{fs.fsType.name} sid:{d.sid}]"

/-- The line for the device in a listing. -/
def text (d : Device) : String :=
  let head := s!"{d.kind.name} sid:{d.sid}"
  match d.attributes with
  | .disk disk =>
    head ++ s!" name:{disk.name} size-k:{disk.sizeK} sector-size:{disk.sectorSize}"
  | .partitionTable t => head ++ s!" pt-type:{t.ptType.name}"
  | .partition p =>
    head ++ s!" name:{p.name} type:{p.type.name} region:{p.region.text} id:0x" ++
      Numeral.hex 2 p.id
  | .filesystem fs =>
    head ++ s!" fs-type:{fs.fsType.name}" ++
      (if fs.label.isEmpty then "" else s!" label:{fs.label}") ++
      (if fs.mountpoints.isEmpty then "" else " mountpoints:" ++ ",".intercalate fs.mountpoints)

end Device

end StoragePlan
