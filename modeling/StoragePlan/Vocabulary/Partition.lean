import StoragePlan.Vocabulary.Named

/-!
# Partition tables, partition types and transports

Which partitions each kind of partition table can hold.
-/

namespace StoragePlan

/-- The role of a partition within its partition table. -/
inductive PartitionType where
  | primary
  /-- A container for logical partitions. -/
  | extended
  /-- A partition inside an extended partition. -/
  | logical
  deriving DecidableEq, Repr

namespace PartitionType

/-- The word for a partition type. -/
def name : PartitionType → String
  | primary => "primary"
  | extended => "extended"
  | logical => "logical"

instance : Named PartitionType where
  all := [primary, extended, logical]
  name := name

/-- The partition id of a new partition: Linux, or extended. -/
def defaultId : PartitionType → Nat
  | primary | logical => 0x83
  | extended => 0x05

end PartitionType

/-- The types of partition tables. -/
inductive PtType where
  /-- The classic master boot record. -/
  | msdos
  /-- The GUID partition table. -/
  | gpt
  /-- The volume label of mainframe disks. -/
  | dasd
  deriving DecidableEq, Repr

namespace PtType

/-- The word for a partition table type. -/
def name : PtType → String
  | msdos => "msdos"
  | gpt => "gpt"
  | dasd => "dasd"

instance : Named PtType where
  all := [msdos, gpt, dasd]
  name := name

/-- How many partitions that are not logical a table of this type can hold. -/
def maxPrimary : PtType → Nat
  | msdos => 4
  | gpt => 128
  | dasd => 3

/-- Whether a table of this type can hold an extended partition and logical ones in it. -/
def extendedPossible : PtType → Bool
  | msdos => true
  | gpt | dasd => false

/-- Whether a table of this type can hold a partition of the given type. -/
def supports (table : PtType) : PartitionType → Bool
  | .primary => true
  | .extended | .logical => table.extendedPossible

end PtType

/-- How a disk is attached. -/
inductive Transport where
  | unknown
  | ata
  | fc
  | fcoe
  | iscsi
  | nvme
  | sas
  | sata
  | sbp
  | spi
  | usb
  deriving DecidableEq, Repr

namespace Transport

/-- The word for a transport. -/
def name : Transport → String
  | unknown => "unknown"
  | ata => "ata"
  | fc => "fc"
  | fcoe => "fcoe"
  | iscsi => "iscsi"
  | nvme => "nvme"
  | sas => "sas"
  | sata => "sata"
  | sbp => "sbp"
  | spi => "spi"
  | usb => "usb"

instance : Named Transport where
  all := [unknown, ata, fc, fcoe, iscsi, nvme, sas, sata, sbp, spi, usb]
  name := name

end Transport

end StoragePlan
