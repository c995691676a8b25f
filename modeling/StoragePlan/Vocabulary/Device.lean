import StoragePlan.Cardinality
import StoragePlan.Text
import StoragePlan.Vocabulary.Named

/-!
# Device kinds, holder kinds and where devices may be placed

A device kind fixes on what a device may sit, how many devices it sits on, how many may sit on it
and what kind of holder joins it to its parent.
-/

namespace StoragePlan

/-- The kinds of devices. -/
inductive DeviceKind where
  | disk
  /-- A partition table on a disk. -/
  | partitionTable
  /-- A partition in a partition table. -/
  | partition
  /-- A filesystem on a disk or a partition. -/
  | filesystem
  deriving DecidableEq, Repr

/-- The kinds of holders. -/
inductive HolderKind where
  /-- The child uses the parent, as a filesystem uses its partition. -/
  | user
  /-- The child is a part of the parent, as a partition is of its table. -/
  | subdevice
  deriving DecidableEq, Repr

namespace HolderKind

/-- The word for a holder kind. -/
def name : HolderKind → String
  | user => "user"
  | subdevice => "subdevice"

instance : Named HolderKind where
  all := [user, subdevice]
  name := name

/-- Users come before subdevices where holders are sorted. -/
def rank : HolderKind → Nat
  | user => 0
  | subdevice => 1

end HolderKind

/-- A set of device kinds. As a number, it has one bit for each kind; a set may also have bits that
stand for no kind. -/
structure KindSet where
  /-- Whether disks are in the set. -/
  disk : Bool := false
  /-- Whether partition tables are in the set. -/
  partitionTable : Bool := false
  /-- Whether partitions are in the set. -/
  partition : Bool := false
  /-- Whether filesystems are in the set. -/
  filesystem : Bool := false
  /-- The bits that stand for no kind. -/
  others : Nat := 0
  deriving DecidableEq, Repr

namespace DeviceKind

/-- The word for a device kind. -/
def name : DeviceKind → String
  | disk => "disk"
  | partitionTable => "partition-table"
  | partition => "partition"
  | filesystem => "filesystem"

instance : Named DeviceKind where
  all := [disk, partitionTable, partition, filesystem]
  name := name

/-- The name of the kind where sets of kinds are spelled out. -/
def flagName : DeviceKind → String
  | disk => "Disk"
  | partitionTable => "PartitionTable"
  | partition => "Partition"
  | filesystem => "Filesystem"

/-- The bit of the kind in the number of a set of kinds. -/
def bit : DeviceKind → Nat
  | disk => 1
  | partitionTable => 2
  | partition => 4
  | filesystem => 8

/-- Whether devices of the kind are block devices, which have a name. -/
def isBlockDevice : DeviceKind → Bool
  | disk | partition => true
  | partitionTable | filesystem => false

/-- The kinds on which a device may be placed. -/
def validParents : DeviceKind → KindSet
  | disk => {}
  | partitionTable => { disk := true }
  | partition => { partitionTable := true }
  | filesystem => { disk := true, partition := true }

/-- How many parents a device must have. -/
def validParentCount : DeviceKind → Cardinality
  | disk => .zero
  | partitionTable | partition | filesystem => .exactly 1

/-- How many children a device may have: a disk has a partition table or a filesystem. -/
def validChildren : DeviceKind → Cardinality
  | disk => .atMost 1
  | partitionTable => .any
  | partition => .atMost 1
  | filesystem => .zero

/-- The kind of the holder between a device and its parent. -/
def parentHolderKind : DeviceKind → HolderKind
  | partition => .subdevice
  | disk | partitionTable | filesystem => .user

end DeviceKind

namespace KindSet

/-- Whether a kind is in the set. -/
def contains (s : KindSet) : DeviceKind → Bool
  | .disk => s.disk
  | .partitionTable => s.partitionTable
  | .partition => s.partition
  | .filesystem => s.filesystem

/-- The kinds in the set, in order. -/
def toList (s : KindSet) : List DeviceKind := Named.all.filter s.contains

/-- The bits for the kinds in the set. -/
def kindBits (s : KindSet) : Nat := s.toList.foldl (fun n k => n + k.bit) 0

/-- The number of the set. -/
def bits (s : KindSet) : Nat := s.kindBits + s.others

/-- The set that a number stands for. -/
def ofBits (n : Nat) : KindSet :=
  let has := fun (k : DeviceKind) => n / k.bit % 2 == 1
  { disk := has .disk, partitionTable := has .partitionTable, partition := has .partition,
    filesystem := has .filesystem, others := n / 16 * 16 }

/-- The set without the bits that stand for no kind. -/
def known (s : KindSet) : KindSet := { s with others := 0 }

/-- The set of the kinds and bits that are in one of two sets. -/
def union (s t : KindSet) : KindSet := ofBits (s.bits ||| t.bits)

/-- The kinds as messages list them. -/
def text (s : KindSet) : String :=
  if s.bits = 0 then "(none)" else " or ".intercalate (s.toList.map DeviceKind.name)

/-- The set as flags: the names of its kinds and, as a number, the bits that stand for no kind. -/
def flagText (s : KindSet) : String :=
  " | ".intercalate (s.toList.map DeviceKind.flagName ++
    if s.others = 0 then [] else ["0x" ++ Numeral.hex 1 s.others])

/-- Reads a flag: the name of a kind, or a number of 32 bits in hexadecimal digits after `0x`. -/
def ofFlag? (flag : List Char) : Option KindSet :=
  match flag with
  | '0' :: 'x' :: digits => do
    let n ← Numeral.ofDigits? 16 (if digits.head? == some '+' then digits.drop 1 else digits)
    if n < 1 <<< 32 then some (ofBits n) else none
  | _ => (Named.all.find? fun k => DeviceKind.flagName k == String.ofList flag).map fun k =>
    ofBits k.bit

/-- Reads flags with bars between them and white space around them; a blank text is the empty
set. -/
def ofFlagText? (text : String) : Option KindSet :=
  if (Space.trim text.toList).isEmpty then some {}
  else do
    let sets ← (text.splitOn "|").mapM fun flag => ofFlag? (Space.trim flag.toList)
    return sets.foldl union {}

end KindSet

end StoragePlan
