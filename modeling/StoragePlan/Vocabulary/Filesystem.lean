import StoragePlan.Vocabulary.Named

/-!
# Filesystem types and how filesystems are mounted

What each filesystem type can store and how it can be resized.
-/

namespace StoragePlan

/-- The filesystem types that can be placed on a block device. -/
inductive FsType where
  | btrfs
  | exfat
  | ext2
  | ext3
  | ext4
  | iso9660
  | ntfs
  | swap
  | udf
  | vfat
  | xfs
  deriving DecidableEq, Repr

namespace FsType

/-- The word for a filesystem type. -/
def name : FsType → String
  | btrfs => "btrfs"
  | exfat => "exfat"
  | ext2 => "ext2"
  | ext3 => "ext3"
  | ext4 => "ext4"
  | iso9660 => "iso9660"
  | ntfs => "ntfs"
  | swap => "swap"
  | udf => "udf"
  | vfat => "vfat"
  | xfs => "xfs"

instance : Named FsType where
  all := [btrfs, exfat, ext2, ext3, ext4, iso9660, ntfs, swap, udf, vfat, xfs]
  name := name

/-- Whether the filesystem can store a label. -/
def supportsLabel : FsType → Bool
  | iso9660 => false
  | _ => true

/-- The longest label in bytes that the filesystem can store, 0 where it stores none. -/
def maxLabelSize : FsType → Nat
  | btrfs => 255
  | exfat => 15
  | ext2 | ext3 | ext4 => 16
  | iso9660 => 0
  | ntfs => 128
  | swap => 15
  | udf => 126
  | vfat => 11
  | xfs => 12

/-- Whether the filesystem stores a uuid that can be chosen when it is created. -/
def supportsUuid : FsType → Bool
  | iso9660 | vfat | exfat | ntfs => false
  | _ => true

/-- Whether the filesystem can grow in place. -/
def supportsGrow : FsType → Bool
  | btrfs | ext2 | ext3 | ext4 | ntfs | xfs => true
  | exfat | iso9660 | swap | udf | vfat => false

/-- Whether the filesystem can shrink in place. -/
def supportsShrink : FsType → Bool
  | btrfs | ext2 | ext3 | ext4 | ntfs => true
  | exfat | iso9660 | swap | udf | vfat | xfs => false

/-- Whether the filesystem is swap space, which is activated and not attached to a directory. -/
def isSwap (t : FsType) : Bool := t == swap

end FsType

/-- How the table of filesystems refers to a filesystem. -/
inductive MountBy where
  | device
  | uuid
  | label
  | id
  | path
  deriving DecidableEq, Repr

namespace MountBy

/-- The word for a way to refer to a filesystem. -/
def name : MountBy → String
  | device => "device"
  | uuid => "uuid"
  | label => "label"
  | id => "id"
  | path => "path"

instance : Named MountBy where
  all := [device, uuid, label, id, path]
  name := name

end MountBy

/-- The mountpoint that stands for active swap space. -/
def swapMountpoint : String := "swap"

end StoragePlan
