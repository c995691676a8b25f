import StoragePlan.Editor.Basic

/-!
# Changing devices

Changes that concern other devices are checked first: sizes of disks, and regions, types and names
of partitions. All other attributes can have any value.
-/

namespace StoragePlan.Edit

/-! ### Disks -/

/-- Changes the attributes of a disk. -/
def changeDisk (sid : Sid) (f : Disk → Disk) : Edit Unit := do
  let d ← ask (·.disk sid)
  change (·.setAttributes sid (.disk (f d)))

/-- Sets the size of a disk; all partitions have to fit. -/
def setDiskSizeK (sid : Sid) (sizeK : Nat) : Edit Unit := do
  let d ← ask (·.disk sid)
  ask (·.checkPartitionsFit sid { d with sizeK })
  changeDisk sid fun d => { d with sizeK }

/-- Sets the sector size of a disk, which is not 0; all partitions have to use it. -/
def setDiskSectorSize (sid : Sid) (sectorSize : Nat) : Edit Unit := do
  let d ← ask (·.disk sid)
  if sectorSize = 0 then throw ↑(TopologyFault.invalidSectorSize d.name)
  ask (·.checkPartitionsFit sid { d with sectorSize })
  changeDisk sid fun d => { d with sectorSize }

/-- Sets whether a disk spins. -/
def setDiskRotational (sid : Sid) (rotational : Bool) : Edit Unit :=
  changeDisk sid fun d => { d with rotational }

/-- Sets how a disk is attached. -/
def setDiskTransport (sid : Sid) (transport : Transport) : Edit Unit :=
  changeDisk sid fun d => { d with transport }

/-! ### Partition tables -/

/-- Sets the type of a partition table; all partitions have to be allowed on the new type. -/
def setPartitionTableType (sid : Sid) (ptType : PtType) : Edit Unit := do
  let _ ← ask (·.partitionTable sid)
  ask fun g => do
    let changed := g.setAttributes sid (.partitionTable ⟨ptType⟩)
    (← changed.partitions sid).forM fun p => do
      changed.checkPartitionPlacement sid (← changed.partition p) (some p)
  change (·.setAttributes sid (.partitionTable ⟨ptType⟩))

/-! ### Partitions -/

/-- Changes the attributes of a partition after checking the changed partition in its table. -/
def changePartition (sid : Sid) (f : Partition → Partition) : Edit Unit := do
  let changed := f (← ask (·.partition sid))
  let table ← ask (·.partitionTableOf sid)
  ask (·.checkNameUnused changed.name (some sid))
  ask (·.checkPartitionPlacement table changed (some sid))
  change (·.setAttributes sid (.partition changed))

/-- Moves or resizes a partition. -/
def setPartitionRegion (sid : Sid) (region : Region) : Edit Unit :=
  changePartition sid fun p => { p with region }

/-- Sets the role of a partition. -/
def setPartitionType (sid : Sid) (type : PartitionType) : Edit Unit :=
  changePartition sid fun p => { p with type }

/-- Sets the name of a partition. -/
def setPartitionName (sid : Sid) (name : String) : Edit Unit :=
  changePartition sid fun p => { p with name }

/-- Sets the partition id. -/
def setPartitionId (sid : Sid) (id : Nat) : Edit Unit := do
  let p ← ask (·.partition sid)
  change (·.setAttributes sid (.partition { p with id }))

/-- Sets the boot flag. -/
def setPartitionBoot (sid : Sid) (boot : Bool) : Edit Unit := do
  let p ← ask (·.partition sid)
  change (·.setAttributes sid (.partition { p with boot }))

/-! ### Filesystems -/

/-- Changes the attributes of a filesystem. -/
def changeFilesystem (sid : Sid) (f : Filesystem → Filesystem) : Edit Unit := do
  let fs ← ask (·.filesystem sid)
  change (·.setAttributes sid (.filesystem (f fs)))

/-- Sets the filesystem type and keeps everything else. -/
def setFilesystemType (sid : Sid) (fsType : FsType) : Edit Unit :=
  changeFilesystem sid fun fs => { fs with fsType }

/-- Sets the label, also to one that is too long for the filesystem. -/
def setFilesystemLabel (sid : Sid) (label : String) : Edit Unit :=
  changeFilesystem sid fun fs => { fs with label }

/-- Sets or drops the uuid. -/
def setFilesystemUuid (sid : Sid) (uuid : Option Uuid) : Edit Unit :=
  changeFilesystem sid fun fs => { fs with uuid }

/-- Adds a mountpoint after the others. -/
def addMountpoint (sid : Sid) (mountpoint : String) : Edit Unit :=
  changeFilesystem sid fun fs => { fs with mountpoints := fs.mountpoints ++ [mountpoint] }

/-- Removes the first occurrence of a mountpoint; tells whether there was one. -/
def removeMountpoint (sid : Sid) (mountpoint : String) : Edit Bool := do
  let fs ← ask (·.filesystem sid)
  changeFilesystem sid fun fs => { fs with mountpoints := fs.mountpoints.erase mountpoint }
  return fs.mountpoints.contains mountpoint

/-- Sets all mountpoints. -/
def setMountpoints (sid : Sid) (mountpoints : List String) : Edit Unit :=
  changeFilesystem sid fun fs => { fs with mountpoints }

/-- Sets how the table of filesystems refers to the filesystem. -/
def setMountBy (sid : Sid) (mountBy : MountBy) : Edit Unit :=
  changeFilesystem sid fun fs => { fs with mountBy }

/-- Sets the options in the table of filesystems. -/
def setFstabOptions (sid : Sid) (fstabOptions : List String) : Edit Unit :=
  changeFilesystem sid fun fs => { fs with fstabOptions }

/-! ### User data -/

/-- Sets (or, without a value, drops) a key of the user data of a device; returns the user data. -/
def setUserData (sid : Sid) (key : String) (value : Option String) : Edit UserData := do
  let d ← ask (·.find sid)
  let userData := match value with
    | some v => Keyed.insert key v d.userData
    | none => Keyed.erase key d.userData
  change (·.setUserData sid userData)
  return userData

end StoragePlan.Edit
