import Gristle.Api

/-! `fat_mount`: the boot sector of a partition becomes the geometry of the volume. -/
namespace Gristle

/-- The fields `boot_sector_fat16` and `boot_sector_fat32` share, and where they differ. -/
structure BootSector where
  sectorSize : ℕ
  clusterSize : ℕ
  reservedSectors : ℕ
  numFats : ℕ
  rootEntries : ℕ
  totalSectors : ℕ
  shortSectorsPerFat : ℕ
  bigTotalSectors : ℕ
  longSectorsPerFat : ℕ
  rootStart : ℕ
  deriving DecidableEq, Repr

def Sector.bootSector (b : Sector) : BootSector where
  sectorSize := b.le16 0x0B
  clusterSize := (b.get 0x0D).toNat
  reservedSectors := b.le16 0x0E
  numFats := (b.get 0x10).toNat
  rootEntries := b.le16 0x11
  totalSectors := b.le16 0x13
  shortSectorsPerFat := b.le16 0x16
  bigTotalSectors := b.le32 0x20
  longSectorsPerFat := b.le32 0x24
  rootStart := b.le32 0x2C

namespace BootSector

/-- The checks both mount functions make on sizes and counts. -/
def sizesOk (b : BootSector) (volumeSize : ℕ) : Bool :=
  b.sectorSize = 512 && ((List.range 8).map (2^·)).contains b.clusterSize &&
  1 ≤ b.reservedSectors && b.reservedSectors < volumeSize && 1 ≤ b.numFats && b.numFats < 15

/-- The check of the total number of sectors. -/
def fits (b : BootSector) (volumeSize : ℕ) : Bool :=
  if b.totalSectors = 0 then b.bigTotalSectors ≤ volumeSize else b.totalSectors ≤ volumeSize

/-- The total number of sectors, from whichever field holds it. -/
def total (b : BootSector) : ℕ := if b.totalSectors = 0 then b.bigTotalSectors else b.totalSectors

/-- The geometry `fat_mount_fat16` computes, before its last check. -/
def geometry16 (b : BootSector) (start : ℕ) (g : FatInfo) : FatInfo :=
  let fat := u32 (start + b.reservedSectors)
  let root := u32 (fat + b.shortSectorsPerFat * b.numFats)
  let rootLen := b.rootEntries * 32 / 512
  { g with
    sectorsPerCluster := b.clusterSize
    rootLen := rootLen
    activeFatStart := fat
    sectorsPerFat := b.shortSectorsPerFat
    rootStart := root
    cluster0 := u32 (u32 (root + rootLen) + 2^32 - b.clusterSize * 2) }

/-- The geometry `fat_mount_fat32` computes; `root_start` and `root_len` keep their values. -/
def geometry32 (b : BootSector) (start : ℕ) (g : FatInfo) : FatInfo :=
  let fat := u32 (start + b.reservedSectors)
  { g with
    sectorsPerCluster := b.clusterSize
    activeFatStart := fat
    sectorsPerFat := b.longSectorsPerFat
    cluster0 := u32 (u32 (fat + u32 (b.longSectorsPerFat * b.numFats)) + 2^32 - b.clusterSize * 2)
    rootCluster := b.rootStart
    totalSectors := b.total
    type := partTypeFat32
    fatEntryLen := 4
    endClusterMarker := 0xFFFFFF0
    partStart := start }

end BootSector

def setFatfs (f : FatInfo → FatInfo) : FatM Unit := Prog.modify fun s => { s with fatfs := f s.fatfs }

/-- `fatfs.read_only = block_get_device_read_only()`, as `uint8_t`. -/
def storeReadOnly (E : Env) : FatM Unit :=
  setFatfs fun g => { g with readOnly := (E.deviceReadOnly % 2^8).toNat }

/-- `fat_mount_fat16` -/
def fatMountFat16 (E : Env) (start volumeSize : ℕ) : FatM ℤ := do
  if ← sysLock E then
    storeReadOnly E
    let _ ← readSysbuf E start
    let b := (← sysbuf).bootSector
    let rejected := !b.sizesOk volumeSize || b.rootEntries = 0 || b.rootEntries % 16 ≠ 0 ||
      !b.fits volumeSize
    if rejected then do sysUnlock; pure (-1)
    else
      setFatfs (b.geometry16 start)
      let g ← fatfs
      if u32 (start + volumeSize) < g.rootStart then do sysUnlock; pure (-1)
      else
        setFatfs fun g => { g with
          totalSectors := b.total
          type := partTypeFat16
          fatEntryLen := 2
          endClusterMarker := 0xFFF0
          partStart := start
          rootCluster := 1 }
        sysUnlock
        pure 0
  else pure (-1)

/-- `fat_mount_fat32` -/
def fatMountFat32 (E : Env) (start volumeSize : ℕ) : FatM ℤ := do
  if ← sysLock E then
    storeReadOnly E
    let _ ← readSysbuf E start
    let b := (← sysbuf).bootSector
    if !b.sizesOk volumeSize || b.rootEntries ≠ 0 || !b.fits volumeSize then do sysUnlock; pure (-1)
    else
      setFatfs (b.geometry32 start)
      sysUnlock
      pure 0
  else pure (-1)

/-- `fat_mount` -/
def fatMount (E : Env) (partStart volumeSize filesystemHint : ℕ) : FatM ℤ := do
  let (first,second) := if filesystemHint = partTypeFat16 then (fatMountFat16,fatMountFat32)
    else (fatMountFat32,fatMountFat16)
  if (← first E partStart volumeSize) = 0 then pure 0
  else if (← second E partStart volumeSize) = 0 then pure 0
  else pure (-1)

end Gristle
