import Gristle.Name

/-! The file allocation table, the sector cursor of a descriptor and the directory entry behind
it. `fat_flush`, `fat_next_cluster`, `fat_next_sector` and `fat_flush_fileinfo` call each other;
the first three take the last as an argument, and it is closed by recursion on the fuel. -/
namespace Gristle
open Prog (get stop)

/-! ### Entries of the table -/

/-- The table entry at a byte offset of one of its blocks. -/
def FatInfo.entryAt (g : FatInfo) (b : Sector) (off : ℕ) : ℕ :=
  if g.type = partTypeFat32 then b.le32 off else b.le16 off

/-- Store the end-of-chain value. -/
def FatInfo.markEnd (g : FatInfo) (b : Sector) (off : ℕ) : Sector :=
  if g.type = partTypeFat16 then b.setLe16 off 0xFFF8 else b.setLe32 off 0x0FFFFFF8

/-- Store a link to the next cluster. -/
def FatInfo.setLink (g : FatInfo) (b : Sector) (off k : ℕ) : Sector :=
  if g.type = partTypeFat16 then b.setLe16 off k else b.setLe32 off k

def FatInfo.clearEntry (g : FatInfo) (b : Sector) (off : ℕ) : Sector :=
  if g.type = partTypeFat32 then b.setLe32 off 0 else b.setLe16 off 0

/-- The block of the table that holds the entry of a cluster. -/
def FatInfo.entryBlock (g : FatInfo) (c : ℕ) : ℕ :=
  u32 (u32 (c * g.fatEntryLen) / blockSize + g.activeFatStart)

/-- The offset of the entry in that block. -/
def FatInfo.entryOffset (g : FatInfo) (c : ℕ) : ℕ := u32 (c * g.fatEntryLen) % blockSize

/-- The first sector of a cluster. -/
def FatInfo.firstSector (g : FatInfo) (c : ℕ) : ℕ := u32 (c * g.sectorsPerCluster + g.cluster0)

/-- Entries in one block of the table. -/
def FatInfo.perBlock (g : FatInfo) : ℕ := blockSize / g.fatEntryLen

/-- The first zero entry among those with index `j, …, j+n-1` of a block of the table. -/
def FatInfo.freeIndex (g : FatInfo) (b : Sector) : ℕ → ℕ → Option ℕ
  | 0, _ => none
  | n+1, j => if g.entryAt b (j * g.fatEntryLen) = 0 then some j else g.freeIndex b n (j+1)

/-- The loop of `fat_get_free_cluster` over the blocks `i, …, i+n-1` of the table. -/
def freeClusterLoop (E : Env) : ℕ → ℕ → FatM ℕ
  | 0, _ => do sysUnlock; pure 0
  | n+1, i => do
    -- a failing read returns with the lock still taken
    if ← readSysbuf E i then pure 0xFFFFFFFF
    else
      let g ← fatfs
      match g.freeIndex (← sysbuf) g.perBlock 0 with
      | some j =>
        setSysbuf (g.markEnd (← sysbuf) (j * g.fatEntryLen))
        if ← writeBlock E .fatGetFreeCluster i (← sysbuf) then do sysUnlock; pure 0xFFFFFFFF
        else do sysUnlock; pure (u32 ((i - g.activeFatStart) * g.perBlock + j))
      | none => freeClusterLoop E n (i+1)

/-- `fat_get_free_cluster`, as the `uint32_t` every caller makes of its result. -/
def fatGetFreeCluster (E : Env) : FatM ℕ := do
  let g ← fatfs
  let n := u32 (g.activeFatStart + g.sectorsPerFat) - g.activeFatStart
  let granted ← sysLock E
  let r ← (if granted then freeClusterLoop E n g.activeFatStart else pure 0)
  onDevice (Device.log (.freeCluster r))
  pure r

/-- Make `sysbuf` the block `blk` of the table, writing back the block it held; `true` when the
read fails. -/
def freeClustersLoad (E : Env) (blk current : ℕ) : FatM Bool :=
  if blk = current then pure false
  else if current = maxBlock then readSysbuf E blk
  else do
    let _ ← writeBlock E .fatFreeClusters current (← sysbuf)
    readSysbuf E blk

/-- The loop of `fat_free_clusters`. -/
def freeClustersLoop (E : Env) : ℕ → ℕ → ℕ → FatM ℤ
  | 0, _, _ => stop .fuel
  | n+1, cluster, current => do
    let g ← fatfs
    let blk := g.entryBlock cluster
    if ← freeClustersLoad E blk current then do sysUnlock; pure (-1)
    else
      let b ← sysbuf
      let next := g.entryAt b (g.entryOffset cluster)
      setSysbuf (g.clearEntry b (g.entryOffset cluster))
      if g.endClusterMarker ≤ next then
        let _ ← writeBlock E .fatFreeClusters blk (← sysbuf)
        sysUnlock
        pure 0
      else freeClustersLoop E n next blk

/-- `fat_free_clusters` -/
def fatFreeClusters (E : Env) (cluster : ℕ) : FatM ℤ := do
  if ← sysLock E then freeClustersLoop E E.fuel cluster maxBlock
  else pure (-1)

/-! ### The sector under a descriptor -/

/-- The fields `fat_flush` sets when a file gets its first cluster. -/
def FileS.adopt (g : FatInfo) (cluster : ℕ) (f : FileS) : FileS :=
  { f with
    fullFirstCluster := cluster
    flags.fsDirty := true
    sector := g.firstSector cluster
    sectorsLeft := u8 (g.sectorsPerCluster + 2^8 - 1)
    cluster := cluster }

/-- `fat_flush` -/
def fatFlushWith (flushFileinfo : Fd → FatM ℤ) (E : Env) (fd : Fd) : FatM ℤ := do
  let f ← file fd
  if f.flags.dirty then
    if f.sector = 0 then
      let cluster ← fatGetFreeCluster E
      if cluster = 0xFFFFFFFF then pure (-1)
      else if cluster = 0 then pure (-1)
      else
        let g ← fatfs
        updateFile fd (FileS.adopt g cluster)
        let f ← file fd
        if ← writeBlock E .fatFlush f.sector f.buffer then pure (-1)
        else
          updateFile fd fun f => { f with flags.dirty := false }
          let _ ← flushFileinfo fd
          pure 0
    else if ← writeBlock E .fatFlush f.sector f.buffer then pure (-1)
    else
      updateFile fd fun f => { f with flags.dirty := false }
      pure 0
  else pure 0

/-- The fields `fat_select_cluster` sets; cluster 1 stands for the fixed FAT16 root. -/
def FileS.select (g : FatInfo) (cluster : ℕ) (f : FileS) : FileS :=
  if cluster = 1 then
    { f with sector := g.rootStart, sectorsLeft := u8 g.rootLen, cluster := 1, cursor := 0 }
  else
    { f with
      sector := g.firstSector cluster
      sectorsLeft := u8 (g.sectorsPerCluster + 2^8 - 1)
      cluster := cluster
      cursor := 0 }

/-- `fat_select_cluster` -/
def fatSelectCluster (E : Env) (fd : Fd) (cluster : ℕ) : FatM Bool := do
  let g ← fatfs
  updateFile fd (FileS.select g cluster)
  let f ← file fd
  readBuffer E fd f.sector

/-- The end of a chain open for writing: allocate a cluster and link it. -/
def extendChain (flushFileinfo : Fd → FatM ℤ) (E : Env) (fd : Fd) : FatM (ℤ × ℤ) := do
  let k ← fatGetFreeCluster E
  if k = 0 then pure (-1,eNospc)
  else if k = 0xFFFFFFFF then pure (-1,eIo)
  else
    let g ← fatfs
    let f ← file fd
    if ← readBuffer E fd (g.entryBlock f.cluster) then pure (-1,eIo)
    else
      updateFile fd fun f => { f with buffer := g.setLink f.buffer (g.entryOffset f.cluster) k }
      let f ← file fd
      if ← writeBlock E .fatNextCluster (g.entryBlock f.cluster) f.buffer then pure (-1,eIo)
      else
        let _ ← flushFileinfo fd
        pure (i32 k,0)

/-- `fat_next_cluster`, with the value of `*rerrno` -/
def fatNextClusterWith (flushFileinfo : Fd → FatM ℤ) (E : Env) (fd : Fd) : FatM (ℤ × ℤ) := do
  if (← fatFlushWith flushFileinfo E fd) ≠ 0 then pure (-1,eIo)
  else
    let g ← fatfs
    let f ← file fd
    if f.cluster = 1 then
      updateFile fd fun f => { f with error := fatEndOfFile }
      pure (-1,0)
    else if ← readBuffer E fd (g.entryBlock f.cluster) then pure (-1,eIo)
    else
      let f ← file fd
      let j := g.entryAt f.buffer (g.entryOffset f.cluster)
      if j < 2 then
        updateFile fd fun f => { f with error := fatErrorCluster }
        pure (-1,eIo)
      else if g.endClusterMarker ≤ j then
        if f.flags.write then extendChain flushFileinfo E fd
        else
          updateFile fd fun f => { f with error := fatEndOfFile }
          pure (-1,0)
      else pure (i32 j,0)

/-- `fat_next_sector`: zero, or nonzero when there is no next sector in the buffer. -/
def fatNextSectorWith (flushFileinfo : Fd → FatM ℤ) (E : Env) (fd : Fd) : FatM Bool := do
  if (← fatFlushWith flushFileinfo E fd) ≠ 0 then pure true
  else
    let f ← file fd
    if 0 < f.sectorsLeft then
      updateFile fd fun f => { f with
        sectorsLeft := f.sectorsLeft - 1
        fileSector := u32 (f.fileSector + 1)
        cursor := 0
        sector := u32 (f.sector + 1) }
      let f ← file fd
      readBuffer E fd f.sector
    else
      let (c,_) ← fatNextClusterWith flushFileinfo E fd
      if -1 < c then
        updateFile fd fun f => { f with fileSector := u32 (f.fileSector + 1) }
        fatSelectCluster E fd c.toNat
      else pure true

/-! ### The directory entry of a descriptor -/

/-- The first slot of a directory block, from slot `i` on, whose first byte is zero. -/
def emptySlot (b : Sector) : ℕ → ℕ → Option ℕ
  | 0, _ => none
  | n+1, i => if b.get (32*i) = 0 then some i else emptySlot b n (i+1)

/-- The search of `fat_flush_fileinfo` for an empty slot; failures to advance are ignored. -/
def emptySlotLoop (flushFileinfo : Fd → FatM ℤ) (E : Env) (fd : Fd) : ℕ → FatM ℕ
  | 0 => stop .fuel
  | n+1 => do
    let f ← file fd
    match emptySlot f.buffer 16 0 with
    | some i => pure i
    | none =>
      let _ ← fatNextSectorWith flushFileinfo E fd
      emptySlotLoop flushFileinfo E fd n

/-- Bring the block with the descriptor's entry into its buffer, choosing a slot of the parent
directory when there is no entry yet; `true` when the read of an existing entry fails. -/
def locateEntry (flushFileinfo : Fd → FatM ℤ) (E : Env) (fd : Fd) : FatM Bool := do
  let saved ← file fd
  if saved.entrySector = 0 then
    let _ ← fatSelectCluster E fd saved.parentCluster
    let i ← emptySlotLoop flushFileinfo E fd E.fuel
    updateFile fd fun f => { f with
      entrySector := f.sector
      entryNumber := i
      sectorsLeft := saved.sectorsLeft
      fileSector := saved.fileSector
      cursor := saved.cursor
      sector := saved.sector
      cluster := saved.cluster }
    pure false
  else readBuffer E fd saved.entrySector

/-- The body of `fat_flush_fileinfo`, with the calls it makes to itself as an argument. -/
def flushFileinfoBody (flushFileinfo : Fd → FatM ℤ) (E : Env) (fd : Fd) : FatM ℤ := do
  let f ← file fd
  let g ← fatfs
  if f.fullFirstCluster = g.rootCluster then pure 0
  else if f.entrySector = 0 ∧ f.flags.write = false then pure 0
  else if f.fullFirstCluster = 0 then pure 0
  else
    let de := f.toDirent E ((← junk E) 12)
    if (← fatFlushWith flushFileinfo E fd) ≠ 0 then pure (-1)
    else if ← locateEntry flushFileinfo E fd then pure (-1)
    else
      updateFile fd fun f => { f with buffer := f.buffer.setDirent f.entryNumber de }
      let f ← file fd
      if ← writeBlock E .fatFlushFileinfo f.entrySector f.buffer then pure (-1)
      else if ← readBuffer E fd f.sector then pure (-1)
      else
        updateFile fd fun f => { f with flags.fsDirty := false }
        pure 0

/-- `fat_flush_fileinfo` with a bound on the depth of the calls to itself. -/
def fatFlushFileinfoAux (E : Env) : ℕ → Fd → FatM ℤ
  | 0, _ => stop .fuel
  | n+1, fd => flushFileinfoBody (fatFlushFileinfoAux E n) E fd

/-- `fat_flush_fileinfo` -/
def fatFlushFileinfo (E : Env) (fd : Fd) : FatM ℤ := fatFlushFileinfoAux E E.fuel fd

def fatFlush (E : Env) (fd : Fd) : FatM ℤ := fatFlushWith (fatFlushFileinfo E) E fd
def fatNextCluster (E : Env) (fd : Fd) : FatM (ℤ × ℤ) := fatNextClusterWith (fatFlushFileinfo E) E fd
def fatNextSector (E : Env) (fd : Fd) : FatM Bool := fatNextSectorWith (fatFlushFileinfo E) E fd

end Gristle
