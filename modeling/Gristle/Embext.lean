import Gristle.Api

/-! The ext2 driver: inodes are read through the block group table, files through their direct
blocks. Open files live on the heap, so a file is a handle and a freed one may not be used. -/
namespace Gristle
open Prog (get stop)

abbrev maxExt2PathLen : ℕ := 1024
abbrev maxPathLevels : ℕ := 100
abbrev ext2RootIno : ℤ := 2

/-! ### Structures on disk -/

/-- `struct superblock`: 264 bytes, read by offset. -/
structure Superblock where
  bytes : Sector

namespace Superblock
def size : ℕ := 264
def sBlocksCount (b : Superblock) : ℕ := b.bytes.le32 4
def sLogBlockSize (b : Superblock) : ℕ := b.bytes.le32 24
def sBlocksPerGroup (b : Superblock) : ℕ := b.bytes.le32 32
def sInodesPerGroup (b : Superblock) : ℕ := b.bytes.le32 40
def sMntCount (b : Superblock) : ℕ := b.bytes.le16 52
def sRevLevel (b : Superblock) : ℕ := b.bytes.le32 76
def sInodeSize (b : Superblock) : ℕ := b.bytes.le16 88
def sFeatureRoCompat (b : Superblock) : ℕ := b.bytes.le32 100
def setMtime (b : Superblock) (t : ℤ) : Superblock := ⟨b.bytes.setLe32 44 (u32OfInt t)⟩
def setMntCount (b : Superblock) (n : ℕ) : Superblock := ⟨b.bytes.setLe16 52 n⟩
def setBlockGroupNr (b : Superblock) (n : ℕ) : Superblock := ⟨b.bytes.setLe16 90 n⟩
end Superblock

/-- `struct inode`: 128 bytes, read by offset. -/
structure Inode where
  bytes : Sector

namespace Inode
def length : ℕ := 128
def iMode (d : Inode) : ℕ := d.bytes.le16 0
def iUid (d : Inode) : ℕ := d.bytes.le16 2
def iSize (d : Inode) : ℕ := d.bytes.le32 4
def iAtime (d : Inode) : ℕ := d.bytes.le32 8
def iCtime (d : Inode) : ℕ := d.bytes.le32 12
def iMtime (d : Inode) : ℕ := d.bytes.le32 16
def iGid (d : Inode) : ℕ := d.bytes.le16 24
def iLinksCount (d : Inode) : ℕ := d.bytes.le16 26
/-- `i_block[k]` -/
def iBlock (d : Inode) (k : ℕ) : ℕ := d.bytes.le32 (40 + 4*k)
def setSize (d : Inode) (n : ℕ) : Inode := ⟨d.bytes.setLe32 4 n⟩
def setAtime (d : Inode) (t : ℤ) : Inode := ⟨d.bytes.setLe32 8 (u32OfInt t)⟩
def setMtime (d : Inode) (t : ℤ) : Inode := ⟨d.bytes.setLe32 16 (u32OfInt t)⟩
def isDirectory (d : Inode) : Bool := d.iMode &&& 0x4000 != 0
end Inode

/-! ### The state of the driver -/

/-- `struct ext2context` -/
structure Ext2Context where
  partStart : ℕ
  superblock : Superblock
  sparse : Bool
  sysbuf : Sector
  superblockBlock : ℕ
  readOnly : ℤ
  numBlockgroups : ℕ
  superblockBlocks : List ℕ

/-- The `EXT2_FLAG_*` bits that are used. -/
structure Ext2Flags where
  read : Bool
  write : Bool
  append : Bool
  dirty : Bool
  fsDirty : Bool
  deriving DecidableEq, Repr

/-- `struct file_ent` -/
structure FileEnt where
  flags : Ext2Flags
  cursor : ℕ
  inodeNumber : ℤ
  sector : ℕ
  fileSector : ℕ
  sectorsLeft : ℕ
  blockIndex : ℕ
  buffer : Sector
  inode : Inode

/-- A file entry fresh from `memset`. -/
def FileEnt.zero : FileEnt :=
  ⟨⟨false,false,false,false,false⟩,0,0,0,0,0,0,.zero,⟨.zero⟩⟩

/-- The static `struct dirent` of `ext2_readdir`. -/
structure Ext2Dirent where
  dIno : ℤ
  dName : ℕ → UInt8

def Ext2Dirent.name (de : Ext2Dirent) : List UInt8 := cString ((List.range 256).map de.dName)

/-- One mounted context, the files on the heap and the static directory entry. -/
structure Ext2State where
  dev : Device
  context : Option Ext2Context
  files : ℕ → Option FileEnt
  nextFile : ℕ
  de : Ext2Dirent

abbrev Ext2M := Prog Ext2State

namespace Ext2

def onDevice {α : Type} (x : Prog Device α) : Ext2M α :=
  Prog.zoom Ext2State.dev (fun s d => { s with dev := d }) x

/-- `*context`, which must not have been freed. -/
def context : Ext2M Ext2Context := fun s =>
  match s.context with
  | some c => .ok (c,s)
  | none => .error .undefined

def setContext (c : Option Ext2Context) : Ext2M Unit := Prog.modify fun s => { s with context := c }

def setSysbuf (b : Sector) : Ext2M Unit :=
  Prog.modify fun s => { s with context := s.context.map fun c => { c with sysbuf := b } }

/-- `*fe`, which must not have been freed. -/
def file (fe : ℕ) : Ext2M FileEnt := fun s =>
  match s.files fe with
  | some f => .ok (f,s)
  | none => .error .undefined

def storeFile (fe : ℕ) (f : Option FileEnt) : Ext2M Unit :=
  Prog.modify fun s => { s with files := Function.update s.files fe f }

def updateFile (fe : ℕ) (u : FileEnt → FileEnt) : Ext2M Unit :=
  Prog.modify fun s => { s with files := Function.update s.files fe ((s.files fe).map u) }

/-- `block_read(b, context->sysbuf)`, its result being ignored everywhere. -/
def readSysbuf (E : Env) (b : ℕ) : Ext2M Unit := do
  match ← onDevice (Device.blockRead E b) with
  | some d => setSysbuf d
  | none => pure ()

/-- `block_read(b, fe->buffer)`; `true` is the nonzero result. -/
def readBuffer (E : Env) (fe b : ℕ) : Ext2M Bool := do
  match ← onDevice (Device.blockRead E b) with
  | some d => updateFile fe (fun f => { f with buffer := d }); pure false
  | none => pure true

def writeBlock (E : Env) (o : Origin) (b : ℕ) (data : Sector) : Ext2M Bool :=
  onDevice (Device.blockWrite E o b data)

/-- `time(NULL)` -/
def time (E : Env) : Ext2M ℤ := onDevice (Device.time E)

/-- `x << k` on `uint32_t`. -/
def shl32 (x k : ℕ) : Ext2M ℕ := if k < 32 then pure (u32 (x * 2^k)) else stop .arithmetic

/-- `1 << k` on `int`, which overflows for 31. -/
def oneShl (k : ℕ) : Ext2M ℕ :=
  if k < 31 then pure (2^k) else if k = 31 then stop .undefined else stop .arithmetic

/-- `s_log_block_size + n` -/
def logPlus (c : Ext2Context) (n : ℕ) : ℕ := u32 (c.superblock.sLogBlockSize + n)

/-- A divisor that must not be zero. -/
def divisor (n : ℕ) : Ext2M ℕ := if n = 0 then stop .arithmetic else pure n

/-! ### Flushing -/

/-- `ext2_flush` -/
def flush (E : Env) (fe : ℕ) : Ext2M ℤ := do
  let f ← file fe
  if f.flags.dirty then
    if f.sector = 0 then pure 0
    else if ← writeBlock E .ext2Flush f.sector f.buffer then pure (-1)
    else
      updateFile fe fun f => { f with flags.dirty := false }
      pure 0
  else pure 0

/-- The block of the inode table an inode lies in and its offset there; reads the block group
descriptor and then that block into `sysbuf`. -/
def loadInodeBlock (E : Env) (inode : ℤ) : Ext2M (ℕ × ℕ) := do
  let c ← context
  let perGroup ← divisor c.superblock.sInodesPerGroup
  let blockGroup := u32OfInt (inode - 1) / perGroup
  let inodeIndex := u32OfInt (inode - 1) % perGroup
  let bgBlock ← shl32 (u32 (c.superblockBlock + 1)) (logPlus c 1)
  let bgBlock := u32 (bgBlock + u32 (blockGroup * 32) / blockSize)
  readSysbuf E (u32 (bgBlock + c.partStart))
  let table := (← context).sysbuf.le32 (u32 (blockGroup * 32) % blockSize + 8)
  let inodeBlock ← shl32 table (logPlus c 1)
  let perBlock ← divisor (blockSize / (← divisor c.superblock.sInodeSize))
  let inodeBlock := u32 (inodeBlock + inodeIndex / perBlock)
  readSysbuf E (u32 (inodeBlock + c.partStart))
  let off := inodeIndex % perBlock * c.superblock.sInodeSize
  if blockSize < off + Inode.length then stop .undefined
  else pure (u32 (inodeBlock + c.partStart),off)

/-- `ext2_flush_inode` -/
def flushInode (E : Env) (fe : ℕ) : Ext2M ℤ := do
  let f ← file fe
  let c ← context
  let _ ← divisor c.superblock.sInodesPerGroup
  if f.flags.fsDirty then
    let _ ← flush E fe
    let (block,off) ← loadInodeBlock E f.inodeNumber
    let f ← file fe
    setSysbuf ((← context).sysbuf.splice off Inode.length f.inode.bytes.get)
    let _ ← writeBlock E .ext2FlushInode block (← context).sysbuf
    updateFile fe fun f => { f with flags.fsDirty := false }
    pure 0
  else pure 0

/-- The loop of `ext2_flush_superblock`. -/
def flushSuperblockLoop (E : Env) : List ℕ → Ext2M Unit
  | [] => pure ()
  | b :: rest => do
    let c ← context
    let sb := c.superblock.setBlockGroupNr b
    setContext (some { c with
      superblock := sb
      sysbuf := c.sysbuf.splice 0 Superblock.size sb.bytes.get })
    let block ← shl32 b (logPlus c 1)
    let _ ← writeBlock E .ext2FlushSuperblock (u32 (block + c.partStart)) (← context).sysbuf
    flushSuperblockLoop E rest

/-- `ext2_flush_superblock` -/
def flushSuperblock (E : Env) : Ext2M Unit := do
  let c ← context
  setSysbuf .zero
  flushSuperblockLoop E c.superblockBlocks

/-- `ext2_update_atime` -/
def updateAtime (E : Env) (fe : ℕ) : Ext2M Unit := do
  let now ← time E
  updateFile fe fun f => { f with inode := f.inode.setAtime now, flags.fsDirty := true }

/-- `ext2_update_mtime` -/
def updateMtime (E : Env) (fe : ℕ) : Ext2M Unit := do
  let now ← time E
  updateFile fe fun f => { f with inode := f.inode.setMtime now, flags.fsDirty := true }

/-! ### Reading -/

/-- `ext2_open_inode` -/
def openInode (E : Env) (fe : ℕ) (inode : ℤ) : Ext2M ℤ := do
  let (_,off) ← loadInodeBlock E inode
  let c ← context
  updateFile fe fun f =>
    { f with inode := ⟨Sector.zero.splice 0 Inode.length fun k => c.sysbuf.get (off + k)⟩ }
  let f ← file fe
  let sector := u32 ((← shl32 (f.inode.iBlock 0) (logPlus c 1)) + c.partStart)
  let _ ← readBuffer E fe sector
  let perBlock ← oneShl (logPlus c 1)
  updateFile fe fun f => { f with
    inodeNumber := inode
    flags := ⟨true,false,false,false,false⟩
    cursor := 0
    sector := sector
    fileSector := 0
    sectorsLeft := perBlock - 1
    blockIndex := 0 }
  pure 0

/-- `ext2_next_block`: `true` when there is no further block. -/
def nextBlock (E : Env) (fe : ℕ) : Ext2M Bool := do
  let f ← file fe
  if f.blockIndex < 11 then
    updateFile fe fun f => { f with blockIndex := f.blockIndex + 1 }
    let f ← file fe
    if 0 < f.inode.iBlock f.blockIndex then
      let c ← context
      let bytes ← oneShl (logPlus c 10)
      let sector := u32 ((← shl32 (f.inode.iBlock f.blockIndex) (logPlus c 1)) + c.partStart)
      updateFile fe fun f => { f with
        sectorsLeft := bytes / blockSize - 1
        sector := sector
        cursor := 0
        fileSector := u32 (f.fileSector + 1) }
      readBuffer E fe sector
    else pure true
  else pure true

/-- `ext2_next_sector` -/
def nextSector (E : Env) (fe : ℕ) : Ext2M Bool := do
  let f ← file fe
  if 0 < f.sectorsLeft then
    updateFile fe fun f => { f with sector := u32 (f.sector + 1) }
    let f ← file fe
    let _ ← readBuffer E fe f.sector
    updateFile fe fun f => { f with
      sectorsLeft := f.sectorsLeft - 1
      cursor := 0
      fileSector := u32 (f.fileSector + 1) }
    pure false
  else nextBlock E fe

/-- The logical position of a file. -/
def position (f : FileEnt) : ℕ := u32 (f.cursor + u32 (f.fileSector * blockSize))

/-- The loop of `ext2_read`: the bytes it delivers for at most `n` more. -/
def readLoop (E : Env) (fe : ℕ) : ℕ → Ext2M (List UInt8)
  | 0 => pure []
  | n+1 => do
    let f ← file fe
    if f.inode.iSize ≤ position f then pure []
    else if blockSize ≤ f.cursor then stop .undefined
    else
      updateFile fe fun f => { f with cursor := f.cursor + 1 }
      let _ ← (if f.cursor + 1 = blockSize then nextSector E fe else pure false)
      let bytes ← readLoop E fe n
      pure (f.buffer.get f.cursor :: bytes)

/-- `ext2_read`, with the bytes delivered; a handle may be `NULL`. -/
def read (E : Env) (fe : Option ℕ) (count : ℕ) (rerrno : ℤ) : Ext2M (ℤ × ℤ × List UInt8) :=
  match fe with
  | none => pure (-1,eBadf,[])
  | some fe => do
    let bytes ← readLoop E fe count
    let _ ← (if 0 < bytes.length then updateAtime E fe else pure ())
    pure (i32 bytes.length,rerrno,bytes)

/-! ### Seeking and writing -/

/-- The position a seek asks for. -/
def target (f : FileEnt) (ptr : ℤ) : Whence → ℕ
  | .set => u32OfInt ptr
  | .cur => u32OfInt (f.fileSector * blockSize + f.cursor + ptr)
  | .end_ => u32OfInt (f.inode.iSize + ptr)

/-- `ext2_lseek` -/
def lseek (E : Env) (fe : Option ℕ) (ptr : ℤ) (dir : Whence) : Ext2M (ℤ × ℤ) :=
  match fe with
  | none => pure (ptr - 1,eBadf)
  | some fe => do
    let f ← file fe
    let oldPos := position f
    let newPos := target f ptr dir
    if oldPos = newPos then pure (i32 oldPos,0)
    else if f.inode.iSize < newPos then pure (ptr - 1,0)
    else if oldPos / blockSize = newPos / blockSize then
      updateFile fe fun f => { f with cursor := newPos % blockSize }
      pure (i32 newPos,0)
    else
      let c ← context
      let bytes ← oneShl (logPlus c 10)
      if newPos / bytes = oldPos / bytes then
        let _ ← flush E fe
        updateFile fe fun f => { f with
          fileSector := newPos / blockSize
          sector := u32 (f.sector + newPos / blockSize + 2^32 - oldPos / blockSize)
          sectorsLeft := u32 (f.sectorsLeft + newPos / blockSize + 2^32 - oldPos / blockSize)
          cursor := newPos % blockSize }
        let f ← file fe
        if ← readBuffer E fe f.sector then pure (ptr - 1,0) else pure (i32 newPos,0)
      else
        let _ ← flush E fe
        let block := newPos / bytes
        if 11 < block then pure (ptr - 1,0)
        else
          let newSec := (newPos - block * bytes) / blockSize
          let perBlock ← oneShl (logPlus c 1)
          updateFile fe fun f => { f with
            blockIndex := block
            fileSector := newPos / blockSize
            cursor := newPos % blockSize
            sector := u32 (f.inode.iBlock block * perBlock + c.partStart + newSec)
            sectorsLeft := u32 (perBlock + 2^32 - newSec - 1) }
          let f ← file fe
          if ← readBuffer E fe f.sector then pure (ptr - 1,0) else pure (i32 newPos,0)

/-- The loop of `ext2_write`; `true` when there is no next sector. -/
def writeLoop (E : Env) (fe : ℕ) : List UInt8 → Ext2M Bool
  | [] => pure false
  | b :: bs => do
    let f ← file fe
    if blockSize ≤ f.cursor then stop .undefined
    else
      updateFile fe fun f =>
        if position f = f.inode.iSize then
          { f with inode := f.inode.setSize (u32 (f.inode.iSize + 1)), flags.dirty := true }
        else f
      updateFile fe fun f => { f with buffer := f.buffer.set f.cursor b, cursor := f.cursor + 1 }
      if ← (if f.cursor + 1 = blockSize then nextSector E fe else pure false) then pure true
      else writeLoop E fe bs

/-- `ext2_write` -/
def write (E : Env) (fe : Option ℕ) (bytes : List UInt8) (rerrno : ℤ) : Ext2M (ℤ × ℤ) :=
  match fe with
  | none => pure (-1,eBadf)
  | some fe => do
    let f ← file fe
    if f.flags.write = false then pure (-1,eBadf)
    else
      let (r,rerrno) ← (if f.flags.append then lseek E (some fe) 0 .end_ else pure (0,rerrno))
      if f.flags.append ∧ r = -1 then pure (-1,rerrno)
      else if ← writeLoop E fe bytes then pure (-1,eIo)
      else
        let _ ← (if 0 < bytes.length then updateMtime E fe else pure ())
        pure (i32 bytes.length,rerrno)

/-! ### Directories and paths -/

/-- `ext2_readdir`: whether the static entry was filled, and `*rerrno`. -/
def readdir (E : Env) (fe : Option ℕ) (rerrno : ℤ) : Ext2M (Bool × ℤ) := do
  let (r,rerrno,ino) ← read E fe 4 rerrno
  if r < 4 then pure (false,rerrno)
  else
    let (r,rerrno,recLen) ← read E fe 2 rerrno
    if r < 2 then pure (false,rerrno)
    else
      let (r,rerrno,nameLen) ← read E fe 1 rerrno
      if r < 1 then pure (false,rerrno)
      else
        let (r,rerrno,_) ← read E fe 1 rerrno
        if r < 1 then pure (false,rerrno)
        else
          let dIno := i32 ((Sector.ofBytes ino).le32 0)
          Prog.modify fun s => { s with de := { s.de with dIno := dIno } }
          if 0 < dIno then
            let nameLen := (nameLen.getD 0 0).toNat
            let (_,rerrno,name) ← read E fe nameLen rerrno
            Prog.modify fun s => { s with de := { s.de with dName := fun k =>
              if k = nameLen then 0 else if k < name.length then name.getD k 0 else s.de.dName k } }
            let (_,rerrno) ← lseek E fe ((Sector.ofBytes recLen).le16 0 - 8 - nameLen) .cur
            pure (true,rerrno)
          else pure (false,rerrno)

/-- The search of `ext2_lookup_path` for one element; `none` when the directory ends. -/
def findEntry (E : Env) (fe : ℕ) (element : List UInt8) : ℕ → ℤ → Ext2M (Option ℤ × ℤ)
  | 0, _ => stop .fuel
  | n+1, rerrno => do
    let (found,rerrno) ← readdir E (some fe) rerrno
    if found then
      let de := (← get).de
      if de.name = element then pure (some de.dIno,rerrno) else findEntry E fe element n rerrno
    else pure (none,rerrno)

/-- The loop of `ext2_lookup_path` over the elements that are left. -/
def lookupLoop (E : Env) (fe : ℕ) : List (List UInt8) → ℤ → ℤ → Ext2M (ℤ × ℤ)
  | [], ino, rerrno => do
    let r ← openInode E fe ino
    pure (r,rerrno)
  | element :: rest, ino, rerrno => do
    let _ ← openInode E fe ino
    match ← findEntry E fe element E.fuel rerrno with
    | (none,_) => pure (-1,eNoent)
    | (some ino,rerrno) => lookupLoop E fe rest ino rerrno

/-- `ext2_lookup_path` -/
def lookupPath (E : Env) (fe : ℕ) (path : List UInt8) (rerrno : ℤ) : Ext2M (ℤ × ℤ) :=
  lookupLoop E fe ((pathElements (path.take (maxExt2PathLen - 1))).take maxPathLevels) ext2RootIno rerrno

/-! ### Files -/

/-- The access bits `ext2_open` adds after the lookup. -/
def access (flags : OpenFlags) (f : Ext2Flags) : Ext2Flags :=
  { f with
    read := f.read || flags.rdwr || !flags.wronly
    write := f.write || flags.rdwr || flags.wronly
    append := f.append || flags.append }

/-- Free the entry and return `NULL`. -/
def refuse (fe : ℕ) (e : ℤ) : Ext2M (Option ℕ × ℤ) := do
  storeFile fe none
  pure (none,e)

/-- `ext2_open` -/
def openPath (E : Env) (name : List UInt8) (flags : OpenFlags) (rerrno : ℤ) :
    Ext2M (Option ℕ × ℤ) := do
  let fe := (← get).nextFile
  Prog.modify fun s => { s with nextFile := fe + 1 }
  storeFile fe (some .zero)
  let (i,rerrno) ← lookupPath E fe name rerrno
  updateFile fe fun f => { f with flags := access flags f.flags }
  let c ← context
  if i = -1 ∧ rerrno = eNoent then
    if flags.creat = false then refuse fe eNoent
    else if c.readOnly ≠ 0 then refuse fe eRofs
    else refuse fe rerrno
  else if i = 0 then
    if flags.creat ∨ flags.excl then refuse fe eExist
    else if flags.wronly = false ∧ flags.rdwr = false then
      updateFile fe fun f => { f with fileSector := 0 }
      pure (some fe,rerrno)
    else if c.readOnly ≠ 0 then refuse fe eRofs
    else
      let f ← file fe
      if f.inode.isDirectory then refuse fe eIsdir
      else if flags.trunc then refuse fe rerrno
      else
        updateFile fe fun f => { f with fileSector := 0 }
        pure (some fe,rerrno)
  else refuse fe rerrno

/-- `ext2_close` -/
def close (E : Env) (fe : Option ℕ) (rerrno : ℤ) : Ext2M (ℤ × ℤ) :=
  match fe with
  | none => pure (-1,eBadf)
  | some fe => do
    let f ← file fe
    if ← (if f.flags.dirty then do pure ((← flush E fe) != 0) else pure false) then pure (-1,eIo)
    else
      let f ← file fe
      if ← (if f.flags.fsDirty then do pure ((← flushInode E fe) != 0) else pure false) then
        pure (-1,eIo)
      else
        storeFile fe none
        pure (0,rerrno)

/-! ### Mounting -/

/-- `is_power`; the loop ends when the division leaves a remainder. -/
def isPower : ℕ → ℕ → ℕ → Ext2M Bool
  | 0, _, _ => stop .fuel
  | n+1, x, ofy => do
    let d ← divisor ofy
    if x % d = 0 then isPower n (x / d) ofy else pure (decide (x = 1))

/-- Whether `ext2_mount` takes a block group for one with a copy of the superblock. -/
def hasBackup (E : Env) (i : ℕ) : Ext2M Bool := do
  if i = 0 ∨ i = 1 then pure true
  else if ← isPower E.fuel 3 i then pure true
  else if ← isPower E.fuel 5 i then pure true
  else isPower E.fuel 7 i

/-- The block groups among `i, …, i+n-1` with a copy of the superblock. -/
def backupGroups (E : Env) : ℕ → ℕ → Ext2M (List ℕ)
  | 0, _ => pure []
  | n+1, i => do
    let b ← hasBackup E i
    let rest ← backupGroups E n (i+1)
    pure (if b then i :: rest else rest)

/-- `ext2_mount` -/
def mount (E : Env) (partStart : ℕ) : Ext2M ℤ := do
  let garbage ← onDevice (Device.junk E)
  let block ← onDevice (Device.blockRead E (u32 (partStart + 2)))
  -- a failing read leaves the fresh context as the heap had it
  let sysbuf := block.getD fun i => garbage i
  let sb : Superblock := ⟨Sector.zero.splice 0 Superblock.size sysbuf.get⟩
  let superblockBlock := if sb.sLogBlockSize = 0 then 1 else 0
  let sparse := sb.sRevLevel = 1 ∧ sb.sFeatureRoCompat &&& 1 ≠ 0
  let perGroup ← divisor sb.sBlocksPerGroup
  let groups := sb.sBlocksCount / perGroup + if sb.sBlocksCount % perGroup ≠ 0 then 1 else 0
  let copies ← (if sparse then backupGroups E groups 0 else pure (List.range groups))
  let now ← time E
  setContext (some {
    partStart := partStart
    superblock := (sb.setMtime now).setMntCount (sb.sMntCount + 1)
    sparse := sparse
    sysbuf := sysbuf
    superblockBlock := superblockBlock
    readOnly := E.deviceReadOnly
    numBlockgroups := groups
    superblockBlocks := copies.map fun i => u32 (i * sb.sBlocksPerGroup + superblockBlock) })
  pure 0

/-- `ext2_umount` -/
def umount (E : Env) : Ext2M ℤ := do
  flushSuperblock E
  setContext none
  pure 0

end Ext2

end Gristle
