import Gristle.Lookup

/-! The calls of the FAT driver. A descriptor number is a natural number, as the calls check it;
every call returns its result together with `*rerrno`. -/
namespace Gristle
open Prog (get stop)

/-- The bits of the second argument of `fat_open`. -/
structure OpenFlags where
  wronly : Bool
  rdwr : Bool
  creat : Bool
  excl : Bool
  trunc : Bool
  append : Bool
  deriving DecidableEq, Repr

def oRdonly : OpenFlags := ⟨false,false,false,false,false,false⟩
def oWronly : OpenFlags := { oRdonly with wronly := true }
def oRdwr : OpenFlags := { oRdonly with rdwr := true }

/-- `mode & S_IWUSR` -/
def ownerMayWrite (mode : ℕ) : Bool := mode &&& 0o200 != 0

/-! ### `fat_open` and `fat_close` -/

/-- `fat_get_next_file` among the slots `j, …, j+n-1`. -/
def nextFileLoop : ℕ → ℕ → FatM (Option Fd)
  | 0, _ => pure none
  | n+1, j =>
    if h : j < maxOpenFiles then do
      if (← file ⟨j,h⟩).flags.open_ then nextFileLoop n (j+1)
      else
        updateFile ⟨j,h⟩ fun f => { f with flags := .justOpen }
        pure (some ⟨j,h⟩)
    else pure none

/-- `fat_get_next_file` -/
def fatGetNextFile : FatM (Option Fd) := nextFileLoop maxOpenFiles 0

/-- The access bits `fat_open` adds to the flags after the lookup. -/
def Flags.access (flags : OpenFlags) (f : Flags) : Flags :=
  { f with
    read := f.read || flags.rdwr || !flags.wronly
    write := f.write || flags.rdwr || flags.wronly
    append := f.append || flags.append }

/-- The fields of a descriptor for a file that does not exist yet. -/
def FileS.create (mode : ℕ) (now : ℤ) (f : FileS) : FileS :=
  { f with
    sector := 0
    cluster := 0
    sectorsLeft := 0
    cursor := 0
    error := 0
    attributes := if ownerMayWrite mode then attArc else attArc ||| attRo
    size := 0
    fullFirstCluster := 0
    entrySector := 0
    entryNumber := 0
    fileSector := 0
    created := now
    modified := 0
    accessed := 0
    buffer := Sector.zero }

/-- The fields `fat_open` resets when it truncates; the directory entry is not touched here. -/
def FileS.truncate (f : FileS) : FileS :=
  { f with
    size := 0
    fullFirstCluster := 0
    sector := 0
    cluster := 0
    sectorsLeft := 0
    fileSector := 0 }

/-- Give the slot back and fail. -/
def refuse (fd : Fd) (e : ℤ) : FatM (ℤ × ℤ) := do
  updateFile fd fun f => { f with flags := .none }
  pure (-1,e)

/-- The `O_TRUNC` branch of `fat_open`. -/
def truncateFile (E : Env) (fd : Fd) : FatM Unit := do
  let f ← file fd
  let _ ← fatFreeClusters E f.fullFirstCluster
  updateFile fd FileS.truncate
  let now ← time E
  updateFile fd fun f => { f with created := now }
  let now ← time E
  updateFile fd fun f => { f with modified := now, flags.fsDirty := true }

/-- `fat_open` after a lookup that found the path. -/
def openExisting (E : Env) (fd : Fd) (flags : OpenFlags) (rerrno : ℤ) : FatM (ℤ × ℤ) := do
  let g ← fatfs
  let f ← file fd
  if flags.creat ∧ flags.excl then refuse fd eExist
  else if ¬ flags.wronly ∧ ¬ flags.rdwr then
    updateFile fd fun f => { f with fileSector := 0 }
    pure (fd.val,rerrno)
  else if g.readOnly ≠ 0 then refuse fd eRofs
  else if f.attributes &&& attRo != 0 then refuse fd eAcces
  else if f.isSubdir then
    if rerrno = fatInternalCall then
      updateFile fd fun f => { f with fileSector := 0 }
      pure (fd.val,rerrno)
    else refuse fd eIsdir
  else
    let _ ← (if flags.trunc then truncateFile E fd else pure ())
    updateFile fd fun f => { f with fileSector := 0 }
    pure (fd.val,rerrno)

/-- `fat_open` after a lookup that missed only the last element. -/
def openMissing (E : Env) (fd : Fd) (flags : OpenFlags) (mode : ℕ) : FatM (ℤ × ℤ) := do
  let g ← fatfs
  if ¬ flags.creat then refuse fd eNoent
  else if g.readOnly ≠ 0 then refuse fd eRofs
  else
    let now ← time E
    updateFile fd (FileS.create mode now)
    pure (fd.val,0)

/-- `fat_open` -/
def fatOpen (E : Env) (name : List UInt8) (flags : OpenFlags) (mode : ℕ) (rerrno : ℤ) :
    FatM (ℤ × ℤ) := do
  match ← fatGetNextFile with
  | none => pure (-1,eNfile)
  | some fd =>
    let (i,rerrno) ← fatLookupPath E fd name rerrno
    updateFile fd fun f => { f with flags := f.flags.access flags }
    if i = -1 ∧ rerrno = eNoent then openMissing E fd flags mode
    else if i = -1 ∧ rerrno = badPath then refuse fd eNoent
    else if i = 0 then openExisting E fd flags rerrno
    else refuse fd rerrno

/-- The check of a descriptor number that begins each call on a descriptor. -/
def withFd {α : Type} (fd : ℕ) (bad : α) (x : Fd → FatM α) : FatM α :=
  if h : fd < maxOpenFiles then x ⟨fd,h⟩ else pure bad

/-- `fat_close` on a slot of the table. -/
def closeSlot (E : Env) (fd : Fd) : FatM (ℤ × ℤ) := do
  let f ← file fd
  if f.flags.open_ = false then pure (-1,eBadf)
  else if ← (if f.flags.dirty then do pure ((← fatFlush E fd) != 0) else pure false) then pure (-1,eIo)
  else
    let f ← file fd
    if ← (if f.flags.fsDirty then do pure ((← fatFlushFileinfo E fd) != 0) else pure false) then
      pure (-1,eIo)
    else
      updateFile fd fun f => { f with flags := .none }
      pure (0,0)

/-- `fat_close` -/
def fatClose (E : Env) (fd : ℕ) : FatM (ℤ × ℤ) := withFd fd (-1,eBadf) (closeSlot E)

/-! ### `fat_read` and `fat_write` -/

/-- The logical position `cursor + file_sector * 512` of a descriptor. -/
def FileS.position (f : FileS) : ℕ := u32 (f.cursor + f.fileSector * blockSize)

/-- The loop of `fat_read`: the bytes it delivers for at most `n` more. -/
def readLoop (E : Env) (fd : Fd) : ℕ → FatM (List UInt8)
  | 0 => pure []
  | n+1 => do
    let f ← file fd
    if f.isSubdir = false ∧ f.size ≤ f.position then pure []
    else if ← (if f.cursor = blockSize then fatNextSector E fd else pure false) then pure []
    else
      let f ← file fd
      updateFile fd fun f => { f with cursor := f.cursor + 1 }
      let bytes ← readLoop E fd n
      pure (f.buffer.get f.cursor :: bytes)

/-- `fat_read` on a slot of the table, with the bytes delivered. -/
def readSlot (E : Env) (count : ℕ) (fd : Fd) : FatM (ℤ × ℤ × List UInt8) := do
  let f ← file fd
  if f.flags.open_ = false ∨ f.flags.read = false then pure (-1,eBadf,[])
  else
    let bytes ← readLoop E fd count
    let _ ← (if 0 < bytes.length then fatUpdateAtime E fd else pure ())
    pure (i32 bytes.length,0,bytes)

/-- `fat_read` -/
def fatRead (E : Env) (fd count : ℕ) : FatM (ℤ × ℤ × List UInt8) :=
  withFd fd (-1,eBadf,[]) (readSlot E count)

inductive Whence
  | set
  | cur
  | end_
  deriving DecidableEq, Repr

/-- The position a seek asks for, as `unsigned int`. -/
def FileS.target (f : FileS) (ptr : ℤ) : Whence → ℕ
  | .set => u32OfInt ptr
  | .cur => u32OfInt (f.fileSector * blockSize + f.cursor + ptr)
  | .end_ => u32OfInt (f.size + ptr)

/-- The walk of `fat_lseek` along the chain; a failing step stores -1 as the cluster. -/
def walkClusters (E : Env) (fd : Fd) : ℕ → ℤ → FatM ℤ
  | 0, rerrno => pure rerrno
  | n+1, _ => do
    let (c,rerrno) ← fatNextCluster E fd
    updateFile fd fun f => { f with cluster := u32OfInt c }
    walkClusters E fd n rerrno

/-- The part of `fat_lseek` that starts again from the first cluster. -/
def seekChain (E : Env) (fd : Fd) (ptr : ℤ) (newPos : ℕ) : FatM (ℤ × ℤ) := do
  let g ← fatfs
  let fileCluster := newPos / (g.sectorsPerCluster * blockSize)
  updateFile fd fun f => { f with cluster := f.fullFirstCluster }
  let rerrno ← walkClusters E fd fileCluster 0
  let newSec := (newPos - fileCluster * g.sectorsPerCluster * blockSize) / blockSize
  updateFile fd fun f => { f with
    fileSector := newPos / blockSize
    cursor := newPos % blockSize
    sector := u32 (f.cluster * g.sectorsPerCluster + g.cluster0 + newSec)
    sectorsLeft := u8 (g.sectorsPerCluster + 2^8 - newSec - 1) }
  let f ← file fd
  if ← readBuffer E fd f.sector then pure (ptr - 1,rerrno)
  else pure (i32 newPos,rerrno)

/-- `fat_lseek` on a slot of the table. -/
def seekSlot (E : Env) (ptr : ℤ) (dir : Whence) (fd : Fd) : FatM (ℤ × ℤ) := do
  let f ← file fd
  if f.flags.open_ = false then pure (ptr - 1,eBadf)
  else
    let _ ← fatFlush E fd
    let f ← file fd
    let g ← fatfs
    let oldPos := f.position
    let newPos := f.target ptr dir
    if f.size < newPos ∧ f.isSubdir = false then pure (ptr - 1,0)
    else
      let _ ← (if f.cursor = blockSize then fatNextSector E fd else pure false)
      if oldPos / blockSize = newPos / blockSize then
        updateFile fd fun f => { f with cursor := newPos % blockSize }
        pure (i32 newPos,0)
      else if newPos / (g.sectorsPerCluster * blockSize) =
          oldPos / (g.sectorsPerCluster * blockSize) then
        updateFile fd fun f => { f with
          fileSector := newPos / blockSize
          sector := u32 (f.sector + newPos / blockSize + 2^32 - oldPos / blockSize)
          sectorsLeft := u8 (f.sectorsLeft + oldPos / blockSize + 2^32 - newPos / blockSize)
          cursor := newPos % blockSize }
        let f ← file fd
        if ← readBuffer E fd f.sector then pure (ptr - 1,0)
        else pure (i32 newPos,0)
      else seekChain E fd ptr newPos

/-- `fat_lseek` -/
def fatLseek (E : Env) (fd : ℕ) (ptr : ℤ) (dir : Whence) : FatM (ℤ × ℤ) :=
  withFd fd (ptr - 1,eBadf) (seekSlot E ptr dir)

/-- The loop of `fat_write`; `true` when there is no sector for the next byte. -/
def writeLoop (E : Env) (fd : Fd) : List UInt8 → FatM Bool
  | [] => pure false
  | c :: cs => do
    let f ← file fd
    if ← (if f.cursor = blockSize then fatNextSector E fd else pure false) then pure true
    else
      updateFile fd fun f =>
        if f.isSubdir = false ∧ f.position = f.size then
          { f with size := u32 (f.size + 1), flags.fsDirty := true }
        else f
      updateFile fd fun f => { f with
        buffer := f.buffer.set f.cursor c
        cursor := f.cursor + 1
        flags.dirty := true }
      writeLoop E fd cs

/-- `fat_write` on a slot of the table. -/
def writeSlot (E : Env) (bytes : List UInt8) (fd : Fd) : FatM (ℤ × ℤ) := do
  let f ← file fd
  if f.flags.open_ = false ∨ f.flags.write = false then pure (-1,eBadf)
  else
    let (_,rerrno) ← (if f.flags.append then seekSlot E 0 .end_ fd else pure (0,0))
    if ← writeLoop E fd bytes then pure (-1,eIo)
    else
      let _ ← (if 0 < bytes.length then fatUpdateMtime E fd else pure ())
      pure (i32 bytes.length,rerrno)

/-- `fat_write` -/
def fatWrite (E : Env) (fd : ℕ) (bytes : List UInt8) : FatM (ℤ × ℤ) :=
  withFd fd (-1,eBadf) (writeSlot E bytes)

/-! ### Listing -/

/-- What `fat_fstat` stores. -/
structure Stat where
  isDir : Bool
  size : ℕ
  atime : ℤ
  mtime : ℤ
  ctime : ℤ

/-- `fat_fstat` on a slot of the table. -/
def fstatSlot (fd : Fd) : FatM (ℤ × ℤ × Option Stat) := do
  let f ← file fd
  if f.flags.open_ = false then pure (-1,eBadf,none)
  else pure (0,0,some ⟨f.isSubdir,f.size,f.accessed,f.modified,f.created⟩)

/-- `fat_fstat` -/
def fatFstat (fd : ℕ) : FatM (ℤ × ℤ × Option Stat) := withFd fd (-1,eBadf,none) fstatSlot

/-- `struct dirent` -/
structure Dirent where
  dIno : ℤ
  dName : List UInt8

/-- A record of 32 bytes read as a directory entry. -/
def direntOfBytes (bytes : List UInt8) : DirentS :=
  (Sector.zero.splice 0 32 fun i => bytes.getD i 0).dirent 0

/-- The entries `fat_get_next_dirent` passes over. -/
def DirentS.isSkipped (d : DirentS) : Bool :=
  d.attributes == 0x0F || d.attributes &&& attVol != 0 || d.filename 0 == 0xE5

/-- The loop of `fat_get_next_dirent`. -/
def nextDirentLoop (E : Env) (fd : ℕ) : ℕ → FatM (ℤ × ℤ × Option Dirent)
  | 0 => stop .fuel
  | n+1 => do
    let (r,rerrno,bytes) ← fatRead E fd 32
    if r < 32 then pure (-1,rerrno,none)
    else
      let de := direntOfBytes bytes
      if de.filename 0 = 0 then pure (-1,0,none)
      else if de.isSkipped then nextDirentLoop E fd n
      else
        let g ← fatfs
        pure (0,rerrno,some ⟨i32 (de.cluster g),fatnameToStr de.nameByte⟩)

/-- `fat_get_next_dirent` -/
def fatGetNextDirent (E : Env) (fd : ℕ) : FatM (ℤ × ℤ × Option Dirent) :=
  nextDirentLoop E fd E.fuel

/-! ### Removing entries -/

/-- `fat_delete`; the results of the transfers are ignored. -/
def fatDelete (E : Env) (fd : Fd) : FatM Unit := do
  let f ← file fd
  let _ ← readBuffer E fd f.entrySector
  updateFile fd fun f => { f with buffer := f.buffer.set (f.entryNumber * 32) 0xE5 }
  let f ← file fd
  let _ ← writeBlock E .fatDelete f.entrySector f.buffer
  let _ ← fatFreeClusters E f.fullFirstCluster
  updateFile fd fun f => { f with flags := .justOpen }

/-- `fat_unlink` -/
def fatUnlink (E : Env) (path : List UInt8) (rerrno : ℤ) : FatM (ℤ × ℤ) := do
  let (r,rerrno) ← fatOpen E path oRdonly 0o777 rerrno
  if h : 0 ≤ r ∧ r.toNat < maxOpenFiles then
    let fd := Fd.ofInt r h
    let (failed,rerrno,st) ← fstatSlot fd
    match st with
    | none => pure (failed,rerrno)
    | some st =>
      if st.isDir then
        updateFile fd fun f => { f with flags := .justOpen }
        let _ ← closeSlot E fd
        pure (-1,ePerm)
      else
        fatDelete E fd
        let (_,rerrno) ← closeSlot E fd
        pure (0,rerrno)
  else pure (-1,rerrno)

/-- The names `.` and `..`, as `strcmp` compares them. -/
def isDotName (name : List UInt8) : Bool :=
  cString name == [chDot] || cString name == [chDot,chDot]

/-- The loop of `fat_rmdir`: whether an entry other than `.` and `..` is listed. -/
def rmdirLoop (E : Env) (fd : ℕ) : ℕ → ℤ → FatM (Bool × ℤ)
  | 0, _ => stop .fuel
  | n+1, _ => do
    let (r,rerrno,de) ← fatGetNextDirent E fd
    if r ≠ 0 then pure (false,rerrno)
    else if isDotName (de.elim [] Dirent.dName) then rmdirLoop E fd n rerrno
    else pure (true,rerrno)

/-- `fat_rmdir` -/
def fatRmdir (E : Env) (path : List UInt8) (rerrno : ℤ) : FatM (ℤ × ℤ) := do
  let (r,rerrno) ← fatOpen E path oRdonly 0o777 rerrno
  if h : 0 ≤ r ∧ r.toNat < maxOpenFiles then
    let fd := Fd.ofInt r h
    let (nonempty,_) ← rmdirLoop E fd E.fuel rerrno
    if nonempty then
      let _ ← closeSlot E fd
      pure (-1,eNotempty)
    else
      fatDelete E fd
      let (failed,rerrno) ← closeSlot E fd
      if failed ≠ 0 then pure (-1,rerrno) else pure (0,rerrno)
  else pure (-1,rerrno)

/-! ### `fat_mkdir` -/

/-- Split a path into the part before its last slash and the name after it, a trailing slash
being dropped first. Without another slash the C code writes in front of its array. -/
def splitPath (path : List UInt8) : Except Stop (List UInt8 × List UInt8) :=
  let p := if path.getLast? = some chSlash then path.dropLast else path
  let name := (p.reverse.takeWhile (· != chSlash)).reverse
  if chSlash ∈ p then .ok (p.take (p.length - name.length - 1),name) else .error .undefined

/-- The entry of a directory, stamped with six readings of the clock. -/
def stampedDir (E : Env) (filename : Fin 8 → UInt8) (cluster : ℕ) : FatM DirentS := do
  let t₀ ← time E
  let t₁ ← time E
  let t₂ ← time E
  let t₃ ← time E
  let t₄ ← time E
  let t₅ ← time E
  pure {
    filename := filename
    extension := fun _ => chSpace
    attributes := attSubdir ||| attArc
    reserved := 0
    createTimeFine := (t₀ % 2).toNat * 100
    createTime := fatFromUnixTime E t₁
    createDate := fatFromUnixDate E t₂
    accessDate := fatFromUnixDate E t₃
    highFirstCluster := cluster / 2^16 % 2^16
    modifiedTime := fatFromUnixTime E t₄
    modifiedDate := fatFromUnixDate E t₅
    firstCluster := cluster % 2^16
    size := 0 }

/-- The 32 bytes of an entry. -/
def DirentS.bytes (d : DirentS) : List UInt8 := (List.range 32).map d.byte

/-- `fat_mkdir` reads its parent up to the first entry with a zero first byte; `false` when there
is none. -/
def seekEmptyLoop (E : Env) (fd : ℕ) : ℕ → FatM Bool
  | 0 => stop .fuel
  | n+1 => do
    let (r,_,bytes) ← fatRead E fd 32
    if r < 32 then pure false
    else if (direntOfBytes bytes).filename 0 ≠ 0 then seekEmptyLoop E fd n
    else pure true

/-- Give the cluster and the descriptor back. -/
def abandon (E : Env) (fd cluster : ℕ) : FatM (ℤ × ℤ) := do
  let (_,rerrno) ← fatClose E fd
  let _ ← fatFreeClusters E cluster
  pure (-1,rerrno)

/-- The loop of `fat_mkdir` that clears the rest of the new cluster. -/
def writeZeroEntries (E : Env) (fd : ℕ) : ℕ → ℤ → FatM (Bool × ℤ)
  | 0, rerrno => pure (true,rerrno)
  | n+1, _ => do
    let (r,rerrno) ← fatWrite E fd DirentS.zero.bytes
    if r = -1 then pure (false,rerrno) else writeZeroEntries E fd n rerrno

/-- The first eight bytes of a string, padded with spaces. -/
def paddedName (s : List UInt8) (i : Fin 8) : UInt8 := s.getD i chSpace

/-- `fat_mkdir` once the new directory has its entry: fill the cluster behind the path. -/
def mkdirFill (E : Env) (path : List UInt8) (cluster parentCluster : ℕ) (intCall : ℤ) :
    FatM (ℤ × ℤ) := do
  let (fd,intCall) ← fatOpen E path oRdwr 0o777 intCall
  if fd = -1 then pure (-1,intCall)
  else
    let d ← stampedDir E (paddedName [chDot]) cluster
    let (r,rerrno) ← fatWrite E fd.toNat d.bytes
    if r = -1 then pure (-1,rerrno)
    else
      let d := { d with
        filename := paddedName [chDot,chDot]
        highFirstCluster := parentCluster / 2^16 % 2^16
        firstCluster := parentCluster % 2^16 }
      let (r,rerrno) ← fatWrite E fd.toNat d.bytes
      if r = -1 then pure (-1,rerrno)
      else
        let g ← fatfs
        let (ok,rerrno) ← writeZeroEntries E fd.toNat (blockSize * g.sectorsPerCluster / 32 - 2) rerrno
        if ok = false then pure (-1,rerrno)
        else
          let (r,rerrno) ← fatClose E fd.toNat
          if r ≠ 0 then pure (-1,rerrno) else pure (0,rerrno)

/-- `fat_mkdir` with the parent open and its first empty slot just read. -/
def mkdirEnter (E : Env) (path filename : List UInt8) (fd cluster parentCluster : ℕ)
    (intCall : ℤ) : FatM (ℤ × ℤ) := do
  let (r,_) ← fatLseek E fd (-32) .cur
  if r = -33 then abandon E fd cluster
  else
    -- in front of `filename` stands the terminator of the parent's path
    match ← liftStop (strToFatname (some 0) filename) with
    | none =>
      let _ ← fatFreeClusters E cluster
      let _ ← fatClose E fd
      pure (-1,eNametoolong)
    | some dosname =>
      let d ← stampedDir E (paddedName dosname) cluster
      let (r,rerrno) ← fatWrite E fd d.bytes
      if r = -1 then pure (-1,rerrno)
      else
        let (r,rerrno) ← fatWrite E fd DirentS.zero.bytes
        if r = -1 then pure (-1,rerrno)
        else
          let (r,rerrno) ← fatClose E fd
          if r ≠ 0 then pure (-1,rerrno)
          else mkdirFill E path cluster parentCluster intCall

/-- `fat_mkdir` -/
def fatMkdir (E : Env) (path : List UInt8) : FatM (ℤ × ℤ) := do
  if maxPathLen < path.length + 1 then pure (-1,eNametoolong)
  else if path.head? ≠ some chSlash then pure (-1,eNametoolong)
  else
    let (parent,filename) ← liftStop (splitPath path)
    let cluster ← fatGetFreeCluster E
    -- the error value has one digit more, so it is taken for a cluster
    if cluster = 0xFFFFFFF ∨ cluster = 0 then pure (-1,eNospc)
    else
      let parent := if parent = [] then [chSlash] else parent
      let (fd,intCall) ← fatOpen E parent oRdwr 0o777 fatInternalCall
      if h : 0 ≤ fd ∧ fd.toNat < maxOpenFiles then
        let parentCluster := (← file (Fd.ofInt fd h)).fullFirstCluster
        let found ← seekEmptyLoop E fd.toNat E.fuel
        if found = false then abandon E fd.toNat cluster
        else mkdirEnter E path filename fd.toNat cluster parentCluster intCall
      else
        let _ ← fatFreeClusters E cluster
        pure (-1,intCall)

end Gristle
