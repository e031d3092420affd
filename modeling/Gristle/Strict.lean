import Gristle.Run

/-! The driver with no failure discarded. `fat_delete` goes on when its read fails, and the search of
`fat_flush_fileinfo` for an empty slot goes on when it cannot turn to a block; here both stop, and the
calls are those of the driver with these two in place of its own. -/
namespace Gristle.Strict
open Prog (get stop)

/-! ### The directory entry of a descriptor -/

def emptySlotLoop (flushFileinfo : Fd → FatM ℤ) (E : Env) (fd : Fd) : ℕ → FatM ℕ
  | 0 => stop .fuel
  | n+1 => do
    let f ← file fd
    match emptySlot f.buffer 16 0 with
    | some i => pure i
    | none =>
      if ← fatNextSectorWith flushFileinfo E fd then stop .undefined
      else emptySlotLoop flushFileinfo E fd n

def locateEntry (flushFileinfo : Fd → FatM ℤ) (E : Env) (fd : Fd) : FatM Bool := do
  let saved ← file fd
  if saved.entrySector = 0 then
    if ← fatSelectCluster E fd saved.parentCluster then stop .undefined
    else
      let i ← emptySlotLoop flushFileinfo E fd E.fuel
      updateFile fd fun f => { f with
        entrySector := f.sector
        entryNumber := i
        sectorsLeft := saved.sectorsLeft
        fileSector := saved.fileSector
        cursor := saved.cursor
        sector := saved.sector
        cluster := saved.cluster }
      pure false
  else readBuffer E fd saved.entrySector

def flushFileinfoBody (flushFileinfo : Fd → FatM ℤ) (E : Env) (fd : Fd) : FatM ℤ := do
  let f ← file fd
  let g ← fatfs
  if f.fullFirstCluster = g.rootCluster then pure 0
  else if f.entrySector = 0 ∧ f.flags.write = false then pure 0
  else if f.fullFirstCluster = 0 then pure 0
  else
    let de := f.toDirent E ((← junk E) 12)
    if (← fatFlushWith flushFileinfo E fd) ≠ 0 then pure (-1)
    else if ← locateEntry flushFileinfo E fd then pure (-1)
    else
      updateFile fd fun f => { f with buffer := f.buffer.setDirent f.entryNumber de }
      let f ← file fd
      if ← writeBlock E .fatFlushFileinfo f.entrySector f.buffer then pure (-1)
      else if ← readBuffer E fd f.sector then pure (-1)
      else
        updateFile fd fun f => { f with flags.fsDirty := false }
        pure 0

def fatFlushFileinfoAux (E : Env) : ℕ → Fd → FatM ℤ
  | 0, _ => stop .fuel
  | n+1, fd => flushFileinfoBody (fatFlushFileinfoAux E n) E fd

def fatFlushFileinfo (E : Env) (fd : Fd) : FatM ℤ := fatFlushFileinfoAux E E.fuel fd
def fatFlush (E : Env) (fd : Fd) : FatM ℤ := fatFlushWith (fatFlushFileinfo E) E fd
def fatNextCluster (E : Env) (fd : Fd) : FatM (ℤ × ℤ) := fatNextClusterWith (fatFlushFileinfo E) E fd
def fatNextSector (E : Env) (fd : Fd) : FatM Bool := fatNextSectorWith (fatFlushFileinfo E) E fd

/-! ### Calls on a descriptor -/

def closeSlot (E : Env) (fd : Fd) : FatM (ℤ × ℤ) := do
  let f ← file fd
  if f.flags.open_ = false then pure (-1,eBadf)
  else if ← (if f.flags.dirty then do pure ((← fatFlush E fd) != 0) else pure false) then pure (-1,eIo)
  else
    let f ← file fd
    if ← (if f.flags.fsDirty then do pure ((← fatFlushFileinfo E fd) != 0) else pure false) then
      pure (-1,eIo)
    else
      updateFile fd fun f => { f with flags := .none }
      pure (0,0)

def fatClose (E : Env) (fd : ℕ) : FatM (ℤ × ℤ) := withFd fd (-1,eBadf) (closeSlot E)

def readLoop (E : Env) (fd : Fd) : ℕ → FatM (List UInt8)
  | 0 => pure []
  | n+1 => do
    let f ← file fd
    if f.isSubdir = false ∧ f.size ≤ f.position then pure []
    else if ← (if f.cursor = blockSize then fatNextSector E fd else pure false) then pure []
    else
      let f ← file fd
      updateFile fd fun f => { f with cursor := f.cursor + 1 }
      let bytes ← readLoop E fd n
      pure (f.buffer.get f.cursor :: bytes)

def readSlot (E : Env) (count : ℕ) (fd : Fd) : FatM (ℤ × ℤ × List UInt8) := do
  let f ← file fd
  if f.flags.open_ = false ∨ f.flags.read = false then pure (-1,eBadf,[])
  else
    let bytes ← readLoop E fd count
    let _ ← (if 0 < bytes.length then fatUpdateAtime E fd else pure ())
    pure (i32 bytes.length,0,bytes)

def fatRead (E : Env) (fd count : ℕ) : FatM (ℤ × ℤ × List UInt8) :=
  withFd fd (-1,eBadf,[]) (readSlot E count)

def walkClusters (E : Env) (fd : Fd) : ℕ → ℤ → FatM ℤ
  | 0, rerrno => pure rerrno
  | n+1, _ => do
    let (c,rerrno) ← fatNextCluster E fd
    updateFile fd fun f => { f with cluster := u32OfInt c }
    walkClusters E fd n rerrno

def seekChain (E : Env) (fd : Fd) (ptr : ℤ) (newPos : ℕ) : FatM (ℤ × ℤ) := do
  let g ← fatfs
  let fileCluster := newPos / (g.sectorsPerCluster * blockSize)
  updateFile fd fun f => { f with cluster := f.fullFirstCluster }
  let rerrno ← walkClusters E fd fileCluster 0
  let newSec := (newPos - fileCluster * g.sectorsPerCluster * blockSize) / blockSize
  updateFile fd fun f => { f with
    fileSector := newPos / blockSize
    cursor := newPos % blockSize
    sector := u32 (f.cluster * g.sectorsPerCluster + g.cluster0 + newSec)
    sectorsLeft := u8 (g.sectorsPerCluster + 2^8 - newSec - 1) }
  let f ← file fd
  if ← readBuffer E fd f.sector then pure (ptr - 1,rerrno)
  else pure (i32 newPos,rerrno)

def seekSlot (E : Env) (ptr : ℤ) (dir : Whence) (fd : Fd) : FatM (ℤ × ℤ) := do
  let f ← file fd
  if f.flags.open_ = false then pure (ptr - 1,eBadf)
  else
    let _ ← fatFlush E fd
    let f ← file fd
    let g ← fatfs
    let oldPos := f.position
    let newPos := f.target ptr dir
    if f.size < newPos ∧ f.isSubdir = false then pure (ptr - 1,0)
    else
      let _ ← (if f.cursor = blockSize then fatNextSector E fd else pure false)
      if oldPos / blockSize = newPos / blockSize then
        updateFile fd fun f => { f with cursor := newPos % blockSize }
        pure (i32 newPos,0)
      else if newPos / (g.sectorsPerCluster * blockSize) =
          oldPos / (g.sectorsPerCluster * blockSize) then
        updateFile fd fun f => { f with
          fileSector := newPos / blockSize
          sector := u32 (f.sector + newPos / blockSize + 2^32 - oldPos / blockSize)
          sectorsLeft := u8 (f.sectorsLeft + oldPos / blockSize + 2^32 - newPos / blockSize)
          cursor := newPos % blockSize }
        let f ← file fd
        if ← readBuffer E fd f.sector then pure (ptr - 1,0)
        else pure (i32 newPos,0)
      else seekChain E fd ptr newPos

def fatLseek (E : Env) (fd : ℕ) (ptr : ℤ) (dir : Whence) : FatM (ℤ × ℤ) :=
  withFd fd (ptr - 1,eBadf) (seekSlot E ptr dir)

def writeLoop (E : Env) (fd : Fd) : List UInt8 → FatM Bool
  | [] => pure false
  | c :: cs => do
    let f ← file fd
    if ← (if f.cursor = blockSize then fatNextSector E fd else pure false) then pure true
    else
      updateFile fd fun f =>
        if f.isSubdir = false ∧ f.position = f.size then
          { f with size := u32 (f.size + 1), flags.fsDirty := true }
        else f
      updateFile fd fun f => { f with
        buffer := f.buffer.set f.cursor c
        cursor := f.cursor + 1
        flags.dirty := true }
      writeLoop E fd cs

def writeSlot (E : Env) (bytes : List UInt8) (fd : Fd) : FatM (ℤ × ℤ) := do
  let f ← file fd
  if f.flags.open_ = false ∨ f.flags.write = false then pure (-1,eBadf)
  else
    let (_,rerrno) ← (if f.flags.append then seekSlot E 0 .end_ fd else pure (0,0))
    if ← writeLoop E fd bytes then pure (-1,eIo)
    else
      let _ ← (if 0 < bytes.length then fatUpdateMtime E fd else pure ())
      pure (i32 bytes.length,rerrno)

def fatWrite (E : Env) (fd : ℕ) (bytes : List UInt8) : FatM (ℤ × ℤ) :=
  withFd fd (-1,eBadf) (writeSlot E bytes)

/-! ### Listing and removing entries -/

def nextDirentLoop (E : Env) (fd : ℕ) : ℕ → FatM (ℤ × ℤ × Option Dirent)
  | 0 => stop .fuel
  | n+1 => do
    let (r,rerrno,bytes) ← fatRead E fd 32
    if r < 32 then pure (-1,rerrno,none)
    else
      let de := direntOfBytes bytes
      if de.filename 0 = 0 then pure (-1,0,none)
      else if de.isSkipped then nextDirentLoop E fd n
      else
        let g ← fatfs
        pure (0,rerrno,some ⟨i32 (de.cluster g),fatnameToStr de.nameByte⟩)

def fatGetNextDirent (E : Env) (fd : ℕ) : FatM (ℤ × ℤ × Option Dirent) :=
  nextDirentLoop E fd E.fuel

def fatDelete (E : Env) (fd : Fd) : FatM Unit := do
  let f ← file fd
  if ← readBuffer E fd f.entrySector then stop .undefined
  else
    updateFile fd fun f => { f with buffer := f.buffer.set (f.entryNumber * 32) 0xE5 }
    let f ← file fd
    let _ ← writeBlock E .fatDelete f.entrySector f.buffer
    let _ ← fatFreeClusters E f.fullFirstCluster
    updateFile fd fun f => { f with flags := .justOpen }

def fatUnlink (E : Env) (path : List UInt8) (rerrno : ℤ) : FatM (ℤ × ℤ) := do
  let (r,rerrno) ← fatOpen E path oRdonly 0o777 rerrno
  if h : 0 ≤ r ∧ r.toNat < maxOpenFiles then
    let fd := Fd.ofInt r h
    let (failed,rerrno,st) ← fstatSlot fd
    match st with
    | none => pure (failed,rerrno)
    | some st =>
      if st.isDir then
        updateFile fd fun f => { f with flags := .justOpen }
        let _ ← closeSlot E fd
        pure (-1,ePerm)
      else
        fatDelete E fd
        let (_,rerrno) ← closeSlot E fd
        pure (0,rerrno)
  else pure (-1,rerrno)

def rmdirLoop (E : Env) (fd : ℕ) : ℕ → ℤ → FatM (Bool × ℤ)
  | 0, _ => stop .fuel
  | n+1, _ => do
    let (r,rerrno,de) ← fatGetNextDirent E fd
    if r ≠ 0 then pure (false,rerrno)
    else if isDotName (de.elim [] Dirent.dName) then rmdirLoop E fd n rerrno
    else pure (true,rerrno)

def fatRmdir (E : Env) (path : List UInt8) (rerrno : ℤ) : FatM (ℤ × ℤ) := do
  let (r,rerrno) ← fatOpen E path oRdonly 0o777 rerrno
  if h : 0 ≤ r ∧ r.toNat < maxOpenFiles then
    let fd := Fd.ofInt r h
    let (nonempty,_) ← rmdirLoop E fd E.fuel rerrno
    if nonempty then
      let _ ← closeSlot E fd
      pure (-1,eNotempty)
    else
      fatDelete E fd
      let (failed,rerrno) ← closeSlot E fd
      if failed ≠ 0 then pure (-1,rerrno) else pure (0,rerrno)
  else pure (-1,rerrno)

/-! ### `fat_mkdir` -/

def seekEmptyLoop (E : Env) (fd : ℕ) : ℕ → FatM Bool
  | 0 => stop .fuel
  | n+1 => do
    let (r,_,bytes) ← fatRead E fd 32
    if r < 32 then pure false
    else if (direntOfBytes bytes).filename 0 ≠ 0 then seekEmptyLoop E fd n
    else pure true

def abandon (E : Env) (fd cluster : ℕ) : FatM (ℤ × ℤ) := do
  let (_,rerrno) ← fatClose E fd
  let _ ← fatFreeClusters E cluster
  pure (-1,rerrno)

def writeZeroEntries (E : Env) (fd : ℕ) : ℕ → ℤ → FatM (Bool × ℤ)
  | 0, rerrno => pure (true,rerrno)
  | n+1, _ => do
    let (r,rerrno) ← fatWrite E fd DirentS.zero.bytes
    if r = -1 then pure (false,rerrno) else writeZeroEntries E fd n rerrno

def mkdirFill (E : Env) (path : List UInt8) (cluster parentCluster : ℕ) (intCall : ℤ) :
    FatM (ℤ × ℤ) := do
  let (fd,intCall) ← fatOpen E path oRdwr 0o777 intCall
  if fd = -1 then pure (-1,intCall)
  else
    let d ← stampedDir E (paddedName [chDot]) cluster
    let (r,rerrno) ← fatWrite E fd.toNat d.bytes
    if r = -1 then pure (-1,rerrno)
    else
      let d := { d with
        filename := paddedName [chDot,chDot]
        highFirstCluster := parentCluster / 2^16 % 2^16
        firstCluster := parentCluster % 2^16 }
      let (r,rerrno) ← fatWrite E fd.toNat d.bytes
      if r = -1 then pure (-1,rerrno)
      else
        let g ← fatfs
        let (ok,rerrno) ← writeZeroEntries E fd.toNat (blockSize * g.sectorsPerCluster / 32 - 2) rerrno
        if ok = false then pure (-1,rerrno)
        else
          let (r,rerrno) ← fatClose E fd.toNat
          if r ≠ 0 then pure (-1,rerrno) else pure (0,rerrno)

def mkdirEnter (E : Env) (path filename : List UInt8) (fd cluster parentCluster : ℕ)
    (intCall : ℤ) : FatM (ℤ × ℤ) := do
  let (r,_) ← fatLseek E fd (-32) .cur
  if r = -33 then abandon E fd cluster
  else
    match ← liftStop (strToFatname (some 0) filename) with
    | none =>
      let _ ← fatFreeClusters E cluster
      let _ ← fatClose E fd
      pure (-1,eNametoolong)
    | some dosname =>
      let d ← stampedDir E (paddedName dosname) cluster
      let (r,rerrno) ← fatWrite E fd d.bytes
      if r = -1 then pure (-1,rerrno)
      else
        let (r,rerrno) ← fatWrite E fd DirentS.zero.bytes
        if r = -1 then pure (-1,rerrno)
        else
          let (r,rerrno) ← fatClose E fd
          if r ≠ 0 then pure (-1,rerrno)
          else mkdirFill E path cluster parentCluster intCall

def fatMkdir (E : Env) (path : List UInt8) : FatM (ℤ × ℤ) := do
  if maxPathLen < path.length + 1 then pure (-1,eNametoolong)
  else if path.head? ≠ some chSlash then pure (-1,eNametoolong)
  else
    let (parent,filename) ← liftStop (splitPath path)
    let cluster ← fatGetFreeCluster E
    if cluster = 0xFFFFFFF ∨ cluster = 0 then pure (-1,eNospc)
    else
      let parent := if parent = [] then [chSlash] else parent
      let (fd,intCall) ← fatOpen E parent oRdwr 0o777 fatInternalCall
      if h : 0 ≤ fd ∧ fd.toNat < maxOpenFiles then
        let parentCluster := (← file (Fd.ofInt fd h)).fullFirstCluster
        let found ← seekEmptyLoop E fd.toNat E.fuel
        if found = false then abandon E fd.toNat cluster
        else mkdirEnter E path filename fd.toNat cluster parentCluster intCall
      else
        let _ ← fatFreeClusters E cluster
        pure (-1,intCall)

/-! ### Calls -/

def exec (E : Env) : Call → FatM Reply
  | .openPath path flags mode rerrno => do
    let (r,e) ← fatOpen E path flags mode rerrno
    pure { result := r, rerrno := e }
  | .read fd count => do
    let (r,e,bytes) ← fatRead E fd count
    pure { result := r, rerrno := e, bytes := bytes }
  | .write fd bytes => do
    let (r,e) ← fatWrite E fd bytes
    pure { result := r, rerrno := e }
  | .lseek fd ptr dir => do
    let (r,e) ← fatLseek E fd ptr dir
    pure { result := r, rerrno := e }
  | .fstat fd => do
    let (r,e,_) ← fatFstat fd
    pure { result := r, rerrno := e }
  | .getNextDirent fd => do
    let (r,e,de) ← fatGetNextDirent E fd
    pure { result := r, rerrno := e, bytes := de.elim [] Dirent.dName }
  | .close fd => do
    let (r,e) ← fatClose E fd
    pure { result := r, rerrno := e }
  | .unlink path rerrno => do
    let (r,e) ← fatUnlink E path rerrno
    pure { result := r, rerrno := e }
  | .rmdir path rerrno => do
    let (r,e) ← fatRmdir E path rerrno
    pure { result := r, rerrno := e }
  | .mkdir path => do
    let (r,e) ← fatMkdir E path
    pure { result := r, rerrno := e }

end Gristle.Strict
