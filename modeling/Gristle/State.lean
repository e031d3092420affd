import Gristle.Block

/-! The driver's data: the mounted volume, directory entries as they lie on disk and the table of
open files. -/
namespace Gristle

/-! ### Constants -/

abbrev partTypeFat16 : ℕ := 0x06
abbrev partTypeFat32 : ℕ := 0x0B

abbrev maxOpenFiles : ℕ := 4
abbrev maxPathLen : ℕ := 256

abbrev fatErrorCluster : ℕ := 1
abbrev fatEndOfFile : ℕ := 2

abbrev attRo : UInt8 := 0x01
abbrev attVol : UInt8 := 0x08
abbrev attSubdir : UInt8 := 0x10
abbrev attArc : UInt8 := 0x20

abbrev ePerm : ℤ := 1
abbrev eNoent : ℤ := 2
abbrev eIo : ℤ := 5
abbrev eBadf : ℤ := 9
abbrev eAcces : ℤ := 13
abbrev eExist : ℤ := 17
abbrev eNotdir : ℤ := 20
abbrev eIsdir : ℤ := 21
abbrev eNfile : ℤ := 23
abbrev eNospc : ℤ := 28
abbrev eRofs : ℤ := 30
abbrev eNametoolong : ℤ := 36
abbrev eNotempty : ℤ := 39
/-- `GRISTLE_BAD_PATH` -/
abbrev badPath : ℤ := 255
/-- `FAT_INTERNAL_CALL` -/
abbrev fatInternalCall : ℤ := 4242

/-! ### The mounted volume -/

/-- `struct fat_info` without `sysbuf`, which is a field of the whole state. -/
structure FatInfo where
  readOnly : ℕ
  fatEntryLen : ℕ
  endClusterMarker : ℕ
  sectorsPerCluster : ℕ
  cluster0 : ℕ
  activeFatStart : ℕ
  sectorsPerFat : ℕ
  rootLen : ℕ
  rootStart : ℕ
  rootCluster : ℕ
  type : ℕ
  partStart : ℕ
  totalSectors : ℕ
  deriving DecidableEq, Repr

/-! ### Directory entries -/

/-- `direntS` -/
structure DirentS where
  filename : Fin 8 → UInt8
  extension : Fin 3 → UInt8
  attributes : UInt8
  reserved : UInt8
  createTimeFine : ℕ
  createTime : ℕ
  createDate : ℕ
  accessDate : ℕ
  highFirstCluster : ℕ
  modifiedTime : ℕ
  modifiedDate : ℕ
  firstCluster : ℕ
  size : ℕ

namespace DirentS

/-- The packed structure, byte by byte. -/
def byte (d : DirentS) (i : ℕ) : UInt8 :=
  if h : i < 8 then d.filename ⟨i,h⟩
  else if h : i - 8 < 3 then d.extension ⟨i - 8,h⟩
  else match i with
    | 11 => d.attributes
    | 12 => d.reserved
    | 13 => UInt8.ofNat d.createTimeFine
    | 14 => UInt8.ofNat d.createTime
    | 15 => UInt8.ofNat (d.createTime / 2^8)
    | 16 => UInt8.ofNat d.createDate
    | 17 => UInt8.ofNat (d.createDate / 2^8)
    | 18 => UInt8.ofNat d.accessDate
    | 19 => UInt8.ofNat (d.accessDate / 2^8)
    | 20 => UInt8.ofNat d.highFirstCluster
    | 21 => UInt8.ofNat (d.highFirstCluster / 2^8)
    | 22 => UInt8.ofNat d.modifiedTime
    | 23 => UInt8.ofNat (d.modifiedTime / 2^8)
    | 24 => UInt8.ofNat d.modifiedDate
    | 25 => UInt8.ofNat (d.modifiedDate / 2^8)
    | 26 => UInt8.ofNat d.firstCluster
    | 27 => UInt8.ofNat (d.firstCluster / 2^8)
    | 28 => UInt8.ofNat d.size
    | 29 => UInt8.ofNat (d.size / 2^8)
    | 30 => UInt8.ofNat (d.size / 2^16)
    | 31 => UInt8.ofNat (d.size / 2^24)
    | _ => 0

/-- `memset(&d, 0, sizeof(d))` -/
def zero : DirentS := ⟨fun _ => 0,fun _ => 0,0,0,0,0,0,0,0,0,0,0,0⟩

/-- The name as one string of eleven bytes. -/
def nameByte (d : DirentS) (i : ℕ) : UInt8 :=
  if h : i < 8 then d.filename ⟨i,h⟩
  else if h : i - 8 < 3 then d.extension ⟨i - 8,h⟩ else 0

/-- The cluster number a directory entry carries, as the driver reads it on this volume. -/
def cluster (d : DirentS) (g : FatInfo) : ℕ :=
  if g.type = partTypeFat16 then d.firstCluster else d.firstCluster + d.highFirstCluster * 2^16

def isSubdir (d : DirentS) : Bool := d.attributes &&& attSubdir != 0

end DirentS

/-- Slot `i` of a directory block. -/
def Sector.dirent (b : Sector) (i : ℕ) : DirentS where
  filename k := b.get (32*i + k)
  extension k := b.get (32*i + 8 + k)
  attributes := b.get (32*i + 11)
  reserved := b.get (32*i + 12)
  createTimeFine := (b.get (32*i + 13)).toNat
  createTime := b.le16 (32*i + 14)
  createDate := b.le16 (32*i + 16)
  accessDate := b.le16 (32*i + 18)
  highFirstCluster := b.le16 (32*i + 20)
  modifiedTime := b.le16 (32*i + 22)
  modifiedDate := b.le16 (32*i + 24)
  firstCluster := b.le16 (32*i + 26)
  size := b.le32 (32*i + 28)

/-- Store an entry in slot `i`. -/
def Sector.setDirent (b : Sector) (i : ℕ) (d : DirentS) : Sector := b.splice (32*i) 32 d.byte

/-! ### Open files -/

/-- The `FAT_FLAG_*` bits. -/
structure Flags where
  open_ : Bool
  read : Bool
  write : Bool
  append : Bool
  dirty : Bool
  fsDirty : Bool
  deriving DecidableEq, Repr

namespace Flags
def none : Flags := ⟨false,false,false,false,false,false⟩
/-- `FAT_FLAG_OPEN` and no other bit. -/
def justOpen : Flags := ⟨true,false,false,false,false,false⟩
end Flags

/-- `FileS` -/
structure FileS where
  flags : Flags
  buffer : Sector
  sector : ℕ
  cluster : ℕ
  sectorsLeft : ℕ
  cursor : ℕ
  error : ℕ
  filename : Fin 8 → UInt8
  extension : Fin 3 → UInt8
  attributes : UInt8
  size : ℕ
  fullFirstCluster : ℕ
  entrySector : ℕ
  entryNumber : ℕ
  parentCluster : ℕ
  fileSector : ℕ
  created : ℤ
  modified : ℤ
  accessed : ℤ

def FileS.isSubdir (f : FileS) : Bool := f.attributes &&& attSubdir != 0

/-- An index into `file_num`. -/
abbrev Fd := Fin maxOpenFiles

instance : NeZero maxOpenFiles := ⟨by decide⟩

/-- A returned descriptor as an index of the table. -/
abbrev Fd.ofInt (r : ℤ) (h : 0 ≤ r ∧ r.toNat < maxOpenFiles) : Fd := ⟨r.toNat,h.2⟩

/-- All the state the FAT driver has. -/
structure FatState where
  dev : Device
  fatfs : FatInfo
  sysbuf : Sector
  fileNum : Fd → FileS

abbrev FatM := Prog FatState

namespace FatState

def setFile (s : FatState) (fd : Fd) (f : FileS) : FatState :=
  { s with fileNum := Function.update s.fileNum fd f }

@[simp] theorem setFile_dev (s : FatState) (fd : Fd) (f : FileS) : (s.setFile fd f).dev = s.dev := rfl
@[simp] theorem setFile_fatfs (s : FatState) (fd : Fd) (f : FileS) :
    (s.setFile fd f).fatfs = s.fatfs := rfl
@[simp] theorem setFile_sysbuf (s : FatState) (fd : Fd) (f : FileS) :
    (s.setFile fd f).sysbuf = s.sysbuf := rfl
@[simp] theorem setFile_self (s : FatState) (fd : Fd) (f : FileS) :
    (s.setFile fd f).fileNum fd = f := by simp [setFile]
theorem setFile_of_ne (s : FatState) {fd j : Fd} (f : FileS) (h : j ≠ fd) :
    (s.setFile fd f).fileNum j = s.fileNum j := by simp [setFile,h]

end FatState

/-! ### Access to the state -/

def onDevice {α : Type} (x : Prog Device α) : FatM α :=
  Prog.zoom FatState.dev (fun s d => { s with dev := d }) x

def fatfs : FatM FatInfo := fun s => .ok (s.fatfs,s)
def sysbuf : FatM Sector := fun s => .ok (s.sysbuf,s)
def setSysbuf (b : Sector) : FatM Unit := Prog.modify fun s => { s with sysbuf := b }
def file (fd : Fd) : FatM FileS := fun s => .ok (s.fileNum fd,s)
def updateFile (fd : Fd) (f : FileS → FileS) : FatM Unit :=
  Prog.modify fun s => s.setFile fd (f (s.fileNum fd))

/-- `block_read(b, fatfs.sysbuf)`; `true` is the nonzero result, which leaves the buffer alone. -/
def readSysbuf (E : Env) (b : ℕ) : FatM Bool := do
  match ← onDevice (Device.blockRead E b) with
  | some d => setSysbuf d; pure false
  | none => pure true

/-- `block_read(b, file_num[fd].buffer)` -/
def readBuffer (E : Env) (fd : Fd) (b : ℕ) : FatM Bool := do
  match ← onDevice (Device.blockRead E b) with
  | some d => updateFile fd (fun f => { f with buffer := d }); pure false
  | none => pure true

/-- `block_write(b, data)` -/
def writeBlock (E : Env) (o : Origin) (b : ℕ) (data : Sector) : FatM Bool :=
  onDevice (Device.blockWrite E o b data)

def time (E : Env) : FatM ℤ := onDevice (Device.time E)
def junk (E : Env) : FatM (ℕ → UInt8) := onDevice (Device.junk E)
def sysLock (E : Env) : FatM Bool := onDevice (Device.sysLock E)
def sysUnlock : FatM Unit := onDevice Device.sysUnlock

/-! ### Time stamps -/

/-- `fat_to_unix_time` -/
def fatToUnixTime (E : Env) (t : ℕ) : ℤ := E.mktime
  { tmYear := 0, tmMon := 0, tmMday := 0
    tmHour := (t / 2^11 % 2^5 : ℕ), tmMin := (t / 2^5 % 2^5 : ℕ), tmSec := (t % 2^5 * 2 : ℕ) }

/-- `fat_from_unix_time` -/
def fatFromUnixTime (E : Env) (seconds : ℤ) : ℕ :=
  let t := E.gmtime seconds
  ((t.tmHour * 2^11 + t.tmMin * 2^5 + t.tmSec / 2) % 2^16).toNat

/-- `fat_to_unix_date` -/
def fatToUnixDate (E : Env) (d : ℕ) : ℤ := E.mktime
  { tmYear := (d / 2^9 % 2^7 : ℕ) + 80, tmMon := (d / 2^5 % 2^4 : ℕ) - 1, tmMday := (d % 2^5 : ℕ)
    tmHour := 0, tmMin := 0, tmSec := 0 }

/-- `fat_from_unix_date` -/
def fatFromUnixDate (E : Env) (seconds : ℤ) : ℕ :=
  let t := E.gmtime seconds
  (((t.tmYear - 80) * 2^9 + (t.tmMon + 1) * 2^5 + t.tmMday) % 2^16).toNat

/-- `fat_update_atime`: the clock is read again for the value that is stored. -/
def fatUpdateAtime (E : Env) (fd : Fd) : FatM Unit := do
  let newDate := fatFromUnixDate E (← time E)
  let f ← file fd
  if fatFromUnixDate E f.accessed ≠ newDate then
    let now ← time E
    updateFile fd fun f => { f with accessed := now, flags.fsDirty := true }
  else pure ()

/-- `fat_update_mtime` -/
def fatUpdateMtime (E : Env) (fd : Fd) : FatM Unit := do
  let now ← time E
  updateFile fd fun f => { f with modified := now, flags.fsDirty := true }

/-- The entry `fat_flush_fileinfo` writes for a descriptor; `reserved` is never assigned there. -/
def FileS.toDirent (E : Env) (f : FileS) (reserved : UInt8) : DirentS where
  filename := f.filename
  extension := f.extension
  attributes := f.attributes
  reserved := reserved
  createTimeFine := (f.created % 2).toNat * 100
  createTime := fatFromUnixTime E f.created
  createDate := fatFromUnixDate E f.created
  accessDate := fatFromUnixDate E f.accessed
  highFirstCluster := f.fullFirstCluster / 2^16 % 2^16
  modifiedTime := fatFromUnixTime E f.modified
  modifiedDate := fatFromUnixDate E f.modified
  firstCluster := f.fullFirstCluster % 2^16
  size := u32 f.size

end Gristle
