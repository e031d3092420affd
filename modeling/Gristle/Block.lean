import Gristle.Lib.Prog

/-! The block device and everything else the C code gets from outside: the clock, the time
functions of the C library, the lock macros and the contents of uninitialised locals. -/
namespace Gristle

/-- `BLOCK_SIZE`: bytes in one block. -/
abbrev blockSize : ℕ := 512

/-- `MAX_BLOCK` -/
abbrev maxBlock : ℕ := 0xFFFFFFFF

/-- Conversion to `uint32_t`. -/
def u32 (x : ℕ) : ℕ := x % 2^32

/-- Conversion to `uint8_t`. -/
def u8 (x : ℕ) : ℕ := x % 2^8

/-- The `int` with the bits of a `uint32_t`. -/
def i32 (x : ℕ) : ℤ := if x % 2^32 < 2^31 then (x % 2^32 : ℕ) else (x % 2^32 : ℕ) - 2^32

/-- The `uint32_t` with the bits of an `int`. -/
def u32OfInt (x : ℤ) : ℕ := (x % 2^32).toNat

theorem u32_of_lt {x : ℕ} (h : x < 2^32) : u32 x = x := Nat.mod_eq_of_lt h
theorem u32_lt (x : ℕ) : u32 x < 2^32 := Nat.mod_lt _ (by decide)
theorem u8_of_lt {x : ℕ} (h : x < 2^8) : u8 x = x := Nat.mod_eq_of_lt h

theorem i32_of_lt {x : ℕ} (h : x < 2^31) : i32 x = x := by
  have hx : x % 2^32 = x := Nat.mod_eq_of_lt (by omega)
  rw [i32,hx,if_pos h]

theorem u32OfInt_natCast {x : ℕ} (h : x < 2^32) : u32OfInt x = x := by
  unfold u32OfInt
  omega

/-- One block: `uint8_t[512]`. -/
def Sector := Fin blockSize → UInt8

namespace Sector

def zero : Sector := fun _ => 0

/-- A block that starts with these bytes. -/
def ofBytes (bytes : List UInt8) : Sector := fun i => bytes.getD i 0

/-- The byte at an offset; offsets outside the block are never used. -/
def get (b : Sector) (i : ℕ) : UInt8 := if h : i < blockSize then b ⟨i,h⟩ else 0

def set (b : Sector) (i : ℕ) (v : UInt8) : Sector := fun j => if j.val = i then v else b j

/-- `memcpy(&b[off], bytes, n)` -/
def splice (b : Sector) (off n : ℕ) (bytes : ℕ → UInt8) : Sector := fun j =>
  if off ≤ j.val ∧ j.val < off + n then bytes (j.val - off) else b j

/-- Little-endian `uint16_t` at an offset. -/
def le16 (b : Sector) (i : ℕ) : ℕ := (b.get i).toNat + (b.get (i+1)).toNat * 2^8

/-- Little-endian `uint32_t` at an offset. -/
def le32 (b : Sector) (i : ℕ) : ℕ := b.le16 i + b.le16 (i+2) * 2^16

def setLe16 (b : Sector) (i v : ℕ) : Sector :=
  (b.set i (UInt8.ofNat v)).set (i+1) (UInt8.ofNat (v / 2^8))

def setLe32 (b : Sector) (i v : ℕ) : Sector := (b.setLe16 i v).setLe16 (i+2) (v / 2^16)

theorem ext_get {b c : Sector} (h : ∀ i < blockSize, b.get i = c.get i) : b = c := by
  funext i
  simpa [get] using h i i.isLt

@[simp] theorem get_set (b : Sector) (i j : ℕ) (v : UInt8) :
    (b.set i v).get j = if j = i ∧ i < blockSize then v else b.get j := by
  unfold get set
  by_cases hj : j < blockSize
  · by_cases he : j = i
    · subst he; simp [hj]
    · simp [hj,he]
  · have h : ¬ (j = i ∧ i < blockSize) := by omega
    simp [hj,h]

@[simp] theorem get_splice (b : Sector) (off n j : ℕ) (bytes : ℕ → UInt8) :
    (b.splice off n bytes).get j =
      if off ≤ j ∧ j < off + n ∧ j < blockSize then bytes (j - off) else b.get j := by
  unfold get splice
  by_cases hj : j < blockSize
  · simp [hj]
  · simp [hj]

theorem le16_lt (b : Sector) (i : ℕ) : b.le16 i < 2^16 := by
  have h₀ := UInt8.toNat_lt (b.get i)
  have h₁ := UInt8.toNat_lt (b.get (i+1))
  unfold le16
  omega

theorem le32_lt (b : Sector) (i : ℕ) : b.le32 i < 2^32 := by
  have h₀ := b.le16_lt i
  have h₁ := b.le16_lt (i+2)
  unfold le32
  omega

theorem get_setLe16 (b : Sector) (i j v : ℕ) (hi : i + 1 < blockSize) :
    (b.setLe16 i v).get j = if j = i then UInt8.ofNat v
      else if j = i+1 then UInt8.ofNat (v / 2^8) else b.get j := by
  unfold setLe16
  simp only [get_set]
  by_cases h₁ : j = i+1
  · subst h₁; simp [hi]
  · by_cases h₀ : j = i
    · subst h₀; simp [show j < blockSize by omega]
    · simp [h₀,h₁]

theorem le16_setLe16 (b : Sector) (i v : ℕ) (hi : i + 1 < blockSize) :
    (b.setLe16 i v).le16 i = v % 2^16 := by
  simp only [le16,get_setLe16 _ _ _ _ hi,if_pos,Nat.add_eq_left,one_ne_zero,if_false,
    UInt8.toNat_ofNat']
  omega

/-- A word at another place is not affected. -/
theorem le16_setLe16_of_ne (b : Sector) (i j v : ℕ) (hi : i + 1 < blockSize)
    (hj : j + 1 < i ∨ i + 1 < j) : (b.setLe16 i v).le16 j = b.le16 j := by
  have h₀ : j ≠ i := by omega
  have h₁ : j ≠ i+1 := by omega
  have h₂ : j+1 ≠ i := by omega
  have h₃ : j+1 ≠ i+1 := by omega
  simp only [le16,get_setLe16 _ _ _ _ hi,if_neg h₀,if_neg h₁,if_neg h₂,if_neg h₃]

theorem le32_setLe32 (b : Sector) (i v : ℕ) (hi : i + 3 < blockSize) :
    (b.setLe32 i v).le32 i = v % 2^32 := by
  unfold le32 setLe32
  rw [le16_setLe16_of_ne _ _ _ _ (by omega) (by omega),le16_setLe16 _ _ _ (by omega),
    le16_setLe16 _ _ _ (by omega)]
  omega

theorem le32_setLe32_of_ne (b : Sector) (i j v : ℕ) (hi : i + 3 < blockSize)
    (hj : j + 3 < i ∨ i + 3 < j) : (b.setLe32 i v).le32 j = b.le32 j := by
  unfold le32 setLe32
  rw [le16_setLe16_of_ne _ _ _ _ (by omega) (by omega),
    le16_setLe16_of_ne _ _ _ _ (by omega) (by omega),
    le16_setLe16_of_ne _ _ _ _ (by omega) (by omega),
    le16_setLe16_of_ne _ _ _ _ (by omega) (by omega)]

theorem get_setLe32_of_ne (b : Sector) (i j v : ℕ) (hi : i + 3 < blockSize)
    (hj : j < i ∨ i + 3 < j) : (b.setLe32 i v).get j = b.get j := by
  unfold setLe32
  rw [get_setLe16 _ _ _ _ (by omega),get_setLe16 _ _ _ _ (by omega),if_neg (by omega),
    if_neg (by omega),if_neg (by omega),if_neg (by omega)]

end Sector

/-- `struct tm`, as far as the FAT time stamps use it. -/
structure Tm where
  tmYear : ℤ
  tmMon : ℤ
  tmMday : ℤ
  tmHour : ℤ
  tmMin : ℤ
  tmSec : ℤ
  deriving DecidableEq, Repr

/-- The surroundings of the driver. Every question put to them is numbered, so each answer may
differ from all others; `fuel` bounds the passes of each loop that the C code leaves unbounded. -/
structure Env where
  clock : ℕ → ℤ
  gmtime : ℤ → Tm
  mktime : Tm → ℤ
  readFails : ℕ → Bool
  writeFails : ℕ → Bool
  lockRefused : ℕ → Bool
  junk : ℕ → ℕ → UInt8
  deviceReadOnly : ℤ
  fuel : ℕ

/-- No block transfer fails and the lock is always granted. -/
structure Env.NoFault (E : Env) : Prop where
  read : ∀ n, E.readFails n = false
  write : ∀ n, E.writeFails n = false
  lock : ∀ n, E.lockRefused n = false

/-- The function that issues a `block_write`. -/
inductive Origin
  | fatGetFreeCluster
  | fatFreeClusters
  | fatFlush
  | fatNextCluster
  | fatFlushFileinfo
  | fatDelete
  | ext2Flush
  | ext2FlushInode
  | ext2FlushSuperblock
  | ext2ChangeAllocated
  deriving DecidableEq, Repr

/-- What an observer of the driver sees; no code reads these back. -/
inductive Event
  | write (origin : Origin) (block : ℕ) (data : Sector)
  | freeCluster (result : ℕ)
  | lock
  | unlock

/-- The medium, the number of questions asked so far and the history, newest event first. -/
structure Device where
  blocks : ℕ → Sector
  size : ℕ
  tick : ℕ
  trace : List Event

namespace Device

/-- `block_read`: the block, or nothing when the transfer fails. -/
def blockRead (E : Env) (b : ℕ) : Prog Device (Option Sector) := fun d =>
  .ok (if E.readFails d.tick = true ∨ d.size ≤ b then none else some (d.blocks b),
    { d with tick := d.tick + 1 })

/-- `block_write`; `true` is the nonzero result. -/
def blockWrite (E : Env) (o : Origin) (b : ℕ) (data : Sector) : Prog Device Bool := fun d =>
  let d' := { d with tick := d.tick + 1, trace := .write o b data :: d.trace }
  if E.writeFails d.tick = true ∨ d.size ≤ b then .ok (true,d')
  else .ok (false,{ d' with blocks := Function.update d.blocks b data })

/-- `GRISTLE_TIME` -/
def time (E : Env) : Prog Device ℤ := fun d =>
  .ok (E.clock d.tick,{ d with tick := d.tick + 1 })

/-- The bytes an uninitialised local happens to hold. -/
def junk (E : Env) : Prog Device (ℕ → UInt8) := fun d =>
  .ok (E.junk d.tick,{ d with tick := d.tick + 1 })

/-- `GRISTLE_SYSLOCK` -/
def sysLock (E : Env) : Prog Device Bool := fun d =>
  if E.lockRefused d.tick then .ok (false,{ d with tick := d.tick + 1 })
  else .ok (true,{ d with tick := d.tick + 1, trace := .lock :: d.trace })

/-- `GRISTLE_SYSUNLOCK` -/
def sysUnlock : Prog Device Unit := Prog.modify fun d => { d with trace := .unlock :: d.trace }

def log (e : Event) : Prog Device Unit := Prog.modify fun d => { d with trace := e :: d.trace }

end Device

end Gristle
