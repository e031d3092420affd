import Gristle.Backups
import Gristle.BitmapAllocate
import Gristle.EmbextQuiet
import Gristle.Lib.Avoid

/-! The divisors and the shifts of the ext2 driver. `ext2_mount` takes the superblock as it is, so they are
right exactly when four of its fields are. -/
namespace Gristle
open Prog

/-! ### File status -/

/-- What `ext2_fstat` stores. -/
structure Ext2Stat where
  stDev : ℕ
  stIno : ℤ
  stMode : ℕ
  stNlink : ℕ
  stUid : ℕ
  stGid : ℕ
  stRdev : ℕ
  stSize : ℕ
  stAtime : ℕ
  stMtime : ℕ
  stCtime : ℕ
  stBlksize : ℕ
  stBlocks : ℕ

namespace Ext2

/-- `ext2_fstat` -/
def fstat (fe : Option ℕ) : Ext2M (ℤ × ℤ × Option Ext2Stat) :=
  match fe with
  | none => pure (-1,eBadf,none)
  | some fe => do
    let f ← file fe
    let bytes ← oneShl (logPlus (← context) 10)
    pure (0,0,some {
      stDev := 0
      stIno := f.inodeNumber
      stMode := f.inode.iMode
      stNlink := f.inode.iLinksCount
      stUid := f.inode.iUid
      stGid := f.inode.iGid
      stRdev := 0
      stSize := f.inode.iSize
      stAtime := f.inode.iAtime
      stMtime := f.inode.iMtime
      stCtime := f.inode.iCtime
      stBlksize := bytes
      stBlocks := f.inode.iSize / bytes + if f.inode.iSize % bytes ≠ 0 then 1 else 0 })

end Ext2

/-! ### The fields -/

/-- Every divisor and every shift taken from the superblock is in its range. -/
structure Superblock.Calculable (b : Superblock) : Prop where
  blocks : b.sBlocksPerGroup ≠ 0
  inodes : b.sInodesPerGroup ≠ 0
  inodeSize : b.sInodeSize ≠ 0
  inodeFits : b.sInodeSize ≤ blockSize
  log : u32 (b.sLogBlockSize + 1) < 32
  logBytes : u32 (b.sLogBlockSize + 10) < 32

namespace Superblock
variable {b b' : Superblock}

/-- Bytes the driver changes in a superblock it holds. -/
def Counted (i : ℕ) : Prop := 12 ≤ i ∧ i < 16 ∨ Touched i

theorem Calculable.of_bytes (hb : b.Calculable)
    (h : ∀ i < size, ¬ Counted i → b'.bytes.get i = b.bytes.get i) : b'.Calculable := by
  have hkeep {i n : ℕ} (hlow : 16 ≤ i) (hhigh : i + n ≤ 44 ∨ 54 ≤ i ∧ i + n ≤ 90) (j : ℕ) (hj : i ≤ j)
      (hj' : j < i + n) : b'.bytes.get j = b.bytes.get j := by
    apply h j
    · unfold size
      omega
    · unfold Counted Touched
      omega
  have hper : b'.sBlocksPerGroup = b.sBlocksPerGroup := le32_congr (hkeep (by decide) (by decide))
  have hinodes : b'.sInodesPerGroup = b.sInodesPerGroup := le32_congr (hkeep (by decide) (by decide))
  have hsize : b'.sInodeSize = b.sInodeSize := le16_congr (hkeep (by decide) (by decide))
  have hlog : b'.sLogBlockSize = b.sLogBlockSize := le32_congr (hkeep (by decide) (by decide))
  exact ⟨hper ▸ hb.1,hinodes ▸ hb.2,hsize ▸ hb.3,hsize ▸ hb.4,hlog ▸ hb.5,hlog ▸ hb.6⟩

theorem calculable_setBlockGroupNr (hb : b.Calculable) (n : ℕ) : (b.setBlockGroupNr n).Calculable := by
  apply hb.of_bytes
  intro i hi hc
  unfold Counted Touched at hc
  rw [setBlockGroupNr,Sector.get_setLe16 _ _ _ _ (by decide),if_neg (by omega),if_neg (by omega)]

theorem calculable_setFreeBlocksCount (hb : b.Calculable) (n : ℕ) : (b.setFreeBlocksCount n).Calculable := by
  apply hb.of_bytes
  intro i hi hc
  unfold Counted at hc
  exact Sector.get_setLe32_of_ne _ _ _ _ (by decide) (by omega)

theorem calculable_mounted (now : ℤ) : (b.mounted now).Calculable ↔ b.Calculable := by
  have hkeep (i : ℕ) (hc : ¬ Counted i) : (b.mounted now).bytes.get i = b.bytes.get i := by
    unfold Counted Touched at hc
    exact get_mounted b now (by omega) (by omega)
  constructor
  · intro h
    exact h.of_bytes fun i _ hc => (hkeep i hc).symm
  · intro h
    exact h.of_bytes fun i _ hc => hkeep i hc

end Superblock

/-! ### The functions -/

namespace Ext2

/-- The mounted superblock, if there is one, is calculable. -/
def Sound (s : Ext2State) : Prop := ∀ c, s.context = some c → c.superblock.Calculable

/-- From a sound state no divisor is zero and no shift is too wide, and the state stays sound. -/
abbrev Computes {α : Type} (x : Ext2M α) : Prop := Avoids .arithmetic Sound x

section Basic
variable {α : Type} (E : Env)

theorem onDevice_computes {x : Prog Device α} (hx : ∀ d, x d ≠ .error .arithmetic) : Computes (onDevice x) :=
  avoids_zoom hx fun _ _ hs => hs

theorem blockRead_computes (b : ℕ) : Computes (onDevice (Device.blockRead E b)) :=
  onDevice_computes fun d => by simp [Device.blockRead]

theorem time_computes : Computes (time E) := onDevice_computes fun d => by simp [Device.time]

theorem junk_computes : Computes (onDevice (Device.junk E)) := onDevice_computes fun d => by simp [Device.junk]

theorem writeBlock_computes (o : Origin) (b : ℕ) (data : Sector) : Computes (writeBlock E o b data) := by
  apply onDevice_computes
  intro d
  rw [Device.blockWrite]
  split <;> simp

/-- The context of a sound state is sound. -/
theorem context_computes {k : Ext2Context → Ext2M α} (h : ∀ c, c.superblock.Calculable → Computes (k c)) :
    Computes (context >>= k) := by
  intro s hs
  cases hc : s.context with
  | none => exact safe_of_error (bind_of_error (by rw [context,hc])) (show Stop.undefined ≠ _ by decide)
  | some c => exact safe_bind_of_ok (by rw [context,hc]) (h c (hs c hc) s hs)

theorem file_computes (fe : ℕ) : Computes (file fe) := by
  intro s hs
  cases hf : s.files fe with
  | none => exact safe_of_error (k := .undefined) (by rw [file,hf]) (by decide)
  | some f => exact safe_of_ok (by rw [file,hf]) hs

theorem updateFile_computes (fe : ℕ) (u : FileEnt → FileEnt) : Computes (updateFile fe u) :=
  avoids_modify fun _ hs => hs

theorem storeFile_computes (fe : ℕ) (o : Option FileEnt) : Computes (storeFile fe o) :=
  avoids_modify fun _ hs => hs

theorem setSysbuf_computes (b : Sector) : Computes (setSysbuf b) := by
  apply avoids_modify
  intro s hs c hc
  obtain ⟨c',hc',rfl⟩ := Option.map_eq_some_iff.1 hc
  exact hs c' hc'

theorem setContext_computes {o : Option Ext2Context} (h : ∀ c, o = some c → c.superblock.Calculable) :
    Computes (setContext o) := avoids_modify fun _ _ => h

theorem updateSuperblock_computes {u : Superblock → Superblock} (h : ∀ b : Superblock, b.Calculable → (u b).Calculable) :
    Computes (updateSuperblock u) := by
  apply avoids_modify
  intro s hs c hc
  obtain ⟨c',hc',rfl⟩ := Option.map_eq_some_iff.1 hc
  exact h _ (hs c' hc')

theorem readSysbuf_computes (b : ℕ) : Computes (readSysbuf E b) := by
  apply avoids_bind (blockRead_computes E b)
  intro o
  cases o with
  | none => exact avoids_pure ()
  | some d => exact setSysbuf_computes d

theorem readBuffer_computes (fe b : ℕ) : Computes (readBuffer E fe b) := by
  apply avoids_bind (blockRead_computes E b)
  intro o
  cases o with
  | none => exact avoids_pure true
  | some d => exact avoids_bind (updateFile_computes fe _) fun _ => avoids_pure false

theorem divisor_computes {n : ℕ} (h : n ≠ 0) : Computes (divisor n) := by
  rw [divisor,if_neg h]
  exact avoids_pure n

theorem shl32_computes (x : ℕ) {k : ℕ} (h : k < 32) : Computes (shl32 x k) := by
  rw [shl32,if_pos h]
  exact avoids_pure _

/-- The overflow of `1 << 31` is not the width of the shift. -/
theorem oneShl_computes {k : ℕ} (h : k < 32) : Computes (oneShl k) := by
  rw [oneShl]
  split
  · exact avoids_pure _
  split
  · exact avoids_stop (by decide)
  · omega

end Basic

section File
variable (E : Env) (fe : ℕ)

theorem flush_computes : Computes (flush E fe) := by
  apply avoids_bind (file_computes fe)
  intro f
  refine avoids_ite (avoids_ite (avoids_pure 0) ?_) (avoids_pure 0)
  apply avoids_bind (writeBlock_computes E _ _ _)
  intro failed
  exact avoids_ite (avoids_pure _) (avoids_bind (updateFile_computes fe _) fun _ => avoids_pure 0)

theorem loadInodeBlock_computes (inode : ℤ) : Computes (loadInodeBlock E inode) := by
  apply context_computes
  intro c hc
  have hrecords : blockSize / c.superblock.sInodeSize ≠ 0 :=
    (Nat.div_pos hc.inodeFits (Nat.pos_of_ne_zero hc.inodeSize)).ne'
  refine avoids_bind (divisor_computes hc.inodes) fun perGroup => ?_
  refine avoids_bind (shl32_computes _ hc.log) fun _ => avoids_bind (readSysbuf_computes E _) fun _ => ?_
  apply context_computes
  intro _ _
  refine avoids_bind (shl32_computes _ hc.log) fun _ => ?_
  rw [divisor,if_neg hc.inodeSize,pure_bind]
  refine avoids_bind (divisor_computes hrecords) fun perBlock => avoids_bind (readSysbuf_computes E _) fun _ => ?_
  exact avoids_ite (avoids_stop (by decide)) (avoids_pure _)

theorem flushInode_computes : Computes (flushInode E fe) := by
  apply avoids_bind (file_computes fe)
  intro f
  apply context_computes
  intro c hc
  refine avoids_bind (divisor_computes hc.inodes) fun _ => avoids_ite ?_ (avoids_pure 0)
  refine avoids_bind (flush_computes E fe) fun _ => avoids_bind (loadInodeBlock_computes E _) fun place => ?_
  apply avoids_bind (file_computes fe)
  intro f
  apply context_computes
  intro c _
  apply avoids_bind (setSysbuf_computes _)
  intro _
  apply context_computes
  intro c _
  refine avoids_bind (writeBlock_computes E _ _ _) fun _ => ?_
  exact avoids_bind (updateFile_computes fe _) fun _ => avoids_pure 0

theorem updateAtime_computes : Computes (updateAtime E fe) :=
  avoids_bind (time_computes E) fun _ => updateFile_computes fe _

theorem updateMtime_computes : Computes (updateMtime E fe) :=
  avoids_bind (time_computes E) fun _ => updateFile_computes fe _

theorem openInode_computes (inode : ℤ) : Computes (openInode E fe inode) := by
  apply avoids_bind (loadInodeBlock_computes E inode)
  intro place
  apply context_computes
  intro c hc
  refine avoids_bind (updateFile_computes fe _) fun _ => avoids_bind (file_computes fe) fun f => ?_
  refine avoids_bind (shl32_computes _ hc.log) fun _ => avoids_bind (readBuffer_computes E fe _) fun _ => ?_
  refine avoids_bind (oneShl_computes hc.log) fun _ => ?_
  exact avoids_bind (updateFile_computes fe _) fun _ => avoids_pure 0

theorem nextBlock_computes : Computes (nextBlock E fe) := by
  apply avoids_bind (file_computes fe)
  intro f
  refine avoids_ite (avoids_bind (updateFile_computes fe _) fun _ => ?_) (avoids_pure true)
  refine avoids_bind (file_computes fe) fun f => avoids_ite ?_ (avoids_pure true)
  apply context_computes
  intro c hc
  refine avoids_bind (oneShl_computes hc.logBytes) fun _ => avoids_bind (shl32_computes _ hc.log) fun _ => ?_
  exact avoids_bind (updateFile_computes fe _) fun _ => readBuffer_computes E fe _

theorem nextSector_computes : Computes (nextSector E fe) := by
  apply avoids_bind (file_computes fe)
  intro f
  refine avoids_ite (avoids_bind (updateFile_computes fe _) fun _ => ?_) (nextBlock_computes E fe)
  refine avoids_bind (file_computes fe) fun f => avoids_bind (readBuffer_computes E fe _) fun _ => ?_
  exact avoids_bind (updateFile_computes fe _) fun _ => avoids_pure false

theorem readLoop_computes (n : ℕ) : Computes (readLoop E fe n) := by
  induction n with
  | zero => exact avoids_pure []
  | succ n ih =>
    apply avoids_bind (file_computes fe)
    intro f
    refine avoids_ite (avoids_pure []) (avoids_ite (avoids_stop (by decide)) ?_)
    refine avoids_bind (updateFile_computes fe _) fun _ => ?_
    refine avoids_bind (avoids_ite (nextSector_computes E fe) (avoids_pure false)) fun _ => ?_
    exact avoids_bind ih fun _ => avoids_pure _

theorem writeLoop_computes (bytes : List UInt8) : Computes (writeLoop E fe bytes) := by
  induction bytes with
  | nil => exact avoids_pure false
  | cons b bytes ih =>
    apply avoids_bind (file_computes fe)
    intro f
    refine avoids_ite (avoids_stop (by decide)) (avoids_bind (updateFile_computes fe _) fun _ => ?_)
    refine avoids_bind (updateFile_computes fe _) fun _ => ?_
    refine avoids_bind (avoids_ite (nextSector_computes E fe) (avoids_pure false)) fun _ => ?_
    exact avoids_ite (avoids_pure true) ih

end File

section Calls
variable (E : Env) (fe : Option ℕ)

theorem read_computes (n : ℕ) (e : ℤ) : Computes (read E fe n e) := by
  cases fe with
  | none => exact avoids_pure _
  | some fe =>
    apply avoids_bind (readLoop_computes E fe n)
    intro bytes
    exact avoids_bind (avoids_ite (updateAtime_computes E fe) (avoids_pure ())) fun _ => avoids_pure _

theorem fstat_computes : Computes (fstat fe) := by
  cases fe with
  | none => exact avoids_pure _
  | some fe =>
    apply avoids_bind (file_computes fe)
    intro f
    apply context_computes
    intro c hc
    exact avoids_bind (oneShl_computes hc.logBytes) fun _ => avoids_pure _

theorem lseek_computes (ptr : ℤ) (dir : Whence) : Computes (lseek E fe ptr dir) := by
  cases fe with
  | none => exact avoids_pure _
  | some fe =>
    have hload (x : ℕ) (n : ℤ) : Computes (do
        if ← readBuffer E fe x then pure (ptr - 1,0) else pure (n,0) : Ext2M (ℤ × ℤ)) :=
      avoids_bind (readBuffer_computes E fe x) fun _ => avoids_ite (avoids_pure _) (avoids_pure _)
    apply avoids_bind (file_computes fe)
    intro f
    refine avoids_ite (avoids_pure _) (avoids_ite (avoids_pure _) (avoids_ite ?_ ?_))
    · exact avoids_bind (updateFile_computes fe _) fun _ => avoids_pure _
    apply context_computes
    intro c hc
    apply avoids_bind (oneShl_computes hc.logBytes)
    intro bytes
    refine avoids_ite (avoids_bind (flush_computes E fe) fun _ => ?_)
      (avoids_bind (flush_computes E fe) fun _ => avoids_ite (avoids_pure _) ?_)
    · refine avoids_bind (updateFile_computes fe _) fun _ => ?_
      exact avoids_bind (file_computes fe) fun f => hload _ _
    · refine avoids_bind (oneShl_computes hc.log) fun _ => avoids_bind (updateFile_computes fe _) fun _ => ?_
      exact avoids_bind (file_computes fe) fun f => hload _ _

theorem write_computes (bytes : List UInt8) (e : ℤ) : Computes (write E fe bytes e) := by
  cases fe with
  | none => exact avoids_pure _
  | some fe =>
    apply avoids_bind (file_computes fe)
    intro f
    refine avoids_ite (avoids_pure _) ?_
    refine avoids_bind (avoids_ite (lseek_computes E (some fe) 0 .end_) (avoids_pure _)) fun p => ?_
    refine avoids_ite (avoids_pure _) (avoids_bind (writeLoop_computes E fe bytes) fun _ => ?_)
    refine avoids_ite (avoids_pure _) ?_
    exact avoids_bind (avoids_ite (updateMtime_computes E fe) (avoids_pure ())) fun _ => avoids_pure _

theorem readdir_computes (e : ℤ) : Computes (readdir E fe e) := by
  have hde (u : Ext2State → Ext2Dirent) : Computes (modify fun s => { s with de := u s }) :=
    avoids_modify fun _ hs => hs
  refine avoids_bind (read_computes E fe 4 e) fun p => avoids_ite (avoids_pure _) ?_
  refine avoids_bind (read_computes E fe 2 _) fun p => avoids_ite (avoids_pure _) ?_
  refine avoids_bind (read_computes E fe 1 _) fun p => avoids_ite (avoids_pure _) ?_
  refine avoids_bind (read_computes E fe 1 _) fun p => avoids_ite (avoids_pure _) ?_
  refine avoids_bind (hde fun s => { s.de with dIno := _ }) fun _ => avoids_ite ?_ (avoids_pure _)
  refine avoids_bind (read_computes E fe _ _) fun p => ?_
  refine avoids_bind (hde fun s => { s.de with dName := _ }) fun _ => ?_
  exact avoids_bind (lseek_computes E fe _ _) fun p => avoids_pure _

theorem close_computes (e : ℤ) : Computes (close E fe e) := by
  cases fe with
  | none => exact avoids_pure _
  | some fe =>
    apply avoids_bind (file_computes fe)
    intro f
    have hflush : Computes (if f.flags.dirty then do pure ((← flush E fe) != 0) else pure false : Ext2M Bool) :=
      avoids_ite (avoids_bind (flush_computes E fe) fun _ => avoids_pure _) (avoids_pure _)
    refine avoids_bind hflush fun _ => avoids_ite (avoids_pure _) (avoids_bind (file_computes fe) fun f => ?_)
    have hinode : Computes
        (if f.flags.fsDirty then do pure ((← flushInode E fe) != 0) else pure false : Ext2M Bool) :=
      avoids_ite (avoids_bind (flushInode_computes E fe) fun _ => avoids_pure _) (avoids_pure _)
    refine avoids_bind hinode fun _ => avoids_ite (avoids_pure _) ?_
    exact avoids_bind (storeFile_computes fe none) fun _ => avoids_pure _

end Calls

section Paths
variable (E : Env) (fe : ℕ)

theorem findEntry_computes (element : List UInt8) (n : ℕ) (e : ℤ) :
    Computes (findEntry E fe element n e) := by
  induction n generalizing e with
  | zero => exact avoids_stop (by decide)
  | succ n ih =>
    refine avoids_bind (readdir_computes E (some fe) e) fun p => avoids_ite ?_ (avoids_pure _)
    exact avoids_bind avoids_get fun s => avoids_ite (avoids_pure _) (ih p.2)

theorem lookupLoop_computes (elements : List (List UInt8)) (ino e : ℤ) :
    Computes (lookupLoop E fe elements ino e) := by
  induction elements generalizing ino e with
  | nil => exact avoids_bind (openInode_computes E fe ino) fun _ => avoids_pure _
  | cons element rest ih =>
    refine avoids_bind (openInode_computes E fe ino) fun _ => ?_
    refine avoids_bind (findEntry_computes E fe element _ e) fun p => ?_
    obtain ⟨o,e'⟩ := p
    cases o with
    | none => exact avoids_pure _
    | some ino => exact ih ino e'

theorem refuse_computes (e : ℤ) : Computes (refuse fe e) :=
  avoids_bind (storeFile_computes fe none) fun _ => avoids_pure _

theorem openPath_computes (name : List UInt8) (flags : OpenFlags) (e : ℤ) :
    Computes (openPath E name flags e) := by
  have hgrant (fe : ℕ) (e : ℤ) : Computes (do
      updateFile fe fun f => { f with fileSector := 0 }
      pure (some fe,e) : Ext2M (Option ℕ × ℤ)) :=
    avoids_bind (updateFile_computes fe _) fun _ => avoids_pure _
  apply avoids_bind avoids_get
  intro s
  refine avoids_bind (avoids_modify fun _ hs => hs) fun _ => avoids_bind (storeFile_computes _ _) fun _ => ?_
  refine avoids_bind (lookupLoop_computes E _ _ _ _) fun p => avoids_bind (updateFile_computes _ _) fun _ => ?_
  apply context_computes
  intro c _
  refine avoids_ite (avoids_ite (refuse_computes _ _) (avoids_ite (refuse_computes _ _) (refuse_computes _ _))) ?_
  refine avoids_ite (avoids_ite (refuse_computes _ _) (avoids_ite (hgrant _ _) ?_)) (refuse_computes _ _)
  refine avoids_ite (refuse_computes _ _) (avoids_bind (file_computes _) fun f => ?_)
  exact avoids_ite (refuse_computes _ _) (avoids_ite (refuse_computes _ _) (hgrant _ _))

end Paths

section Volume
variable (E : Env)

theorem flushSuperblockLoop_computes (bs : List ℕ) : Computes (flushSuperblockLoop E bs) := by
  induction bs with
  | nil => exact avoids_pure ()
  | cons b bs ih =>
    apply context_computes
    intro c hc
    have hstored (d : Ext2Context) (hd : some { c with
        superblock := c.superblock.setBlockGroupNr b
        sysbuf := c.sysbuf.splice 0 Superblock.size (c.superblock.setBlockGroupNr b).bytes.get } = some d) :
        d.superblock.Calculable := by
      rw [← Option.some.inj hd]
      exact Superblock.calculable_setBlockGroupNr hc b
    refine avoids_bind (setContext_computes hstored) fun _ => avoids_bind (shl32_computes _ hc.log) fun block => ?_
    apply context_computes
    intro c _
    exact avoids_bind (writeBlock_computes E _ _ _) fun _ => ih

theorem umount_computes : Computes (umount E) := by
  have hflush : Computes (flushSuperblock E) := by
    apply context_computes
    intro c _
    exact avoids_bind (setSysbuf_computes _) fun _ => flushSuperblockLoop_computes E _
  refine avoids_bind hflush fun _ => avoids_bind (setContext_computes (by simp)) fun _ => avoids_pure 0

theorem getBgDescriptor_computes (bg : BlockGroupDescriptor) (g : ℕ) : Computes (getBgDescriptor E bg g) := by
  apply context_computes
  intro c hc
  refine avoids_ite (avoids_pure _) (avoids_bind (shl32_computes _ hc.log) fun _ => ?_)
  apply avoids_bind (readSysbuf_computes E _)
  intro _
  apply context_computes
  intro _ _
  exact avoids_pure _

theorem writeBgLoop_computes (bg : BlockGroupDescriptor) (g : ℕ) (bs : List ℕ) :
    Computes (writeBgLoop E bg g bs) := by
  induction bs with
  | nil => exact avoids_pure ()
  | cons b bs ih =>
    apply context_computes
    intro c hc
    refine avoids_bind (shl32_computes _ hc.log) fun _ => avoids_bind (readSysbuf_computes E _) fun _ => ?_
    apply context_computes
    intro _ _
    exact avoids_bind (setSysbuf_computes _) fun _ => ih

theorem writeBgDescriptor_computes (bg : BlockGroupDescriptor) (g : ℕ) :
    Computes (writeBgDescriptor E bg g) := by
  apply context_computes
  intro c _
  exact avoids_ite (avoids_pure _) (avoids_bind (writeBgLoop_computes E bg g _) fun _ => avoids_pure _)

theorem changeAllocated_computes (block : ℕ) (allocated forDirectory : ℤ) :
    Computes (changeAllocated E block allocated forDirectory) := by
  apply context_computes
  intro c hc
  refine avoids_bind (junk_computes E) fun junk => avoids_bind (divisor_computes hc.blocks) fun perGroup => ?_
  refine avoids_bind (getBgDescriptor_computes E _ _) fun p => avoids_bind (readSysbuf_computes E _) fun _ => ?_
  apply context_computes
  intro c _
  cases changedBitmap c.sysbuf (block % perGroup) allocated with
  | none => exact avoids_pure _
  | some buf =>
    refine avoids_bind (setSysbuf_computes buf) fun _ => avoids_bind (writeBlock_computes E _ _ _) fun _ => ?_
    refine avoids_bind (writeBgDescriptor_computes E _ _) fun _ => ?_
    refine avoids_bind (updateSuperblock_computes fun b hb => ?_) fun _ => avoids_pure 0
    split
    · exact Superblock.calculable_setFreeBlocksCount hb _
    · exact Superblock.calculable_setFreeBlocksCount hb _

theorem allocateBlock_computes (previous : ℕ) (forDirectory : ℤ) :
    Computes (allocateBlock E previous forDirectory) := by
  apply context_computes
  intro c hc
  refine avoids_bind (junk_computes E) fun junk => avoids_ite (avoids_pure 0) ?_
  refine avoids_bind (divisor_computes hc.blocks) fun perGroup => avoids_ite (avoids_pure 0) ?_
  refine avoids_bind (getBgDescriptor_computes E _ _) fun p => avoids_ite ?_ (avoids_pure 0)
  refine avoids_bind (shl32_computes _ hc.log) fun _ => avoids_bind (readSysbuf_computes E _) fun _ => ?_
  apply context_computes
  intro _ _
  refine avoids_ite (avoids_pure 0) (avoids_bind (changeAllocated_computes E _ _ _) fun r => ?_)
  exact avoids_ite (avoids_pure 0) (avoids_pure _)

/-! ### Mounting -/

variable {P : Ext2State → Prop}

/-- The divisor of `is_power` is the number of a group, and it stays. -/
theorem isPower_computes (n x : ℕ) {ofy : ℕ} (h : ofy ≠ 0) : Avoids .arithmetic P (isPower n x ofy) := by
  induction n generalizing x with
  | zero => exact avoids_stop (by decide)
  | succ n ih =>
    rw [isPower,divisor,if_neg h]
    exact avoids_ite (ih _) (avoids_pure _)

theorem backupGroups_computes (n i : ℕ) : Avoids .arithmetic P (backupGroups E n i) := by
  induction n generalizing i with
  | zero => exact avoids_pure []
  | succ n ih =>
    refine avoids_bind ?_ fun b => avoids_bind (ih _) fun rest => avoids_pure _
    rw [hasBackup]
    split
    · exact avoids_pure true
    · rename_i hi
      have hpos : i ≠ 0 := fun h => hi (.inl h)
      refine avoids_bind (isPower_computes _ 3 hpos) fun _ => avoids_ite (avoids_pure _) ?_
      refine avoids_bind (isPower_computes _ 5 hpos) fun _ => avoids_ite (avoids_pure _) ?_
      exact isPower_computes _ 7 hpos

variable {part : ℕ} {s : Ext2State}

/-- A mount divides by `s_blocks_per_group`. -/
theorem mount_divides (hgroup : (bufferedSuperblock E part s).sBlocksPerGroup = 0) :
    mount E part s = .error .arithmetic := by
  obtain ⟨block,hread,hsb⟩ := mount_reads E part s
  generalize bufferedSuperblock E part s = sb at *
  subst hsb
  have hdivisor {u : Ext2State} : divisor (Superblock.sBlocksPerGroup ⟨Sector.zero.splice 0 Superblock.size
      (block.getD fun i => E.junk s.dev.tick i).get⟩) u = .error .arithmetic := by
    rw [divisor,if_pos hgroup]
    rfl
  exact bind_error_of_ok rfl (bind_error_of_ok hread (bind_of_error hdivisor))

/-- It divides by nothing else, and stores the superblock with a new time and count. -/
theorem mount_computes (hgroup : (bufferedSuperblock E part s).sBlocksPerGroup ≠ 0) :
    (mount E part).Safe .arithmetic s fun r t => r = 0 ∧ ∃ c now, t.context = some c ∧
      c.superblock = (bufferedSuperblock E part s).mounted now := by
  obtain ⟨block,hread,hsb⟩ := mount_reads E part s
  have hcopies (sb : Superblock) (t : Ext2State) : (if sb.Sparse then backupGroups E sb.mountedGroups 0
      else pure (List.range sb.mountedGroups) : Ext2M (List ℕ)).Safe .arithmetic t fun _ _ => True :=
    avoids_ite (P := fun _ => True) (backupGroups_computes E _ 0) (avoids_pure _) t trivial
  apply safe_bind_of_ok rfl
  apply safe_bind_of_ok hread
  generalize bufferedSuperblock E part s = sb at *
  subst hsb
  apply safe_bind_of_ok (show divisor _ _ = .ok (_,_) by rw [divisor,if_neg hgroup]; rfl)
  apply (hcopies _ _).bind
  intro copies t _
  exact safe_bind_of_ok rfl (safe_of_ok rfl ⟨rfl,_,_,rfl,rfl⟩)

end Volume

/-! ### Programs -/

/-- What a program does with a mounted volume: the calls of the driver with any arguments, and setting up a
file entry of its own. -/
inductive Use
  | call (c : Call)
  | entry (fe : ℕ) (f : FileEnt)
  | openInode (fe : ℕ) (inode : ℤ)
  | lookupPath (fe : ℕ) (path : List UInt8) (rerrno : ℤ)
  | flushInode (fe : ℕ)
  | fstat (fe : Option ℕ)
  | changeAllocated (block : ℕ) (allocated forDirectory : ℤ)
  | allocateBlock (previous : ℕ) (forDirectory : ℤ)

def Use.exec (E : Env) : Use → Ext2M Unit
  | .call c => c.exec E
  | .entry fe f => storeFile fe (some f)
  | .openInode fe inode => do let _ ← Ext2.openInode E fe inode
  | .lookupPath fe path e => do let _ ← Ext2.lookupPath E fe path e
  | .flushInode fe => do let _ ← Ext2.flushInode E fe
  | .fstat fe => do let _ ← Ext2.fstat fe
  | .changeAllocated block allocated forDirectory => do
    let _ ← Ext2.changeAllocated E block allocated forDirectory
  | .allocateBlock previous forDirectory => do let _ ← Ext2.allocateBlock E previous forDirectory

/-- One step of a program. -/
def UseStep (E : Env) (s : Ext2State) (u : Use) (t : Ext2State) : Prop := u.exec E s = .ok ((),t)

/-- The mount at `s` has all its divisors and shifts in range, and so has everything a program does after it. -/
structure Guards (E : Env) (part : ℕ) (s : Ext2State) : Prop where
  mount : Ext2.mount E part s ≠ .error .arithmetic
  later : ∀ t us v, Ext2.mount E part s = .ok (0,t) → Steps (UseStep E) t us v →
    ∀ u : Use, u.exec E v ≠ .error .arithmetic

section Programs
variable {E : Env} {part : ℕ} {s : Ext2State}

theorem Call.exec_computes (E : Env) (c : Call) : Computes (c.exec E) := by
  cases c with
  | openPath path flags e => exact avoids_bind (openPath_computes E path flags e) fun _ => avoids_pure ()
  | read fe n e => exact avoids_bind (read_computes E fe n e) fun _ => avoids_pure ()
  | write fe bytes e => exact avoids_bind (write_computes E fe bytes e) fun _ => avoids_pure ()
  | lseek fe ptr dir => exact avoids_bind (lseek_computes E fe ptr dir) fun _ => avoids_pure ()
  | readdir fe e => exact avoids_bind (readdir_computes E fe e) fun _ => avoids_pure ()
  | close fe e => exact avoids_bind (close_computes E fe e) fun _ => avoids_pure ()
  | umount => exact avoids_bind (umount_computes E) fun _ => avoids_pure ()

theorem Use.exec_computes (E : Env) (u : Use) : Computes (u.exec E) := by
  cases u with
  | call c => exact c.exec_computes E
  | entry fe f => exact storeFile_computes fe _
  | openInode fe inode => exact avoids_bind (openInode_computes E fe inode) fun _ => avoids_pure ()
  | lookupPath fe path e => exact avoids_bind (lookupLoop_computes E fe _ _ _) fun _ => avoids_pure ()
  | flushInode fe => exact avoids_bind (flushInode_computes E fe) fun _ => avoids_pure ()
  | fstat fe => exact avoids_bind (fstat_computes fe) fun _ => avoids_pure ()
  | changeAllocated block allocated forDirectory =>
    exact avoids_bind (changeAllocated_computes E block allocated forDirectory) fun _ => avoids_pure ()
  | allocateBlock previous forDirectory =>
    exact avoids_bind (allocateBlock_computes E previous forDirectory) fun _ => avoids_pure ()

/-- Opening an inode takes the number of inodes in a group, the size of a block and the size of an inode. -/
theorem calculable_of_openInode {c : Ext2Context} {fe : ℕ} {n : ℤ} (hc : s.context = some c)
    (h : openInode E fe n s ≠ .error .arithmetic) : c.superblock.sInodesPerGroup ≠ 0 ∧
      u32 (c.superblock.sLogBlockSize + 1) < 32 ∧ c.superblock.sInodeSize ≠ 0 ∧
      c.superblock.sInodeSize ≤ blockSize := by
  have hstep {α β : Type} {x : Ext2M α} {f : α → Ext2M β} {s : Ext2State}
      (h : (x >>= f) s ≠ .error .arithmetic) : x s ≠ .error .arithmetic := fun hx => h (bind_of_error hx)
  have hload := hstep h
  have hcontext {t : Ext2State} {c : Ext2Context} (hc : t.context = some c) : context t = .ok (c,t) := by
    rw [context,hc]
  rw [loadInodeBlock,bind_of_ok (hcontext hc)] at hload
  have hinodes : c.superblock.sInodesPerGroup ≠ 0 := fun h => hstep hload (by rw [divisor,if_pos h]; rfl)
  rw [divisor,if_neg hinodes,pure_bind] at hload
  have hlog : logPlus c 1 < 32 := by
    by_contra h
    exact hstep hload (by rw [shl32,if_neg h]; rfl)
  rw [shl32,if_pos hlog,pure_bind] at hload
  obtain ⟨_,t,ht,hm,-⟩ := readSysbuf_mounted E (s := s) ⟨⟨c.sysbuf,hc⟩,rfl,rfl⟩
    (u32 (u32 (u32 (u32 (c.superblockBlock + 1) * 2^logPlus c 1) +
      u32 (u32OfInt (n - 1) / c.superblock.sInodesPerGroup * 32) / blockSize) + c.partStart))
  obtain ⟨b,hb⟩ := hm.context
  rw [bind_of_ok ht,bind_of_ok (hcontext hb),shl32,if_pos hlog,pure_bind] at hload
  have hsize : c.superblock.sInodeSize ≠ 0 := fun h => hstep hload (by rw [divisor,if_pos h]; rfl)
  rw [divisor,if_neg hsize,pure_bind] at hload
  refine ⟨hinodes,hlog,hsize,?_⟩
  by_contra hfits
  have hzero : blockSize / c.superblock.sInodeSize = 0 := Nat.div_eq_of_lt (by omega)
  exact hstep hload (by rw [hzero]; rfl)

/-- Status of a file needs the size of a block in bytes. -/
theorem log_of_fstat {c : Ext2Context} {fe : ℕ} {f : FileEnt} (hc : s.context = some c)
    (hf : s.files fe = some f) (h : fstat (some fe) s ≠ .error .arithmetic) :
    u32 (c.superblock.sLogBlockSize + 10) < 32 := by
  rw [fstat,bind_of_ok (show file fe s = .ok (f,s) by rw [file,hf]),
    bind_of_ok (show context s = .ok (c,s) by rw [context,hc]),bind_apply] at h
  by_contra hlog
  apply h
  have hwide : ¬ logPlus c 10 < 31 ∧ logPlus c 10 ≠ 31 := by
    unfold logPlus
    omega
  rw [oneShl,if_neg hwide.1,if_neg hwide.2]
  rfl

/-- A mounted volume is never divided by zero or shifted too far exactly when the superblock that was read
has the four fields in range. -/
theorem guards_iff (hfuel : 2 ≤ E.fuel) :
    Guards E part s ↔ (bufferedSuperblock E part s).Calculable := by
  constructor
  · intro h
    have hgroup : (bufferedSuperblock E part s).sBlocksPerGroup ≠ 0 := fun hzero => h.mount (mount_divides E hzero)
    obtain ⟨r,t,ht,hr,-⟩ := mount_context hfuel hgroup
    obtain ⟨-,c,now,hc,hsb⟩ := (mount_computes E hgroup).2 r t ht
    subst hr
    rw [← Superblock.calculable_mounted now,← hsb]
    have hopen : openInode E 0 1 t ≠ .error .arithmetic := by
      intro herror
      apply h.later t [] t ht (.nil t) (.openInode 0 1)
      exact bind_of_error herror
    have hstat : Use.exec E (.fstat (some 0)) { t with files := Function.update t.files 0 (some .zero) } ≠
        .error .arithmetic := h.later t [.entry 0 .zero] _ ht (.cons rfl (.nil _)) _
    obtain ⟨hinodes,hlog,hsize,hfits⟩ := calculable_of_openInode hc hopen
    have hblocks : c.superblock.sBlocksPerGroup ≠ 0 := by
      rw [hsb,(Superblock.sameShape_mounted _ now).perGroup]
      exact hgroup
    refine ⟨hblocks,hinodes,hsize,hfits,hlog,?_⟩
    apply log_of_fstat (s := { t with files := Function.update t.files 0 (some .zero) }) hc
      (Function.update_self _ _ _)
    intro herror
    exact hstat (bind_of_error herror)
  · intro h
    have hmount := mount_computes E h.blocks
    refine ⟨hmount.1,fun t us v ht hrun u => ?_⟩
    obtain ⟨-,c,now,hc,hsb⟩ := hmount.2 0 t ht
    have hsound : Sound t := by
      intro c' hc'
      obtain rfl : c = c' := Option.some.inj (hc.symm.trans hc')
      rw [hsb,Superblock.calculable_mounted]
      exact h
    have hlast : Sound v := hrun.preserved (fun s u t hs h => (u.exec_computes E s hs).2 () t h) hsound
    exact (u.exec_computes E v hlast).1

end Programs

/-- A superblock of revision 1 with inodes of 128 bytes. -/
def smallSuperblock : Sector :=
  (((((Sector.zero.setLe32 4 16).setLe32 32 8192).setLe32 40 8).setLe16 56 0xEF53).setLe32 76 1).setLe16 88 128

theorem guards_small : Guards (Env.calm (fun _ => 90) 2) 0 (overDevice fun _ => smallSuperblock) := by
  apply (guards_iff le_rfl).2
  constructor <;> decide +kernel

/-- The same file system of revision 0, where `s_inode_size` is not in use. -/
def revisionZero : Sector := (smallSuperblock.setLe32 76 0).setLe16 88 0

/-- It is mounted, and opening the root directory divides by zero. -/
theorem revision_zero_divides : (mount (Env.calm (fun _ => 90) 2) 0).Returns (overDevice fun _ => revisionZero)
    (fun r t => r = 0 ∧ openInode (Env.calm (fun _ => 90) 2) 0 2 t = .error .arithmetic) ∧
    ¬ Guards (Env.calm (fun _ => 90) 2) 0 (overDevice fun _ => revisionZero) := by
  have hgroup : (bufferedSuperblock (Env.calm (fun _ => 90) 2) 0
      (overDevice fun _ => revisionZero)).sBlocksPerGroup ≠ 0 := by decide +kernel
  have hsize : (bufferedSuperblock (Env.calm (fun _ => 90) 2) 0
      (overDevice fun _ => revisionZero)).sInodeSize = 0 := by decide +kernel
  obtain ⟨r,t,ht,rfl,-⟩ := mount_context (E := Env.calm (fun _ => 90) 2) le_rfl hgroup
  obtain ⟨-,c,now,hc,hsb⟩ := (mount_computes _ hgroup).2 0 t ht
  have hzero : c.superblock.sInodeSize = 0 := by
    rw [hsb,← hsize]
    exact Superblock.le16_congr fun i hi hi' => Superblock.get_mounted _ now (by omega) (by omega)
  have hstops : openInode (Env.calm (fun _ => 90) 2) 0 2 t = .error .arithmetic := by
    by_contra h
    exact (calculable_of_openInode hc h).2.2.1 hzero
  refine ⟨⟨0,t,ht,rfl,hstops⟩,fun h => ?_⟩
  exact h.later t [] t ht (.nil t) (.openInode 0 2) (bind_of_error hstops)

end Ext2

end Gristle
