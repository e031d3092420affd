import Gristle.EmbextTransfer

/-! Where an inode lies on the volume, and what loading and flushing one do to it. -/
namespace Gristle
open Prog

namespace Inode

/-- The records hold the same bytes. -/
def SameRecord (d d' : Inode) : Prop := ∀ k < Inode.length, d.bytes.get k = d'.bytes.get k

theorem le16_congr {b b' : Sector} {i : ℕ} (h₀ : b.get i = b'.get i) (h₁ : b.get (i+1) = b'.get (i+1)) :
    b.le16 i = b'.le16 i := by rw [Sector.le16,Sector.le16,h₀,h₁]

theorem SameRecord.le32 {d d' : Inode} (h : SameRecord d d') {i : ℕ} (hi : i + 3 < Inode.length) :
    d.bytes.le32 i = d'.bytes.le32 i := by
  rw [Sector.le32,Sector.le32,le16_congr (h i (by omega)) (h (i+1) (by omega)),
    le16_congr (h (i+2) (by omega)) (h (i+2+1) (by omega))]

theorem SameRecord.iSize {d d' : Inode} (h : SameRecord d d') : d.iSize = d'.iSize := h.le32 (by decide)

theorem SameRecord.iBlock {d d' : Inode} (h : SameRecord d d') {k : ℕ} (hk : k < 12) :
    d.iBlock k = d'.iBlock k := h.le32 (by rw [Inode.length]; omega)

@[simp] theorem iSize_setSize (d : Inode) (n : ℕ) : (d.setSize n).iSize = u32 n :=
  Sector.le32_setLe32 _ _ _ (by decide)

@[simp] theorem iSize_setMtime (d : Inode) (t : ℤ) : (d.setMtime t).iSize = d.iSize :=
  Sector.le32_setLe32_of_ne _ _ _ _ (by decide) (by decide)

@[simp] theorem iSize_setAtime (d : Inode) (t : ℤ) : (d.setAtime t).iSize = d.iSize :=
  Sector.le32_setLe32_of_ne _ _ _ _ (by decide) (by decide)

@[simp] theorem iBlock_setSize (d : Inode) (n k : ℕ) : (d.setSize n).iBlock k = d.iBlock k :=
  Sector.le32_setLe32_of_ne _ _ _ _ (by decide) (.inr (by omega))

@[simp] theorem iBlock_setMtime (d : Inode) (t : ℤ) (k : ℕ) : (d.setMtime t).iBlock k = d.iBlock k :=
  Sector.le32_setLe32_of_ne _ _ _ _ (by decide) (.inr (by omega))

@[simp] theorem iBlock_setAtime (d : Inode) (t : ℤ) (k : ℕ) : (d.setAtime t).iBlock k = d.iBlock k :=
  Sector.le32_setLe32_of_ne _ _ _ _ (by decide) (.inr (by omega))

end Inode

/-! ### The place of an inode -/

namespace Ext2Context
variable (c : Ext2Context) (B : ℕ → Sector) (n : ℤ)

/-- Sectors in a block of the file system. -/
def sectors : ℕ := 2^(c.superblock.sLogBlockSize + 1)

/-- What the driver relies on in the superblock. Twelve blocks are less than 2 GiB, so that a
position in a file is an `int`. -/
structure WellFormed : Prop where
  log : c.superblock.sLogBlockSize ≤ 17
  perGroup : c.superblock.sInodesPerGroup ≠ 0
  least : Inode.length ≤ c.superblock.sInodeSize
  most : c.superblock.sInodeSize ≤ blockSize

def blockGroup : ℕ := u32OfInt (n - 1) / c.superblock.sInodesPerGroup

def inodeIndex : ℕ := u32OfInt (n - 1) % c.superblock.sInodesPerGroup

/-- The sector of the block group descriptor. -/
def groupSector : ℕ :=
  u32 (u32 (u32 (u32 (c.superblockBlock + 1) * c.sectors) + u32 (c.blockGroup n * 32) / blockSize)
    + c.partStart)

/-- `bg_inode_table` -/
def inodeTable : ℕ := (B (c.groupSector n)).le32 (u32 (c.blockGroup n * 32) % blockSize + 8)

def inodesPerSector : ℕ := blockSize / c.superblock.sInodeSize

/-- The sector of the inode table that holds the inode. -/
def inodeSector : ℕ :=
  u32 (u32 (u32 (c.inodeTable B n * c.sectors) + c.inodeIndex n / c.inodesPerSector) + c.partStart)

def inodeOffset : ℕ := c.inodeIndex n % c.inodesPerSector * c.superblock.sInodeSize

/-- The inode as the medium has it. -/
def inodeAt : Inode :=
  ⟨Sector.zero.splice 0 Inode.length fun k => (B (c.inodeSector B n)).get (c.inodeOffset n + k)⟩

/-- The medium with another record in place of the inode's. -/
def storeInode (d : Inode) : ℕ → Sector :=
  Function.update B (c.inodeSector B n)
    ((B (c.inodeSector B n)).splice (c.inodeOffset n) Inode.length d.bytes.get)

/-- The descriptor and the record of the inode lie on the volume, in two sectors. -/
structure Holds (N : ℕ) : Prop where
  group : c.groupSector n < N
  inode : c.inodeSector B n < N
  apart : c.inodeSector B n ≠ c.groupSector n

variable {c B n}

theorem WellFormed.inodesPerSector_pos (hc : c.WellFormed) : 0 < c.inodesPerSector :=
  Nat.div_pos hc.most (lt_of_lt_of_le (by decide) hc.least)

theorem WellFormed.inodeOffset_le (hc : c.WellFormed) : c.inodeOffset n + Inode.length ≤ blockSize := by
  have hindex := Nat.mod_lt (c.inodeIndex n) hc.inodesPerSector_pos
  have hfit : c.inodesPerSector * c.superblock.sInodeSize ≤ blockSize := Nat.div_mul_le_self _ _
  have hstep := Nat.mul_le_mul_right c.superblock.sInodeSize (Nat.succ_le_of_lt hindex)
  rw [Nat.succ_mul] at hstep
  have hleast := hc.least
  unfold inodeOffset
  omega

theorem inodeAt_get {k : ℕ} (hk : k < Inode.length) : (c.inodeAt B n).bytes.get k =
    (B (c.inodeSector B n)).get (c.inodeOffset n + k) := by
  have hblock : k < blockSize := lt_trans hk (by decide)
  simp [inodeAt,hk,hblock]

/-- The place of an inode does not depend on other sectors than the group descriptor's. -/
theorem inodeSector_congr {B' : ℕ → Sector} (h : B' (c.groupSector n) = B (c.groupSector n)) :
    c.inodeSector B' n = c.inodeSector B n := by
  rw [inodeSector,inodeTable,h]
  rfl

theorem inodeSector_storeInode {N : ℕ} (h : c.Holds B n N) (d : Inode) :
    c.inodeSector (c.storeInode B n d) n = c.inodeSector B n :=
  inodeSector_congr (Function.update_of_ne h.apart.symm _ _)

/-- The record is found again where it was stored. -/
theorem inodeAt_storeInode {N : ℕ} (hc : c.WellFormed) (h : c.Holds B n N) (d : Inode) :
    (c.inodeAt (c.storeInode B n d) n).SameRecord d := by
  intro k hk
  rw [inodeAt_get hk,inodeSector_storeInode h,storeInode,Function.update_self,Sector.get_splice]
  have hoff := hc.inodeOffset_le (n := n)
  rw [if_pos (by omega),Nat.add_sub_cancel_left]

end Ext2Context

/-! ### Loading and flushing -/

namespace Ext2
variable {c : Ext2Context} {N fe : ℕ} {B : ℕ → Sector} {f : FileEnt} {n : ℤ} {s : Ext2State}

theorem logPlus_eq (hc : c.WellFormed) {k : ℕ} (hk : k ≤ 10) (b : Sector) :
    logPlus { c with sysbuf := b } k = c.superblock.sLogBlockSize + k := by
  have hlog := hc.log
  exact u32_of_lt (by change c.superblock.sLogBlockSize + k < _; omega)

/-- A file just after `ext2_open_inode`; the buffer is what the read left there. -/
def opened (c : Ext2Context) (B : ℕ → Sector) (n : ℤ) (buffer : Sector) : FileEnt where
  flags := ⟨true,false,false,false,false⟩
  cursor := 0
  inodeNumber := n
  sector := u32 (u32 ((c.inodeAt B n).iBlock 0 * c.sectors) + c.partStart)
  fileSector := 0
  sectorsLeft := c.sectors - 1
  blockIndex := 0
  buffer := buffer
  inode := c.inodeAt B n

section NoFault
variable {E : Env} (hE : E.NoFault) (hc : c.WellFormed) (hn : c.Holds B n N)
include hE hc hn

theorem loadInodeBlock_at (h : At c N fe B f s) : (loadInodeBlock E n).Returns s fun p t =>
    p = (c.inodeSector B n,c.inodeOffset n) ∧ At c N fe B f t ∧
      t.context = some { c with sysbuf := B (c.inodeSector B n) } := by
  obtain ⟨b,hb⟩ := h.context
  have hlog : c.superblock.sLogBlockSize + 1 < 32 := by
    have := hc.log
    omega
  refine returns_context hb (returns_divisor hc.perGroup ?_)
  rw [logPlus_eq hc (by decide)]
  refine returns_shl32 hlog ?_
  refine (readSysbuf_at hE h hn.group).bind fun _ t ht => returns_context ht.2 ?_
  refine returns_shl32 hlog ?_
  refine returns_divisor (ne_of_gt (lt_of_lt_of_le (by decide) hc.least)) ?_
  refine returns_divisor (ne_of_gt hc.inodesPerSector_pos) ?_
  refine (readSysbuf_at hE ht.1 hn.inode).bind fun _ u hu => ?_
  refine returns_ite (fun hlt => ?_) fun _ => returns_pure ⟨rfl,hu.1,hu.2⟩
  exact absurd hc.inodeOffset_le (not_le.2 hlt)

theorem openInode_at (h : At c N fe B f s) : (openInode E fe n).Returns s fun r t =>
    r = 0 ∧ ∃ b, At c N fe B (opened c B n b) t ∧
      ((opened c B n b).sector < N → b = B (opened c B n b).sector) := by
  have hlog : c.superblock.sLogBlockSize + 1 < 31 := by
    have := hc.log
    omega
  refine (loadInodeBlock_at hE hc hn h).bind fun p t ht => ?_
  obtain ⟨rfl,hat,hcontext⟩ := ht
  refine returns_context hcontext ?_
  refine (updateFile_at hat _).bind fun _ u hu => returns_file hu ?_
  rw [logPlus_eq hc (by decide)]
  refine returns_shl32 (lt_trans hlog (by decide)) ?_
  have hread : (readBuffer E fe (opened c B n .zero).sector).Returns u fun _ v => ∃ b,
      At c N fe B { f with inode := c.inodeAt B n,buffer := b } v ∧
        ((opened c B n b).sector < N → b = B (opened c B n b).sector) := by
    by_cases hlt : (opened c B n .zero).sector < N
    · exact (readBuffer_at hE hu hlt).mono fun _ v hv => ⟨_,hv.2,fun _ => rfl⟩
    · exact (readBuffer_total E hu _).mono fun _ v hv => hv.imp fun b hv => ⟨hv,fun h => absurd h hlt⟩
  refine hread.bind fun _ v hv => ?_
  obtain ⟨b,hv,hbuffer⟩ := hv
  refine returns_oneShl hlog ?_
  exact (updateFile_at hv _).bind fun _ w hw => returns_pure ⟨rfl,b,hw,hbuffer⟩

/-- Flushing an inode of a file whose data is written back stores the record. -/
theorem flushInode_at (h : At c N fe B f s) (hnumber : f.inodeNumber = n) (hclean : f.flags.dirty = false)
    (hdirty : f.flags.fsDirty = true) : (flushInode E fe).Returns s fun r t => r = 0 ∧
      At c N fe (c.storeInode B n f.inode) { f with flags.fsDirty := false } t := by
  obtain ⟨b,hb⟩ := h.context
  subst hnumber
  refine returns_file h (returns_context hb (returns_divisor hc.perGroup ?_))
  rw [if_pos hdirty]
  have hflush : (flush E fe).Returns s fun _ t => At c N fe B f t := by
    refine returns_file h ?_
    rw [if_neg (by simp [hclean])]
    exact returns_pure h
  refine hflush.bind fun _ t ht => ?_
  refine (loadInodeBlock_at hE hc hn ht).bind fun p u hu => ?_
  obtain ⟨rfl,hat,hcontext⟩ := hu
  refine returns_file hat (returns_context hcontext ?_)
  refine (setSysbuf_at hat _).bind fun _ v hv => returns_context hv.2 ?_
  refine (writeBlock_at hE hv.1 hn.inode _ _).bind fun _ w hw => ?_
  exact (updateFile_at hw.2.1 _).bind fun _ x hx => returns_pure ⟨rfl,hx⟩

end NoFault

end Ext2

end Gristle
