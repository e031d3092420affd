import Gristle.BlockGroup
import Gristle.Superblock

/-! Allocating a block of an ext2 volume. `ext2_allocate_block` looks for a free bit in the bitmap block;
`ext2_change_allocated` takes the number of that block for the number of a sector and sets a bit elsewhere. -/
namespace Gristle
open Prog

abbrev ext2Allocated : ℤ := 1
abbrev ext2Deallocated : ℤ := 0

namespace Sector

/-- `b[(i / 8) % block_get_block_size()] & (1 << (i % 8))` -/
def bit (b : Sector) (i : ℕ) : Bool := b.get (i / 8 % blockSize) &&& UInt8.ofNat (2^(i % 8)) != 0

def setBit (b : Sector) (i : ℕ) : Sector :=
  b.set (i / 8 % blockSize) (b.get (i / 8 % blockSize) ||| UInt8.ofNat (2^(i % 8)))

def clearBit (b : Sector) (i : ℕ) : Sector :=
  b.set (i / 8 % blockSize) (b.get (i / 8 % blockSize) &&& ~~~ UInt8.ofNat (2^(i % 8)))

end Sector

namespace Superblock
def sFreeBlocksCount (b : Superblock) : ℕ := b.bytes.le32 12
def sFirstDataBlock (b : Superblock) : ℕ := b.bytes.le32 20
def setFreeBlocksCount (b : Superblock) (n : ℕ) : Superblock := ⟨b.bytes.setLe32 12 n⟩
end Superblock

/-! ### The two functions -/

namespace Ext2

def updateSuperblock (u : Superblock → Superblock) : Ext2M Unit :=
  Prog.modify fun s => { s with context := s.context.map fun c => { c with superblock := u c.superblock } }

/-- The bitmap after the change, or nothing when it has been made already. -/
def changedBitmap (buf : Sector) (bitmapOffset : ℕ) (allocated : ℤ) : Option Sector :=
  if buf.bit bitmapOffset then
    if allocated = ext2Allocated then none else some (buf.clearBit bitmapOffset)
  else
    if allocated = ext2Deallocated then none else some (buf.setBit bitmapOffset)

/-- The counts of the group after the change. -/
def changedDescriptor (bg : BlockGroupDescriptor) (allocated forDirectory : ℤ) : BlockGroupDescriptor :=
  if allocated = ext2Allocated then
    let bg := bg.setFreeBlocksCount (bg.bgFreeBlocksCount + 2^16 - 1)
    if forDirectory ≠ 0 then bg.setUsedDirsCount (bg.bgUsedDirsCount + 1) else bg
  else
    let bg := bg.setFreeBlocksCount (bg.bgFreeBlocksCount + 1)
    if forDirectory ≠ 0 then bg.setUsedDirsCount (bg.bgUsedDirsCount + 2^16 - 1) else bg

/-- `ext2_change_allocated` -/
def changeAllocated (E : Env) (block : ℕ) (allocated forDirectory : ℤ) : Ext2M ℤ := do
  let c ← context
  let junk ← onDevice (Device.junk E)
  let perGroup ← divisor c.superblock.sBlocksPerGroup
  let (_,bg) ← getBgDescriptor E ⟨fun i => junk i⟩ (block / perGroup)
  let bitmapOffset := block % perGroup
  let lbaBlock := u32 (bg.bgBlockBitmap + bitmapOffset / 8 / blockSize)
  readSysbuf E (u32 (lbaBlock + c.partStart))
  match changedBitmap (← context).sysbuf bitmapOffset allocated with
  | none => pure (-1)
  | some buf =>
    setSysbuf buf
    let _ ← writeBlock E .ext2ChangeAllocated (u32 (lbaBlock + c.partStart)) buf
    let _ ← writeBgDescriptor E (changedDescriptor bg allocated forDirectory) (block / perGroup)
    updateSuperblock fun b =>
      if allocated = ext2Allocated then b.setFreeBlocksCount (u32 (b.sFreeBlocksCount + 2^32 - 1))
      else b.setFreeBlocksCount (u32 (b.sFreeBlocksCount + 1))
    pure 0

/-- `ext2_allocate_block` -/
def allocateBlock (E : Env) (previousBlock : ℕ) (forDirectory : ℤ) : Ext2M ℕ := do
  let c ← context
  let junk ← onDevice (Device.junk E)
  if previousBlock = 0 then pure 0
  else
    let perGroup ← divisor c.superblock.sBlocksPerGroup
    let bitmapOffset := u32 (previousBlock + 1) % perGroup
    if bitmapOffset = 0 then pure 0
    else
      let (_,bg) ← getBgDescriptor E ⟨fun i => junk i⟩ (previousBlock / perGroup)
      if 0 < bg.bgFreeBlocksCount then
        let lbaBlock ← shl32 bg.bgBlockBitmap (logPlus c 1)
        let lbaBlock := u32 (lbaBlock + bitmapOffset / 8 / blockSize)
        readSysbuf E (u32 (lbaBlock + c.partStart))
        if (← context).sysbuf.bit bitmapOffset then pure 0
        else if (← changeAllocated E (u32 (previousBlock + 1)) ext2Allocated forDirectory) ≠ 0 then pure 0
        else pure (u32 (previousBlock + 1))
      else pure 0

end Ext2

/-! ### The bitmaps of a volume -/

namespace Ext2Context
variable (c : Ext2Context) (B : ℕ → Sector)

/-- The descriptor of a group, from the primary table. -/
def groupAt (g : ℕ) : BlockGroupDescriptor := c.descriptorAt B c.superblockBlock g

def layoutGroup (b : ℕ) : ℕ := (b - c.superblock.sFirstDataBlock) / c.superblock.sBlocksPerGroup

def layoutIndex (b : ℕ) : ℕ := (b - c.superblock.sFirstDataBlock) % c.superblock.sBlocksPerGroup

/-- The sector of the bitmap that holds the bit of block `b`. -/
def layoutSector (b : ℕ) : ℕ :=
  (c.groupAt B (c.layoutGroup b)).bgBlockBitmap * c.sectors + c.layoutIndex b / 8 / 512 + c.partStart

/-- The bit of block `b`; the bitmaps lie where the descriptors of `B` have them. -/
def layoutBit (B' : ℕ → Sector) (b : ℕ) : Bool := (B' (c.layoutSector B b)).bit (c.layoutIndex b)

/-- The sector belongs to a block with a superblock or to a table of descriptors. -/
def Described (k : ℕ) : Prop := ∃ b ∈ c.superblockBlock :: c.superblockBlocks,
  b * c.sectors + c.partStart ≤ k ∧ k < (b + 1) * c.sectors + c.partStart ∨
    ∃ g < c.numBlockgroups, k = c.tableSector b g

/-- A well-formed volume of `N` sectors: the bitmap of a group that has free blocks is one block behind the
superblock. -/
structure Volume (N : ℕ) : Prop extends c.Tables N where
  device : N ≤ 2^32
  perGroup : c.superblock.sBlocksPerGroup ≠ 0
  oneBlock : c.superblock.sBlocksPerGroup ≤ 8 * 512 * c.sectors
  first : c.superblock.sFirstDataBlock ≤ 1
  groups : c.numBlockgroups = c.superblock.mountedGroups
  bitmap : ∀ g < c.numBlockgroups, 0 < (c.groupAt B g).bgFreeBlocksCount →
    c.superblock.sFirstDataBlock < (c.groupAt B g).bgBlockBitmap ∧
      ((c.groupAt B g).bgBlockBitmap + 1) * c.sectors + c.partStart ≤ N

/-- The sector in which the free bit is looked for. -/
def finderSector (p : ℕ) : ℕ :=
  (c.groupAt B (p / c.superblock.sBlocksPerGroup)).bgBlockBitmap * c.sectors +
    (p + 1) % c.superblock.sBlocksPerGroup / 8 / 512 + c.partStart

/-- The sector in which the bit is set. -/
def setterSector (p : ℕ) : ℕ :=
  (c.groupAt B (p / c.superblock.sBlocksPerGroup)).bgBlockBitmap +
    (p + 1) % c.superblock.sBlocksPerGroup / 8 / 512 + c.partStart

/-- The block behind `p` gets allocated: it is in the group of `p`, which has free blocks, and its bit is clear
in the sector of the finder and in that of the setter. -/
def Takes (p : ℕ) : Prop := p ≠ 0 ∧ (p + 1) % c.superblock.sBlocksPerGroup ≠ 0 ∧
  0 < (c.groupAt B (p / c.superblock.sBlocksPerGroup)).bgFreeBlocksCount ∧
  (B (c.finderSector B p)).bit ((p + 1) % c.superblock.sBlocksPerGroup) = false ∧
  (B (c.setterSector B p)).bit ((p + 1) % c.superblock.sBlocksPerGroup) = false

instance (p : ℕ) : Decidable (c.Takes B p) := inferInstanceAs (Decidable (_ ∧ _))

variable {c B} {N p : ℕ}

theorem Volume.group_lt (hv : c.Volume B N) (hp : p < c.superblock.sBlocksCount) :
    p / c.superblock.sBlocksPerGroup < c.numBlockgroups := by
  have hpos := Nat.pos_of_ne_zero hv.perGroup
  rw [hv.groups,Superblock.mountedGroups,Nat.div_lt_iff_lt_mul hpos]
  have hparts := Nat.div_add_mod c.superblock.sBlocksCount c.superblock.sBlocksPerGroup
  have hmod := Nat.mod_lt c.superblock.sBlocksCount hpos
  rw [Nat.add_mul,Nat.mul_comm (c.superblock.sBlocksCount / c.superblock.sBlocksPerGroup)]
  split
  · omega
  · omega

/-- The offset in the bitmap does not lead behind its block. -/
theorem Volume.offset_lt (hv : c.Volume B N) (p : ℕ) :
    (p + 1) % c.superblock.sBlocksPerGroup / 8 / 512 < c.sectors := by
  have hmod := Nat.mod_lt (p + 1) (Nat.pos_of_ne_zero hv.perGroup)
  have hone := hv.oneBlock
  omega

/-- A block that is not the first of its group has the group of the block before. -/
theorem Volume.layoutGroup_succ (hv : c.Volume B N) (hp : (p + 1) % c.superblock.sBlocksPerGroup ≠ 0) :
    c.layoutGroup (p + 1) = p / c.superblock.sBlocksPerGroup := by
  have hfirst := hv.first
  have hzero : c.superblock.sFirstDataBlock = 0 ∨ c.superblock.sFirstDataBlock = 1 := by omega
  rw [layoutGroup]
  rcases hzero with h | h
  · rw [h,Nat.sub_zero]
    exact Nat.succ_div_of_not_dvd fun hd => hp (Nat.mod_eq_zero_of_dvd hd)
  · rw [h,Nat.add_sub_cancel]

/-- The number of a block in its group is its remainder, or one less. -/
theorem Volume.layoutIndex_succ (hv : c.Volume B N) (hp : (p + 1) % c.superblock.sBlocksPerGroup ≠ 0) :
    c.layoutIndex (p + 1) + c.superblock.sFirstDataBlock = (p + 1) % c.superblock.sBlocksPerGroup := by
  have hfirst := hv.first
  have hpos := Nat.pos_of_ne_zero hv.perGroup
  have hzero : c.superblock.sFirstDataBlock = 0 ∨ c.superblock.sFirstDataBlock = 1 := by omega
  rw [layoutIndex]
  rcases hzero with h | h
  · rw [h,Nat.sub_zero,Nat.add_zero]
  · rw [h,Nat.add_sub_cancel]
    have hmod := Nat.mod_lt p hpos
    by_cases hlast : p % c.superblock.sBlocksPerGroup + 1 = c.superblock.sBlocksPerGroup
    · exact absurd (div_mod_succ_across hpos hlast).2 hp
    · exact (div_mod_succ_inside (by omega)).2.symm

/-- The bit is not set where ext2 has it. -/
theorem Volume.setterSector_ne (hv : c.Volume B N) (hg : p / c.superblock.sBlocksPerGroup < c.numBlockgroups)
    (hp : (p + 1) % c.superblock.sBlocksPerGroup ≠ 0)
    (hfree : 0 < (c.groupAt B (p / c.superblock.sBlocksPerGroup)).bgFreeBlocksCount) :
    c.layoutSector B (p + 1) ≠ c.setterSector B p := by
  have hbehind := (hv.bitmap _ hg hfree).1
  have hindex := hv.layoutIndex_succ hp
  have hfirst := hv.first
  have htwo : 2 ≤ c.sectors := by
    rw [sectors,Nat.pow_succ]
    have := Nat.two_pow_pos c.superblock.sLogBlockSize
    omega
  have hmul := Nat.mul_le_mul_left (c.groupAt B (p / c.superblock.sBlocksPerGroup)).bgBlockBitmap htwo
  rw [layoutSector,setterSector,hv.layoutGroup_succ hp]
  omega

end Ext2Context

/-! ### What a run does -/

namespace Ext2
variable {c : Ext2Context} {N p : ℕ} {B : ℕ → Sector} {s : Ext2State} {E : Env}

theorem writeBlock_mounted (hE : E.NoFault) {d : Ext2Context} (h : s.context = some d) (hm : Mounted c N B s)
    {b : ℕ} (hb : b < N) (o : Origin) (data : Sector) : (writeBlock E o b data).Returns s fun _ t =>
      Mounted c N (Function.update B b data) t ∧ t.context = some d := by
  have hpass : ¬ (E.writeFails s.dev.tick = true ∨ s.dev.size ≤ b) := by simp [hE.write,hm.size,hb]
  have hwrite : (writeBlock E o b data : Ext2M Bool) s = .ok (false,{ s with dev := { s.dev with
      tick := s.dev.tick + 1
      trace := .write o b data :: s.dev.trace
      blocks := Function.update s.dev.blocks b data } }) := by
    rw [writeBlock,onDevice,zoom,Device.blockWrite,if_neg hpass]
  exact ⟨_,_,hwrite,⟨hm.context,hm.size,by rw [← hm.blocks]⟩,h⟩

theorem junk_mounted (E : Env) (h : Mounted c N B s) : (onDevice (Device.junk E) : Ext2M _).Returns s fun _ t =>
    Mounted c N B t := ⟨_,_,rfl,h.context,h.size,h.blocks⟩

/-- The context with one free block less. -/
def oneLess (c : Ext2Context) : Ext2Context :=
  { c with superblock := c.superblock.setFreeBlocksCount (u32 (c.superblock.sFreeBlocksCount + 2^32 - 1)) }

/-- An allocation of the block behind `p` sets a bit in the sector of the setter, if it was clear. -/
theorem changeAllocated_mounted (hE : E.NoFault) (hv : c.Volume B N) (hm : Mounted c N B s)
    (hg : p / c.superblock.sBlocksPerGroup < c.numBlockgroups)
    (hp : (p + 1) % c.superblock.sBlocksPerGroup ≠ 0) (hsector : c.setterSector B p < N) (forDirectory : ℤ) :
    (changeAllocated E (p + 1) ext2Allocated forDirectory).Returns s fun r t =>
      if (B (c.setterSector B p)).bit ((p + 1) % c.superblock.sBlocksPerGroup) = true then
        r = -1 ∧ Mounted c N B t
      else r = 0 ∧ Mounted (oneLess c) N (Function.update B (c.setterSector B p)
        ((B (c.setterSector B p)).setBit ((p + 1) % c.superblock.sBlocksPerGroup))) t := by
  have hgroup : (p + 1) / c.superblock.sBlocksPerGroup = p / c.superblock.sBlocksPerGroup :=
    Nat.succ_div_of_not_dvd fun hd => hp (Nat.mod_eq_zero_of_dvd hd)
  have hdev := hv.device
  have hplace : u32 (u32 ((c.groupAt B (p / c.superblock.sBlocksPerGroup)).bgBlockBitmap +
      (p + 1) % c.superblock.sBlocksPerGroup / 8 / blockSize) + c.partStart) = c.setterSector B p := by
    have hexact : (c.groupAt B (p / c.superblock.sBlocksPerGroup)).bgBlockBitmap +
        (p + 1) % c.superblock.sBlocksPerGroup / 8 / 512 + c.partStart < 2^32 := lt_of_lt_of_le hsector hdev
    change u32 (u32 (_ + _ / 8 / 512) + _) = _
    rw [u32_of_lt (show (c.groupAt B (p / c.superblock.sBlocksPerGroup)).bgBlockBitmap +
      (p + 1) % c.superblock.sBlocksPerGroup / 8 / 512 < 2^32 by omega),u32_of_lt hexact]
    rfl
  obtain ⟨b,hb⟩ := hm.context
  refine returns_context hb ((junk_mounted E hm).bind fun junk t ht => returns_divisor hv.perGroup ?_)
  rw [hgroup]
  refine (getBgDescriptor_mounted hE hv.toTables ht _ _).bind fun q u hq => ?_
  obtain ⟨hq,hu⟩ := hq
  rw [if_pos hg] at hq
  subst hq
  refine (readSysbuf_mounted E hu _).bind fun _ v hread => ?_
  have hcontext : v.context = some { c with sysbuf := B (c.setterSector B p) } := by
    rw [← hplace]
    exact hread.2 hE (hplace ▸ hsector)
  refine returns_context hcontext ?_
  change Returns (match changedBitmap (B (c.setterSector B p)) _ ext2Allocated with
    | none => pure (-1)
    | some buf => _) v _
  rw [changedBitmap]
  by_cases hbit : (B (c.setterSector B p)).bit ((p + 1) % c.superblock.sBlocksPerGroup) = true
  · rw [if_pos hbit,if_pos rfl]
    refine returns_pure ?_
    rw [if_pos hbit]
    exact ⟨rfl,hread.1⟩
  · rw [if_neg hbit,if_neg (by decide)]
    refine (setSysbuf_mounted hread.1 _).bind fun _ w hw => ?_
    change Returns (writeBlock E _ (u32 (u32 ((c.groupAt B (p / c.superblock.sBlocksPerGroup)).bgBlockBitmap +
      (p + 1) % c.superblock.sBlocksPerGroup / 8 / blockSize) + c.partStart)) _ >>= _) w _
    rw [hplace]
    refine (writeBlock_mounted hE hw.2 hw.1 hsector _ _).bind fun _ x hx => ?_
    refine (writeBgDescriptor_mounted E hv.log _ _ hx.1).bind fun _ y hy => ?_
    obtain ⟨b',hb'⟩ := hy.2.context
    refine Returns.bind (Q := fun _ z => Mounted (oneLess c) N (Function.update B (c.setterSector B p)
      ((B (c.setterSector B p)).setBit ((p + 1) % c.superblock.sBlocksPerGroup))) z)
      (returns_modify ⟨⟨b',?_⟩,hy.2.size,hy.2.blocks⟩) fun _ z hz => returns_pure ?_
    · change y.context.map _ = _
      rw [hb']
      rfl
    · rw [if_neg hbit]
      exact ⟨rfl,hz⟩

/-- `ext2_allocate_block` in full: nothing happens, or a bit is set in the sector of the setter. -/
theorem allocateBlock_mounted (hE : E.NoFault) (hv : c.Volume B N) (hm : Mounted c N B s)
    (hp : p < c.superblock.sBlocksCount) (forDirectory : ℤ) :
    (allocateBlock E p forDirectory).Returns s fun b t =>
      if c.Takes B p then b = p + 1 ∧ Mounted (oneLess c) N (Function.update B (c.setterSector B p)
        ((B (c.setterSector B p)).setBit ((p + 1) % c.superblock.sBlocksPerGroup))) t
      else b = 0 ∧ Mounted c N B t := by
  have hg := hv.group_lt hp
  have hcount : c.superblock.sBlocksCount < 2^32 := c.superblock.bytes.le32_lt 4
  have hnext : u32 (p + 1) = p + 1 := u32_of_lt (by omega)
  have hdev := hv.device
  have hnone {t : Ext2State} (ht : Mounted c N B t) (hnot : ¬ c.Takes B p) : (pure 0 : Ext2M ℕ).Returns t
      fun b t => if c.Takes B p then b = p + 1 ∧ Mounted (oneLess c) N (Function.update B (c.setterSector B p)
        ((B (c.setterSector B p)).setBit ((p + 1) % c.superblock.sBlocksPerGroup))) t
      else b = 0 ∧ Mounted c N B t := by
    refine returns_pure ?_
    rw [if_neg hnot]
    exact ⟨rfl,ht⟩
  obtain ⟨b,hb⟩ := hm.context
  refine returns_context hb ((junk_mounted E hm).bind fun junk t ht => ?_)
  refine returns_ite (fun hzero => hnone ht fun h => h.1 hzero) fun hzero => ?_
  refine returns_divisor hv.perGroup ?_
  rw [hnext]
  refine returns_ite (fun hend => hnone ht fun h => h.2.1 hend) fun hend => ?_
  have hend : (p + 1) % c.superblock.sBlocksPerGroup ≠ 0 := hend
  refine (getBgDescriptor_mounted hE hv.toTables ht _ _).bind fun q u hq => ?_
  obtain ⟨hq,hu⟩ := hq
  rw [if_pos hg] at hq
  subst hq
  change Returns (if 0 < (c.groupAt B (p / c.superblock.sBlocksPerGroup)).bgFreeBlocksCount then _ else _) u _
  refine returns_ite (fun hfree => ?_) fun hfull => hnone hu fun h => hfull h.2.2.1
  obtain ⟨-,hinside⟩ := hv.bitmap _ hg hfree
  have hoffset := hv.offset_lt p
  rw [Nat.add_mul,Nat.one_mul] at hinside
  have hfinder : c.finderSector B p < N := by
    rw [Ext2Context.finderSector]
    omega
  have hsetter : c.setterSector B p < N := by
    have hmul := Nat.le_mul_of_pos_right (c.groupAt B (p / c.superblock.sBlocksPerGroup)).bgBlockBitmap c.sectors_pos
    rw [Ext2Context.setterSector]
    omega
  have hplace : u32 (u32 (u32 ((c.groupAt B (p / c.superblock.sBlocksPerGroup)).bgBlockBitmap * c.sectors) +
      (p + 1) % c.superblock.sBlocksPerGroup / 8 / 512) + c.partStart) = c.finderSector B p := by
    rw [Ext2Context.finderSector] at hfinder ⊢
    rw [u32_of_lt (show (c.groupAt B (p / c.superblock.sBlocksPerGroup)).bgBlockBitmap * c.sectors < 2^32 by omega),
      u32_of_lt (show (c.groupAt B (p / c.superblock.sBlocksPerGroup)).bgBlockBitmap * c.sectors +
        (p + 1) % c.superblock.sBlocksPerGroup / 8 / 512 < 2^32 by omega),u32_of_lt (by omega)]
  rw [logPlus_one hv.log]
  refine returns_shl32 hv.log ?_
  change Returns (readSysbuf E (u32 (u32 (u32 ((c.groupAt B (p / c.superblock.sBlocksPerGroup)).bgBlockBitmap *
    c.sectors) + (p + 1) % c.superblock.sBlocksPerGroup / 8 / 512) + c.partStart)) >>= _) u _
  rw [hplace]
  refine (readSysbuf_mounted E hu _).bind fun _ v hv' => ?_
  refine returns_context (hv'.2 hE hfinder) (returns_ite (fun hbit => hnone hv'.1 fun h => ?_) fun hbit => ?_)
  · have hbit : (B (c.finderSector B p)).bit ((p + 1) % c.superblock.sBlocksPerGroup) = true := hbit
    rw [h.2.2.2.1] at hbit
    cases hbit
  have hbit : (B (c.finderSector B p)).bit ((p + 1) % c.superblock.sBlocksPerGroup) = false := by
    simpa using hbit
  refine (changeAllocated_mounted hE hv hv'.1 hg hend hsetter forDirectory).bind fun r w hw => ?_
  by_cases hset : (B (c.setterSector B p)).bit ((p + 1) % c.superblock.sBlocksPerGroup) = true
  · rw [if_pos hset] at hw
    obtain ⟨rfl,hw⟩ := hw
    refine returns_ite (fun _ => hnone hw fun h => ?_) fun h => absurd (by decide) h
    rw [h.2.2.2.2] at hset
    cases hset
  · rw [if_neg hset] at hw
    obtain ⟨rfl,hw⟩ := hw
    rw [if_neg (by decide)]
    refine returns_pure ?_
    rw [if_pos ⟨hzero,hend,hfree,hbit,by simpa using hset⟩]
    exact ⟨rfl,hw⟩

/-! ### Against the layout of ext2 -/

/-- What a call that returned `b` should have done to the volume `B`. -/
structure AllocatesExactly (c : Ext2Context) (B : ℕ → Sector) (p b : ℕ) (t : Ext2State) : Prop where
  next : b ≠ 0 → b = p + 1
  free : b ≠ 0 → c.layoutBit B B b = false
  taken : b ≠ 0 → c.layoutBit B t.dev.blocks b = true
  frame : b ≠ 0 → ∀ k, ∀ i < 512, ¬ c.Described k → (k = c.layoutSector B b → i ≠ c.layoutIndex b / 8 % 512) →
    (t.dev.blocks k).get i = (B k).get i
  count : b ≠ 0 → ∃ c', t.context = some c' ∧
    c'.superblock.sFreeBlocksCount + 1 = c.superblock.sFreeBlocksCount
  refused : b = 0 → t.dev.blocks = B

/-- The driver keeps to the layout exactly when it allocates nothing. -/
theorem allocateBlock_exact_iff (hE : E.NoFault) (hv : c.Volume B N) (hm : Mounted c N B s)
    (hp : p < c.superblock.sBlocksCount) (forDirectory : ℤ) :
    (allocateBlock E p forDirectory).Returns s fun b t => (AllocatesExactly c B p b t ↔ ¬ c.Takes B p) := by
  refine (allocateBlock_mounted hE hv hm hp forDirectory).mono fun b t ht => ?_
  by_cases htakes : c.Takes B p
  · rw [if_pos htakes] at ht
    obtain ⟨rfl,ht⟩ := ht
    refine iff_of_false (fun h => ?_) (not_not.2 htakes)
    have hne := hv.setterSector_ne (hv.group_lt hp) htakes.2.1 htakes.2.2.1
    have hfree := h.free (Nat.succ_ne_zero p)
    have htaken := h.taken (Nat.succ_ne_zero p)
    -- the sector of the bit is the one from before
    rw [Ext2Context.layoutBit,ht.blocks,Function.update_of_ne hne] at htaken
    rw [Ext2Context.layoutBit,htaken] at hfree
    cases hfree
  · rw [if_neg htakes] at ht
    obtain ⟨rfl,ht⟩ := ht
    refine iff_of_true ⟨?_,?_,?_,?_,?_,fun _ => ht.blocks⟩ htakes
    all_goals exact fun h => absurd rfl h

/-- One group of sixteen blocks of 1024 bytes. -/
def bitmapContext : Ext2Context where
  partStart := 0
  superblock := ⟨((Sector.zero.setLe32 4 16).setLe32 20 1).setLe32 32 16⟩
  sparse := false
  sysbuf := .zero
  superblockBlock := 1
  readOnly := 0
  numBlockgroups := 1
  superblockBlocks := [1]

/-- The descriptor in sector 4 has five free blocks and the bitmap in block 7, which is filled with one byte. -/
def bitmapExt2 (fill : UInt8) : ℕ → Sector
  | 4 => (Sector.zero.setLe32 0 7).setLe16 12 5
  | 14 => fun _ => fill
  | _ => fun _ => 0

def bitmapState (fill : UInt8) : Ext2State where
  dev := ⟨bitmapExt2 fill,32,0,[]⟩
  context := some bitmapContext
  files := fun _ => none
  nextFile := 0
  de := ⟨0,fun _ => 0⟩

theorem bitmapExt2_volume : bitmapContext.Volume (bitmapExt2 255) 32 := by
  have hzero {g : ℕ} (hg : g < bitmapContext.numBlockgroups) : g = 0 := Nat.lt_one_iff.1 hg
  refine ⟨⟨by decide +kernel,fun g hg => ?_⟩,by decide,by decide +kernel,by decide +kernel,by decide +kernel,
    by decide +kernel,fun g hg _ => ?_⟩
  · rw [hzero hg]
    decide +kernel
  · rw [hzero hg]
    decide +kernel

/-- Where the next block is marked as used, the volume stays as it is. -/
theorem allocateBlock_exact_used : (allocateBlock (Env.calm (fun _ => 90) 8) 9 0).Returns (bitmapState 255)
    fun b t => AllocatesExactly bitmapContext (bitmapExt2 255) 9 b t := by
  have hE : (Env.calm (fun _ => 90) 8).NoFault := ⟨fun _ => rfl,fun _ => rfl,fun _ => rfl⟩
  have hm : Mounted bitmapContext 32 (bitmapExt2 255) (bitmapState 255) := ⟨⟨.zero,rfl⟩,rfl,rfl⟩
  refine (allocateBlock_exact_iff hE bitmapExt2_volume hm (by decide +kernel) 0).mono fun b t ht => ht.2 ?_
  decide +kernel

/-- Where it is free, block 10 is returned and its bit stays clear. -/
theorem allocateBlock_misses_bit : (allocateBlock (Env.calm (fun _ => 90) 8) 9 0).Returns (bitmapState 0)
    fun b t => b = 10 ∧ ¬ AllocatesExactly bitmapContext (bitmapExt2 0) 9 b t := by
  have hrun : Prog.test (allocateBlock (Env.calm (fun _ => 90) 8) 9 0) (bitmapState 0) (fun b t =>
      decide (b = 10) && !bitmapContext.layoutBit (bitmapExt2 0) t.dev.blocks 10) = true := by decide +kernel
  obtain ⟨b,t,hrun,ht⟩ := ok_of_test hrun
  obtain ⟨rfl,hbit⟩ : b = 10 ∧ bitmapContext.layoutBit (bitmapExt2 0) t.dev.blocks 10 = false := by
    simpa using ht
  refine ⟨10,t,hrun,rfl,fun h => ?_⟩
  rw [h.taken (by decide)] at hbit
  cases hbit

end Ext2

end Gristle
