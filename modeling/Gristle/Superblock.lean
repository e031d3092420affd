import Gristle.Inode
import Gristle.Volume

/-! Mounting and unmounting an ext2 volume: which copies of the superblock are written back, where
they go, and what becomes of the superblock that was read. -/
namespace Gristle
open Prog

namespace Superblock

def sBlockGroupNr (b : Superblock) : ℕ := b.bytes.le16 90

/-- `EXT2_FEATURE_RO_COMPAT_SPARSE_SUPER` on a file system of revision 1. -/
def Sparse (b : Superblock) : Prop := b.sRevLevel = 1 ∧ b.sFeatureRoCompat &&& 1 ≠ 0

instance (b : Superblock) : Decidable b.Sparse := inferInstanceAs (Decidable (_ ∧ _))

/-- The block of the first superblock. -/
def firstBlock (b : Superblock) : ℕ := if b.sLogBlockSize = 0 then 1 else 0

/-- Sectors in a block. -/
def sectors (b : Superblock) : ℕ := 2^(b.sLogBlockSize + 1)

/-- The block groups, as `ext2_mount` counts them. -/
def mountedGroups (b : Superblock) : ℕ :=
  b.sBlocksCount / b.sBlocksPerGroup + if b.sBlocksCount % b.sBlocksPerGroup ≠ 0 then 1 else 0

/-- The groups `is_power` finds: it is called with its arguments exchanged. -/
def powerGroups : List ℕ := [0,1,3,5,7]

/-- The groups whose copy `ext2_umount` writes. -/
def mountedCopies (b : Superblock) : List ℕ :=
  if b.Sparse then (List.range b.mountedGroups).filter (· ∈ powerGroups) else List.range b.mountedGroups

/-- The block number `ext2_mount` computes for the copy of a group. -/
def copyBlock (b : Superblock) (k : ℕ) : ℕ := u32 (k * b.sBlocksPerGroup + b.firstBlock)

/-- The superblock after a mount at time `now`. -/
def mounted (b : Superblock) (now : ℤ) : Superblock := (b.setMtime now).setMntCount (b.sMntCount + 1)

/-- The sector that is written for a copy. -/
def image (b : Superblock) (nr : ℕ) : Sector :=
  Sector.zero.splice 0 size (b.setBlockGroupNr nr).bytes.get

/-! ### The fields -/

/-- The fields that say where the copies are. -/
structure SameShape (b b' : Superblock) : Prop where
  blocks : b'.sBlocksCount = b.sBlocksCount
  log : b'.sLogBlockSize = b.sLogBlockSize
  perGroup : b'.sBlocksPerGroup = b.sBlocksPerGroup
  rev : b'.sRevLevel = b.sRevLevel
  feature : b'.sFeatureRoCompat = b.sFeatureRoCompat

theorem le16_congr {b b' : Sector} {i : ℕ} (h : ∀ j, i ≤ j → j < i + 2 → b'.get j = b.get j) :
    b'.le16 i = b.le16 i := by
  rw [Sector.le16,Sector.le16,h i (by omega) (by omega),h (i+1) (by omega) (by omega)]

theorem le32_congr {b b' : Sector} {i : ℕ} (h : ∀ j, i ≤ j → j < i + 4 → b'.get j = b.get j) :
    b'.le32 i = b.le32 i := by
  rw [Sector.le32,Sector.le32,le16_congr fun j h₁ h₂ => h j h₁ (by omega),
    le16_congr fun j h₁ h₂ => h j (by omega) (by omega)]

/-- The bytes of a mount: `s_mtime`, `s_mnt_count` and `s_block_group_nr`. -/
def Touched (i : ℕ) : Prop := 44 ≤ i ∧ i < 48 ∨ 52 ≤ i ∧ i < 54 ∨ 90 ≤ i ∧ i < 92

theorem SameShape.of_bytes {b b' : Superblock}
    (h : ∀ i < size, ¬ Touched i → b'.bytes.get i = b.bytes.get i) : SameShape b b' := by
  have hfield (i : ℕ) (hi : i + 4 ≤ size) (ht : ∀ j, i ≤ j → j < i + 4 → ¬ Touched j) :
      b'.bytes.le32 i = b.bytes.le32 i := le32_congr fun j h₁ h₂ => h j (by omega) (ht j h₁ h₂)
  constructor
  · exact hfield 4 (by decide) fun j _ _ => by unfold Touched; omega
  · exact hfield 24 (by decide) fun j _ _ => by unfold Touched; omega
  · exact hfield 32 (by decide) fun j _ _ => by unfold Touched; omega
  · exact hfield 76 (by decide) fun j _ _ => by unfold Touched; omega
  · exact hfield 100 (by decide) fun j _ _ => by unfold Touched; omega

theorem SameShape.refl (b : Superblock) : SameShape b b := ⟨rfl,rfl,rfl,rfl,rfl⟩

theorem SameShape.trans {b b' b'' : Superblock} (h : SameShape b b') (h' : SameShape b' b'') : SameShape b b'' :=
  ⟨h'.blocks.trans h.blocks,h'.log.trans h.log,h'.perGroup.trans h.perGroup,h'.rev.trans h.rev,
    h'.feature.trans h.feature⟩

theorem SameShape.copies {b b' : Superblock} (h : SameShape b b') :
    b'.mountedCopies.map b'.copyBlock = b.mountedCopies.map b.copyBlock := by
  have hgroups : b'.mountedGroups = b.mountedGroups := by rw [mountedGroups,mountedGroups,h.blocks,h.perGroup]
  have hsparse : b'.Sparse ↔ b.Sparse := by rw [Sparse,Sparse,h.rev,h.feature]
  have hcopies : b'.mountedCopies = b.mountedCopies := by simp only [mountedCopies,hgroups,hsparse]
  have hblock : b'.copyBlock = b.copyBlock := by
    funext k
    rw [copyBlock,copyBlock,firstBlock,firstBlock,h.log,h.perGroup]
  rw [hcopies,hblock]

@[simp] theorem sLogBlockSize_setBlockGroupNr (b : Superblock) (n : ℕ) :
    (b.setBlockGroupNr n).sLogBlockSize = b.sLogBlockSize :=
  le32_congr fun j h₁ h₂ => by
    rw [setBlockGroupNr,Sector.get_setLe16 _ _ _ _ (by decide),if_neg (by omega),if_neg (by omega)]

@[simp] theorem setBlockGroupNr_setBlockGroupNr (b : Superblock) (m n : ℕ) :
    (b.setBlockGroupNr m).setBlockGroupNr n = b.setBlockGroupNr n := by
  refine congrArg Superblock.mk (Sector.ext_get fun i _ => ?_)
  simp only [setBlockGroupNr,Sector.get_setLe16 _ _ _ _ (show 90 + 1 < blockSize by decide)]
  split_ifs <;> rfl

@[simp] theorem image_setBlockGroupNr (b : Superblock) (m n : ℕ) : (b.setBlockGroupNr m).image n = b.image n := by
  rw [image,image,setBlockGroupNr_setBlockGroupNr]

/-- A mount changes the two fields it sets. -/
theorem get_mounted (b : Superblock) (now : ℤ) {i : ℕ} (h : ¬ (44 ≤ i ∧ i < 48)) (h' : ¬ (52 ≤ i ∧ i < 54)) :
    (b.mounted now).bytes.get i = b.bytes.get i := by
  rw [mounted,setMntCount,Sector.get_setLe16 _ _ _ _ (by decide),if_neg (by omega),if_neg (by omega),setMtime,
    Sector.get_setLe32_of_ne _ _ _ _ (by decide) (by omega)]

theorem sameShape_mounted (b : Superblock) (now : ℤ) : SameShape b (b.mounted now) :=
  .of_bytes fun _ _ h => get_mounted b now (fun h' => h (.inl h')) fun h' => h (.inr (.inl h'))

theorem get_image (b : Superblock) (n : ℕ) {i : ℕ} (hi : i < size) (h : ¬ (90 ≤ i ∧ i < 92)) :
    (b.image n).get i = b.bytes.get i := by
  have hsize : i < blockSize := lt_trans hi (by decide)
  rw [image,Sector.get_splice,if_pos ⟨Nat.zero_le _,by omega,hsize⟩,setBlockGroupNr,
    Sector.get_setLe16 _ _ _ _ (by decide),if_neg (by omega),if_neg (by omega)]
  rfl

/-- The copy carries the number it is written with. -/
theorem le16_image (b : Superblock) (n : ℕ) : (b.image n).le16 90 = n % 2^16 := by
  rw [← Sector.le16_setLe16 b.bytes 90 n (by decide)]
  refine le16_congr fun j h₁ h₂ => ?_
  rw [image,Sector.get_splice,if_pos ⟨Nat.zero_le _,by change j < 0 + 264; omega,by change j < 512; omega⟩]
  rfl

/-- A buffer that is zero behind the superblock takes the next copy like an empty one. -/
theorem splice_of_zero {buf : Sector} (h : ∀ i, size ≤ i → buf.get i = 0) (f : ℕ → UInt8) :
    buf.splice 0 size f = Sector.zero.splice 0 size f := by
  refine Sector.ext_get fun i hi => ?_
  rw [Sector.get_splice,Sector.get_splice]
  split
  · rfl
  · rw [h i (by omega)]
    simp [Sector.get,Sector.zero]

end Superblock

/-! ### Mounting -/

namespace Ext2
variable {E : Env}

/-- The loop of `is_power` on a prime. -/
theorem isPower_prime {p i n : ℕ} (hp : p.Prime) (hi : 2 ≤ i) (s : Ext2State) :
    isPower (n+2) p i s = .ok (decide (i = p),s) := by
  rw [isPower,divisor,if_neg (by omega),Prog.pure_bind,run_ite]
  split
  · rename_i hmod
    obtain rfl : i = p := (hp.eq_one_or_self_of_dvd i (Nat.dvd_of_mod_eq_zero hmod)).resolve_left (by omega)
    rw [Nat.div_self (by omega),isPower,divisor,if_neg (by omega),Prog.pure_bind,run_ite,
      if_neg (by rw [Nat.mod_eq_of_lt (by omega)]; decide)]
    simp
  · rename_i hmod
    have hne : i ≠ p := by
      rintro rfl
      exact hmod (Nat.mod_self i)
    simp [hne,hp.ne_one]

theorem hasBackup_eq (hfuel : 2 ≤ E.fuel) (i : ℕ) (s : Ext2State) :
    hasBackup E i s = .ok (decide (i ∈ Superblock.powerGroups),s) := by
  obtain ⟨n,hn⟩ := Nat.exists_eq_add_of_le' hfuel
  rw [hasBackup,run_ite]
  split
  · rename_i h
    rcases h with rfl | rfl <;> rfl
  · rename_i h
    have hi : 2 ≤ i := by omega
    rw [hn,bind_of_ok (isPower_prime Nat.prime_three hi s),run_ite]
    by_cases h₃ : i = 3
    · simp [h₃,Superblock.powerGroups]
    rw [if_neg (by simp [h₃]),bind_of_ok (isPower_prime Nat.prime_five hi s),run_ite]
    by_cases h₅ : i = 5
    · simp [h₅,Superblock.powerGroups]
    rw [if_neg (by simp [h₅]),isPower_prime (by decide) hi s]
    simp [Superblock.powerGroups,h₃,h₅,show i ≠ 0 by omega,show i ≠ 1 by omega]

theorem backupGroups_eq (hfuel : 2 ≤ E.fuel) (n i : ℕ) (s : Ext2State) :
    backupGroups E n i s = .ok ((List.range' i n).filter (· ∈ Superblock.powerGroups),s) := by
  induction n generalizing i with
  | zero => rfl
  | succ n ih =>
    rw [backupGroups,bind_of_ok (hasBackup_eq hfuel i s),bind_of_ok (ih (i+1)),List.range'_succ,
      List.filter_cons]
    rfl

/-- The superblock as `ext2_mount` reads it. -/
def superblockAt (B : ℕ → Sector) (part : ℕ) : Superblock :=
  ⟨Sector.zero.splice 0 Superblock.size (B (u32 (part + 2))).get⟩

/-- The context of a fresh mount. -/
structure Fresh (c : Ext2Context) (part : ℕ) (sb : Superblock) (now : ℤ) : Prop where
  part : c.partStart = part
  superblock : c.superblock = sb.mounted now
  copies : c.superblockBlocks = sb.mountedCopies.map sb.copyBlock

/-- What a mount or an unmount does besides writing blocks: it asks `n` questions. -/
structure Asked (s t : Ext2State) (n : ℕ) : Prop where
  size : t.dev.size = s.dev.size
  tick : t.dev.tick = s.dev.tick + n

theorem mount_returns (hE : E.NoFault) (hfuel : 2 ≤ E.fuel) {s : Ext2State} {part : ℕ}
    (hin : u32 (part + 2) < s.dev.size) (hgroup : (superblockAt s.dev.blocks part).sBlocksPerGroup ≠ 0) :
    (mount E part).Returns s fun r t => r = 0 ∧ t.dev.blocks = s.dev.blocks ∧ Asked s t 3 ∧
      ∃ c, t.context = some c ∧
        Fresh c part (superblockAt s.dev.blocks part) (E.clock (s.dev.tick + 2)) := by
  have hread : (onDevice (Device.blockRead E (u32 (part + 2))) : Ext2M _)
      { s with dev := { s.dev with tick := s.dev.tick + 1 } } =
      .ok (some (s.dev.blocks (u32 (part + 2))),{ s with dev := { s.dev with tick := s.dev.tick + 2 } }) := by
    rw [onDevice,zoom,Device.blockRead]
    simp [hE.read,hin]
  have hcopies (u : Ext2State) : (if (superblockAt s.dev.blocks part).Sparse then
      backupGroups E (superblockAt s.dev.blocks part).mountedGroups 0
      else pure (List.range (superblockAt s.dev.blocks part).mountedGroups) : Ext2M (List ℕ)) u =
      .ok ((superblockAt s.dev.blocks part).mountedCopies,u) := by
    rw [Superblock.mountedCopies,run_ite,List.range_eq_range',backupGroups_eq hfuel]
    split <;> rfl
  refine returns_bind_of_ok rfl (returns_bind_of_ok hread ?_)
  refine returns_divisor hgroup (returns_bind_of_ok (hcopies _) ?_)
  refine returns_bind_of_ok rfl (returns_bind_of_ok rfl ?_)
  exact returns_pure ⟨rfl,rfl,⟨rfl,rfl⟩,_,rfl,rfl,rfl,rfl⟩

/-! ### Unmounting -/

/-- Copies `bs` of the superblock were written, each to the sector `loc` says, the others not touched. -/
structure Copied (sb : Superblock) (loc : ℕ → ℕ) (bs : List ℕ) (size : ℕ) (B B' : ℕ → Sector) : Prop where
  others : ∀ x, (∀ b ∈ bs, loc b ≠ x) → B' x = B x
  copies : ∀ b ∈ bs, (∀ b' ∈ bs, loc b' = loc b → b' = b) → loc b < size → B' (loc b) = sb.image b

/-- The sector of a block that holds a copy. -/
def copySector (log part b : ℕ) : ℕ := u32 (u32 (b * 2^(log+1)) + part)

theorem writeBlock_total (hE : E.NoFault) (o : Origin) (b : ℕ) (data : Sector) (s : Ext2State) :
    (writeBlock E o b data).Returns s fun _ t => (b < s.dev.size → t.dev.blocks b = data) ∧
      (∀ x, x ≠ b → t.dev.blocks x = s.dev.blocks x) ∧ t.context = s.context ∧ Asked s t 1 := by
  by_cases hb : s.dev.size ≤ b
  · refine ⟨true,{ s with dev := { s.dev with tick := s.dev.tick + 1, trace := .write o b data :: s.dev.trace } },
      ?_,fun h => absurd h (by omega),fun _ _ => rfl,rfl,rfl,rfl⟩
    rw [writeBlock,onDevice,zoom,Device.blockWrite,if_pos (.inr hb)]
  · refine ⟨false,{ s with dev := { s.dev with
      blocks := Function.update s.dev.blocks b data, tick := s.dev.tick + 1, trace := .write o b data :: s.dev.trace } },
      ?_,fun _ => Function.update_self _ _ _,fun x hx => Function.update_of_ne hx _ _,rfl,rfl,rfl⟩
    rw [writeBlock,onDevice,zoom,Device.blockWrite,if_neg (by simp [hE.write,hb])]

theorem flushSuperblockLoop_returns (hE : E.NoFault) (bs : List ℕ) {s : Ext2State} {c : Ext2Context}
    (hc : s.context = some c) (hlog : c.superblock.sLogBlockSize < 31)
    (hzero : ∀ i, Superblock.size ≤ i → c.sysbuf.get i = 0) :
    (flushSuperblockLoop E bs).Returns s fun _ t => Asked s t bs.length ∧
      Copied c.superblock (copySector c.superblock.sLogBlockSize c.partStart) bs s.dev.size s.dev.blocks
        t.dev.blocks := by
  induction bs generalizing s c with
  | nil => exact returns_pure ⟨⟨rfl,rfl⟩,fun _ _ => rfl,fun b hb => absurd hb (by simp)⟩
  | cons b rest ih =>
    refine returns_context hc (returns_bind_of_ok rfl ?_)
    have hplus : logPlus c 1 = c.superblock.sLogBlockSize + 1 := u32_of_lt (by omega)
    refine returns_shl32 (by omega) (returns_bind_of_ok rfl ?_)
    rw [hplus,Superblock.splice_of_zero hzero]
    refine (writeBlock_total hE _ _ _ _).bind fun _ t ht => ?_
    obtain ⟨hat,hbut,hcontext,hasked⟩ := ht
    refine (ih hcontext ?_ ?_).mono fun _ u hu => ?_
    · rw [Superblock.sLogBlockSize_setBlockGroupNr]
      exact hlog
    · intro i hi
      rw [Sector.get_splice,if_neg (by omega)]
      simp [Sector.get,Sector.zero]
    obtain ⟨hasked',hcopied⟩ := hu
    simp only [Superblock.sLogBlockSize_setBlockGroupNr] at hcopied
    refine ⟨⟨hasked'.size.trans hasked.size,?_⟩,fun x hx => ?_,fun b' hb' huniq hlt => ?_⟩
    · rw [hasked'.tick,hasked.tick,List.length_cons]
      exact Nat.add_right_comm _ _ _
    · rw [hcopied.others x fun b' hb' => hx b' (List.mem_cons_of_mem _ hb')]
      exact hbut x (hx b List.mem_cons_self).symm
    · by_cases hrest : b' ∈ rest
      · rw [← c.superblock.image_setBlockGroupNr b b']
        exact hcopied.copies b' hrest (fun b'' h => huniq b'' (List.mem_cons_of_mem _ h)) (hlt.trans_eq hasked.size.symm)
      · obtain rfl := (List.mem_cons.1 hb').resolve_right hrest
        have hlast := hcopied.others (copySector c.superblock.sLogBlockSize c.partStart b') fun b'' h he =>
          hrest (huniq b'' (List.mem_cons_of_mem _ h) he ▸ h)
        rw [hlast]
        exact hat hlt

/-- `ext2_mount` and `ext2_umount`. -/
def cycle (E : Env) (part : ℕ) : Ext2M Unit := do
  let _ ← mount E part
  let _ ← umount E
  pure ()

/-- Cycles with no other operation. -/
def cycles (E : Env) (part : ℕ) : ℕ → Ext2M Unit
  | 0 => pure ()
  | n+1 => do
    cycles E part n
    cycle E part

theorem cycle_returns (hE : E.NoFault) (hfuel : 2 ≤ E.fuel) {s : Ext2State} {part : ℕ} {sb : Superblock}
    (hin : u32 (part + 2) < s.dev.size) (hgroup : sb.sBlocksPerGroup ≠ 0) (hlog : sb.sLogBlockSize < 31)
    (hsb : superblockAt s.dev.blocks part = sb) : (cycle E part).Returns s fun _ t =>
      Asked s t (3 + sb.mountedCopies.length) ∧ Copied (sb.mounted (E.clock (s.dev.tick + 2)))
        (copySector sb.sLogBlockSize part) (sb.mountedCopies.map sb.copyBlock) s.dev.size s.dev.blocks
        t.dev.blocks := by
  subst hsb
  refine (mount_returns hE hfuel hin hgroup).bind fun _ t ht => ?_
  obtain ⟨-,hblocks,hasked,c,hc,hfresh⟩ := ht
  have hlogc : c.superblock.sLogBlockSize = (superblockAt s.dev.blocks part).sLogBlockSize := by
    rw [hfresh.superblock]
    exact (Superblock.sameShape_mounted _ _).log
  have hcontext : ({ t with context := t.context.map fun c => { c with sysbuf := .zero } } : Ext2State).context =
      some { c with sysbuf := .zero } := by
    simp [hc]
  have hflush := flushSuperblockLoop_returns hE c.superblockBlocks hcontext (by rw [hlogc]; exact hlog)
    fun i _ => by simp [Sector.get,Sector.zero]
  have humount : (umount E).Returns t fun _ u => Asked t u c.superblockBlocks.length ∧
      Copied c.superblock (copySector c.superblock.sLogBlockSize c.partStart) c.superblockBlocks t.dev.size
        t.dev.blocks u.dev.blocks := by
    refine Returns.bind (returns_context hc (returns_bind_of_ok rfl hflush)) fun _ u hu => ?_
    exact returns_bind_of_ok rfl (returns_pure ⟨⟨hu.1.size,hu.1.tick⟩,hu.2⟩)
  refine humount.bind fun _ u hu => returns_pure ?_
  obtain ⟨hasked',hcopied⟩ := hu
  rw [hlogc,hfresh.part,hfresh.copies,hfresh.superblock,hblocks,hasked.size] at hcopied
  refine ⟨⟨hasked'.size.trans hasked.size,?_⟩,hcopied⟩
  rw [hasked'.tick,hasked.tick,hfresh.copies,List.length_map]
  exact Nat.add_assoc _ _ _

end Ext2

/-! ### What a mount and an unmount should do -/

namespace Superblock

/-- The block groups of the file system. -/
def groups (b : Superblock) : ℕ := (b.sBlocksCount - b.firstBlock + b.sBlocksPerGroup - 1) / b.sBlocksPerGroup

/-- Group `k` has a copy of the superblock. -/
def HasCopy (b : Superblock) (k : ℕ) : Prop :=
  k < b.groups ∧ (b.Sparse → k = 0 ∨ ∃ p ∈ [3,5,7], ∃ m, k = p^m)

/-- The first sector of group `k`. -/
def groupStart (b : Superblock) (part k : ℕ) : ℕ := part + (k * b.sBlocksPerGroup + b.firstBlock) * b.sectors

/-- The file system lies on the device; its groups are counted by bitmaps of whole bytes. -/
structure Valid (b : Superblock) (part N : ℕ) : Prop where
  log : b.sLogBlockSize ≤ 6
  perGroup : 0 < b.sBlocksPerGroup
  bytes : 8 ∣ b.sBlocksPerGroup
  nonempty : b.firstBlock < b.sBlocksCount
  number : b.sBlockGroupNr = 0
  fits : part + b.sBlocksCount * b.sectors ≤ N
  size : N ≤ 2^32

/-- From `B` to `B'` the superblock of the partition is preserved: the primary one but for the time and the
count of mounts, its copies with their group numbers, and no other sector is touched. -/
structure Preserved (b : Superblock) (part : ℕ) (B B' : ℕ → Sector) : Prop where
  primary : ∀ i < 512, ¬ Touched i → (B' (part+2)).get i = (B (part+2)).get i
  number : (B' (part+2)).le16 90 = 0
  copies : ∀ k, 0 < k → b.HasCopy k → (B' (b.groupStart part k)).le16 90 = k ∧
    ∀ i < size, ¬ Touched i → (B' (b.groupStart part k)).get i = (B (part+2)).get i
  others : ∀ x, part ≤ x → x < part + b.sBlocksCount * b.sectors → x ≠ part + 2 →
    (∀ k, 0 < k → b.HasCopy k → x ≠ b.groupStart part k) → B' x = B x

section Valid
variable {b : Superblock} {part N : ℕ} (hb : b.Valid part N)
include hb

theorem Valid.lt_of_mem {k : ℕ} (hk : k ∈ b.mountedCopies) : k * b.sBlocksPerGroup < b.sBlocksCount := by
  have hlt : k < b.mountedGroups := by
    unfold mountedCopies at hk
    split at hk
    · exact List.mem_range.1 (List.mem_filter.1 hk).1
    · exact List.mem_range.1 hk
  have hdiv := Nat.div_add_mod b.sBlocksCount b.sBlocksPerGroup
  unfold mountedGroups at hlt
  split at hlt
  · have hle := Nat.mul_le_mul_right b.sBlocksPerGroup (show k ≤ b.sBlocksCount / b.sBlocksPerGroup by omega)
    rw [Nat.mul_comm (b.sBlocksCount / _)] at hle
    omega
  · have hle := Nat.mul_le_mul_right b.sBlocksPerGroup (show k + 1 ≤ b.sBlocksCount / b.sBlocksPerGroup by omega)
    rw [Nat.mul_comm (b.sBlocksCount / _),Nat.succ_mul] at hle
    have := hb.perGroup
    omega

theorem Valid.mem_mountedCopies {k : ℕ} (hk : k ≤ 1) (hlt : k * b.sBlocksPerGroup < b.sBlocksCount) :
    k ∈ b.mountedCopies := by
  have hgroups : k < b.mountedGroups := by
    have hdiv := Nat.div_add_mod b.sBlocksCount b.sBlocksPerGroup
    have hmod := Nat.mod_lt b.sBlocksCount hb.perGroup
    by_contra hle
    have hquot : b.sBlocksCount / b.sBlocksPerGroup ≤ k := by
      unfold mountedGroups at hle
      omega
    have hmul := Nat.mul_le_mul_left b.sBlocksPerGroup hquot
    rw [Nat.mul_comm _ k] at hmul
    unfold mountedGroups at hle
    split at hle
    · have hmul := Nat.mul_le_mul_left b.sBlocksPerGroup
        (show b.sBlocksCount / b.sBlocksPerGroup + 1 ≤ k by omega)
      rw [Nat.mul_comm _ k,Nat.mul_succ] at hmul
      omega
    · omega
  unfold mountedCopies
  split
  · refine List.mem_filter.2 ⟨List.mem_range.2 hgroups,?_⟩
    rcases Nat.le_one_iff_eq_zero_or_eq_one.1 hk with rfl | rfl <;> decide
  · exact List.mem_range.2 hgroups

/-- A file system of one group has one superblock. -/
theorem Valid.single (hone : b.sBlocksCount ≤ b.sBlocksPerGroup) (hfirst : b.firstBlock = 0) :
    b.mountedCopies = [0] ∧ b.groups = 1 := by
  have hpos := hb.nonempty
  have hgroups : b.mountedGroups = 1 := by
    unfold mountedGroups
    rcases Nat.lt_or_eq_of_le hone with hlt | heq
    · rw [Nat.div_eq_of_lt hlt,Nat.mod_eq_of_lt hlt,if_pos (by omega)]
    · rw [heq,Nat.div_self hb.perGroup,Nat.mod_self]
      rfl
  constructor
  · unfold mountedCopies
    rw [hgroups]
    split <;> rfl
  · unfold groups
    rw [hfirst]
    exact Nat.div_eq_of_lt_le (by omega) (by omega)

omit hb in
theorem sectors_cases (b : Superblock) : b.sLogBlockSize = 0 ∧ b.sectors = 2 ∧ b.firstBlock = 1 ∨
    0 < b.sLogBlockSize ∧ 4 ≤ b.sectors ∧ b.firstBlock = 0 := by
  unfold sectors firstBlock
  rcases Nat.eq_zero_or_pos b.sLogBlockSize with h | h
  · simp [h]
  · have hpow : 2^2 ≤ 2^(b.sLogBlockSize + 1) := Nat.pow_le_pow_right (by decide) (by omega)
    exact .inr ⟨h,hpow,if_neg h.ne'⟩

omit hb in
theorem sector_lt {x : ℕ} (hx : x < b.sBlocksCount) :
    part + x * b.sectors + b.sectors ≤ part + b.sBlocksCount * b.sectors := by
  have hmul := Nat.mul_le_mul_right b.sectors (Nat.succ_le_of_lt hx)
  rw [Nat.succ_mul] at hmul
  omega

/-- The copy of group `k` goes to the start of the group. -/
theorem Valid.copySector_eq {k : ℕ} (hk : k * b.sBlocksPerGroup + b.firstBlock < b.sBlocksCount) :
    Ext2.copySector b.sLogBlockSize part (b.copyBlock k) = b.groupStart part k := by
  have hlt := @sector_lt b part _ hk
  have hfits := hb.fits
  have hsize := hb.size
  have hpos : 0 < b.sectors := Nat.two_pow_pos _
  have hle := Nat.le_mul_of_pos_right (k * b.sBlocksPerGroup + b.firstBlock) hpos
  change u32 (u32 (u32 (k * b.sBlocksPerGroup + b.firstBlock) * b.sectors) + part) = part + _ * b.sectors
  have hblock : u32 (k * b.sBlocksPerGroup + b.firstBlock) = k * b.sBlocksPerGroup + b.firstBlock :=
    u32_of_lt (by omega)
  have hsector : u32 ((k * b.sBlocksPerGroup + b.firstBlock) * b.sectors) =
      (k * b.sBlocksPerGroup + b.firstBlock) * b.sectors := u32_of_lt (by omega)
  rw [hblock,hsector,Nat.add_comm]
  exact u32_of_lt (by omega)

/-- With blocks of more than 1024 bytes the copies go to different sectors, none of them the one that is
read. -/
theorem Valid.apart (hlog : 0 < b.sLogBlockSize) {k : ℕ} (hk : k ∈ b.mountedCopies) :
    Ext2.copySector b.sLogBlockSize part (b.copyBlock k) = b.groupStart part k ∧
      b.groupStart part k ≠ part + 2 ∧ ∀ k' ∈ b.mountedCopies,
        b.groupStart part k' = b.groupStart part k → b.copyBlock k' = b.copyBlock k := by
  obtain ⟨-,hsectors,hfirst⟩ := b.sectors_cases.resolve_left fun h => by omega
  have hlt := hb.lt_of_mem hk
  refine ⟨hb.copySector_eq (by omega),?_,fun k' hk' h => ?_⟩
  · unfold groupStart
    rw [hfirst,Nat.add_zero]
    intro h
    have hpos : 0 < k * b.sBlocksPerGroup := by
      by_contra hzero
      rw [Nat.eq_zero_of_not_pos hzero] at h
      omega
    have hle := Nat.mul_le_mul (Nat.succ_le_of_lt hpos) hsectors
    omega
  · unfold groupStart at h
    have hmul : (k' * b.sBlocksPerGroup + b.firstBlock) * b.sectors =
        (k * b.sBlocksPerGroup + b.firstBlock) * b.sectors := by omega
    have heq := Nat.eq_of_mul_eq_mul_right (show 0 < b.sectors by omega) hmul
    rw [copyBlock,copyBlock,heq]

end Valid

end Superblock

namespace Ext2
variable {E : Env} {s : Ext2State} {part : ℕ} {b : Superblock}

theorem superblockAt_eq {B : ℕ → Sector} (h : part + 2 < 2^32) {i : ℕ} (hi : i < Superblock.size) :
    (superblockAt B part).bytes.get i = (B (part+2)).get i := by
  have hsize : i < blockSize := lt_trans hi (by decide)
  rw [superblockAt,u32_of_lt h,Sector.get_splice,if_pos ⟨Nat.zero_le _,by omega,hsize⟩]
  rfl

section NoFault
variable (hE : E.NoFault) (hfuel : 2 ≤ E.fuel) (hb : b.Valid part s.dev.size)
  (hs : superblockAt s.dev.blocks part = b)
include hE hfuel hb hs

/-- With blocks of more than 1024 bytes the superblock that is read is never written. -/
theorem cycles_large (hlog : 0 < b.sLogBlockSize) (n : ℕ) : (cycles E part n).Returns s fun _ t =>
    Asked s t (n * (3 + b.mountedCopies.length)) ∧ superblockAt t.dev.blocks part = b ∧
      ∀ x, (∀ k ∈ b.mountedCopies, b.groupStart part k ≠ x) → t.dev.blocks x = s.dev.blocks x := by
  have hfits := hb.fits
  have hsize := hb.size
  have hnonempty := hb.nonempty
  obtain ⟨-,hsectors,hfirst⟩ := b.sectors_cases.resolve_left fun h => by omega
  have hpart := @Superblock.sector_lt b part 0 (by omega)
  have hin : u32 (part + 2) = part + 2 := u32_of_lt (by omega)
  induction n with
  | zero => exact returns_pure ⟨⟨rfl,by rw [Nat.zero_mul]; rfl⟩,hs,fun _ _ => rfl⟩
  | succ n ih =>
    refine ih.bind fun _ t ht => ?_
    obtain ⟨hasked,hsb,hothers⟩ := ht
    refine (cycle_returns hE hfuel (by rw [hasked.size,hin]; omega) hb.perGroup.ne' ?_ hsb).mono fun _ u hu => ?_
    · have := hb.log
      omega
    obtain ⟨hasked',hcopied⟩ := hu
    have hkept (x : ℕ) (hx : ∀ k ∈ b.mountedCopies, b.groupStart part k ≠ x) : u.dev.blocks x = s.dev.blocks x := by
      refine (hcopied.others x fun c hc => ?_).trans (hothers x hx)
      obtain ⟨k,hk,rfl⟩ := List.mem_map.1 hc
      rw [(hb.apart hlog hk).1]
      exact hx k hk
    refine ⟨⟨hasked'.size.trans hasked.size,?_⟩,?_,hkept⟩
    · rw [hasked'.tick,hasked.tick,Nat.succ_mul,Nat.add_assoc]
    · rw [← hs,superblockAt,superblockAt,hin,hkept _ fun k hk => (hb.apart hlog hk).2.1]

/-- The copies are those of the last cycle. -/
theorem cycles_large_copied (hlog : 0 < b.sLogBlockSize) (n : ℕ) : (cycles E part (n+1)).Returns s fun _ t =>
    Copied (b.mounted (E.clock (s.dev.tick + n * (3 + b.mountedCopies.length) + 2)))
      (copySector b.sLogBlockSize part) (b.mountedCopies.map b.copyBlock) s.dev.size s.dev.blocks t.dev.blocks := by
  have hfits := hb.fits
  have hsize := hb.size
  have hnonempty := hb.nonempty
  obtain ⟨-,hsectors,hfirst⟩ := b.sectors_cases.resolve_left fun h => by omega
  have hpart := @Superblock.sector_lt b part 0 (by omega)
  have hin : u32 (part + 2) = part + 2 := u32_of_lt (by omega)
  refine (cycles_large hE hfuel hb hs hlog n).bind fun _ t ht => ?_
  obtain ⟨hasked,hsb,hothers⟩ := ht
  refine (cycle_returns hE hfuel (by rw [hasked.size,hin]; omega) hb.perGroup.ne' ?_ hsb).mono fun _ u hu => ?_
  · have := hb.log
    omega
  obtain ⟨-,hcopied⟩ := hu
  rw [hasked.tick,hasked.size] at hcopied
  refine ⟨fun x hx => (hcopied.others x hx).trans (hothers x fun k hk => ?_),hcopied.copies⟩
  rw [← (hb.apart hlog hk).1]
  exact hx _ (List.mem_map_of_mem hk)

/-- With blocks of 1024 bytes the superblock that is read is the copy of block 1. -/
theorem cycles_small (hlog : b.sLogBlockSize = 0) (n : ℕ) : (cycles E part n).Returns s fun _ t =>
    t.dev.size = s.dev.size ∧ b.SameShape (superblockAt t.dev.blocks part) ∧
      (n ≠ 0 → ∃ b' : Superblock, t.dev.blocks (part+2) = b'.image 1) := by
  have hfits := hb.fits
  have hsize := hb.size
  have hnonempty := hb.nonempty
  obtain ⟨-,hsectors,hfirst⟩ := b.sectors_cases.resolve_right fun h => by omega
  rw [hsectors] at hfits
  have hin : u32 (part + 2) = part + 2 := u32_of_lt (by omega)
  induction n with
  | zero => exact returns_pure ⟨rfl,hs ▸ .refl _,fun h => absurd rfl h⟩
  | succ n ih =>
    refine ih.bind fun _ t ht => ?_
    obtain ⟨hsame,hshape,-⟩ := ht
    refine (cycle_returns hE hfuel (by rw [hsame,hin]; omega) ?_ ?_ rfl).mono fun _ u hu => ?_
    · rw [hshape.perGroup]
      exact hb.perGroup.ne'
    · rw [hshape.log,hlog]
      decide
    obtain ⟨hasked,hcopied⟩ := hu
    rw [hshape.copies,hshape.log,hlog,hsame] at hcopied
    have hone : b.copyBlock 0 = 1 := by rw [Superblock.copyBlock,hfirst,Nat.zero_mul]; rfl
    have hmem : 1 ∈ b.mountedCopies.map b.copyBlock :=
      hone ▸ List.mem_map_of_mem (hb.mem_mountedCopies (by decide) (by omega))
    have hloc : copySector 0 part 1 = part + 2 := by
      unfold copySector u32
      omega
    have hcopy := hcopied.copies 1 hmem (fun c hc he => ?_) (by omega)
    swap
    · obtain ⟨k,hk,rfl⟩ := List.mem_map.1 hc
      have hlt := hb.lt_of_mem hk
      rw [hloc] at he
      unfold Superblock.copyBlock at he ⊢
      rw [hfirst] at he ⊢
      generalize k * b.sBlocksPerGroup = x at hlt he ⊢
      unfold copySector u32 at he
      unfold u32
      omega
    rw [hloc] at hcopy
    refine ⟨hasked.size.trans hsame,hshape.trans (.of_bytes fun i hi ht => ?_),fun _ => ⟨_,hcopy⟩⟩
    rw [superblockAt_eq (by omega) hi,hcopy,Superblock.get_image _ _ hi fun h => ht (.inr (.inr h)),
      Superblock.get_mounted _ _ (fun h => ht (.inl h)) fun h => ht (.inr (.inl h))]

/-- After any number of cycles the superblock is preserved exactly when the blocks are larger than 1024
bytes, there is one block group, and the first sector of the partition held what the last cycle stores there. -/
theorem superblock_preserved_iff (n : ℕ) : (cycles E part (n+1)).Returns s fun _ t =>
    (b.Preserved part s.dev.blocks t.dev.blocks ↔ 0 < b.sLogBlockSize ∧ b.sBlocksCount ≤ b.sBlocksPerGroup ∧
      s.dev.blocks part = (b.mounted (E.clock (s.dev.tick + n * 4 + 2))).image 0) := by
  have hfits := hb.fits
  have hsize := hb.size
  have hnonempty := hb.nonempty
  have hperGroup := hb.perGroup
  rcases Nat.eq_zero_or_pos b.sLogBlockSize with hlog | hlog
  · refine (cycles_small hE hfuel hb hs hlog (n+1)).mono fun _ t ht => ?_
    obtain ⟨-,-,hcopy⟩ := ht
    obtain ⟨b',hcopy⟩ := hcopy (by omega)
    refine ⟨fun h => ?_,fun h => absurd h.1 (by omega)⟩
    have hnumber := h.number
    rw [hcopy,Superblock.le16_image] at hnumber
    exact absurd hnumber (by decide)
  obtain ⟨-,hsectors,hfirst⟩ := b.sectors_cases.resolve_left fun h => by omega
  have hpart := @Superblock.sector_lt b part 0 (by omega)
  have hzero := hb.mem_mountedCopies (k := 0) (by decide) (by omega)
  have hstart : b.groupStart part 0 = part := by
    rw [Superblock.groupStart,hfirst,Nat.zero_mul,Nat.zero_add,Nat.zero_mul,Nat.add_zero]
  refine (cycles_large_copied hE hfuel hb hs hlog n).mono fun _ t ht => ?_
  -- the copy of a group of the mounted file system is at its start
  have hcopy {k : ℕ} (hk : k ∈ b.mountedCopies) : t.dev.blocks (b.groupStart part k) =
      (b.mounted (E.clock (s.dev.tick + n * (3 + b.mountedCopies.length) + 2))).image (b.copyBlock k) := by
    obtain ⟨hsector,-,huniq⟩ := hb.apart hlog hk
    have hlt := @Superblock.sector_lt b part _ (hb.lt_of_mem hk)
    rw [← hsector]
    refine ht.copies _ (List.mem_map_of_mem hk) (fun c hc he => ?_) ?_
    · obtain ⟨k',hk',rfl⟩ := List.mem_map.1 hc
      rw [(hb.apart hlog hk').1,hsector] at he
      exact huniq k' hk' he
    · rw [hsector,Superblock.groupStart,hfirst,Nat.add_zero]
      omega
  constructor
  · intro h
    have hone : b.sBlocksCount ≤ b.sBlocksPerGroup := by
      by_contra hmore
      -- the copy of group 1 carries the number of its block
      have hmem := hb.mem_mountedCopies (k := 1) le_rfl (by omega)
      have hgroup : b.HasCopy 1 := by
        refine ⟨(Nat.le_div_iff_mul_le hperGroup).2 (by omega),fun _ => .inr ⟨3,by decide,0,rfl⟩⟩
      have hnumber := (h.copies 1 (by decide) hgroup).1
      have hbytes := hb.bytes
      rw [hcopy hmem,Superblock.le16_image,Superblock.copyBlock,hfirst] at hnumber
      unfold u32 at hnumber
      omega
    obtain ⟨hcopies,hgroups⟩ := hb.single hone hfirst
    have hboot := hcopy hzero
    rw [hstart,hcopies,Superblock.copyBlock,hfirst,Nat.zero_mul] at hboot
    have hkept := h.others part le_rfl (by omega) (by omega) fun k hk hc => absurd hc.1 (by omega)
    exact ⟨hlog,hone,hkept.symm.trans hboot⟩
  · rintro ⟨-,hone,hboot⟩
    obtain ⟨hcopies,hgroups⟩ := hb.single hone hfirst
    have hothers (x : ℕ) (hx : x ≠ part) : t.dev.blocks x = s.dev.blocks x := by
      refine ht.others x fun c hc => ?_
      rw [hcopies] at hc
      obtain rfl := List.mem_singleton.1 hc
      rw [(hb.apart hlog hzero).1,hstart]
      exact hx.symm
    have hread := hothers (part+2) (by omega)
    refine ⟨fun i _ _ => by rw [hread],?_,fun k hk hc => absurd hc.1 (by omega),fun x _ _ _ _ => ?_⟩
    · rw [hread,← hb.number,← hs]
      exact (Superblock.le16_congr fun j _ _ => superblockAt_eq (by omega) (show j < 264 by omega)).symm
    · by_cases hx : x = part
      · have hwritten := hcopy hzero
        rw [hstart,hcopies,Superblock.copyBlock,hfirst,Nat.zero_mul] at hwritten
        rw [hx,hwritten,hboot]
        rfl
      · exact hothers x hx

end NoFault

/-- A superblock of one block group: the number of blocks, the block size and the blocks per group. -/
def oneGroup (blocks log : UInt8) : Sector := Sector.ofBytes [0,0,0,0,blocks,0,0,0,0,0,0,0,0,0,0,0,0,0,0,0,
  0,0,0,0,log,0,0,0,0,0,0,0,0,32]

/-- A driver over a device of 64 blocks. -/
def overDevice (B : ℕ → Sector) : Ext2State where
  dev := { blocks := B, size := 64, tick := 0, trace := [] }
  context := none
  files _ := none
  nextFile := 0
  de := ⟨0,fun _ => 0⟩

/-- Sixteen blocks of 2048 bytes whose boot sector was written by an unmount at time 90. -/
def oneGroupVolume : ℕ → Sector
  | 0 => ((⟨oneGroup 16 1⟩ : Superblock).mounted 90).image 0
  | 2 => oneGroup 16 1
  | _ => .zero

theorem superblock_preserved_one_group : (cycles (Env.calm (fun _ => 90) 2) 0 1).Returns
    (overDevice oneGroupVolume) fun _ t =>
      (superblockAt oneGroupVolume 0).Preserved 0 oneGroupVolume t.dev.blocks := by
  have hvalid : (superblockAt oneGroupVolume 0).Valid 0 64 :=
    ⟨by decide +kernel,by decide +kernel,by decide +kernel,by decide +kernel,by decide +kernel,
      by decide +kernel,by decide⟩
  have hboot : oneGroupVolume 0 = ((superblockAt oneGroupVolume 0).mounted 90).image 0 := by
    refine Sector.ext_get ?_
    decide +kernel
  refine (superblock_preserved_iff (s := overDevice oneGroupVolume) ⟨fun _ => rfl,fun _ => rfl,fun _ => rfl⟩
    le_rfl hvalid rfl 0).mono fun _ t h => h.2 ⟨by decide +kernel,by decide +kernel,hboot⟩

/-- Thirty-two blocks of 1024 bytes; the superblock uses a byte behind the fields the driver knows. -/
def smallBlocks : ℕ → Sector
  | 2 => (oneGroup 32 0).set 300 7
  | _ => .zero

/-- One cycle stores the number of its block in the superblock and clears what lies behind the known fields. -/
theorem superblock_not_preserved :
    (superblockAt smallBlocks 0).Valid 0 64 ∧ (cycles (Env.calm (fun _ => 90) 2) 0 1).Returns
      (overDevice smallBlocks) fun _ t => (t.dev.blocks 2).le16 90 = 1 ∧ (t.dev.blocks 2).get 300 = 0 ∧
        ¬ (superblockAt smallBlocks 0).Preserved 0 smallBlocks t.dev.blocks := by
  refine ⟨⟨by decide +kernel,by decide +kernel,by decide +kernel,by decide +kernel,by decide +kernel,
    by decide +kernel,by decide⟩,?_⟩
  have hrun : Prog.test (cycles (Env.calm (fun _ => 90) 2) 0 1) (overDevice smallBlocks)
      (fun _ t => decide ((t.dev.blocks 2).le16 90 = 1 ∧ (t.dev.blocks 2).get 300 = 0)) = true := by
    decide +kernel
  obtain ⟨a,t,hx,hp⟩ := ok_of_test hrun
  obtain ⟨hnumber,hbyte⟩ := of_decide_eq_true hp
  refine ⟨a,t,hx,hnumber,hbyte,fun h => ?_⟩
  have hzero := h.number
  rw [hnumber] at hzero
  exact absurd hzero (by decide)

end Ext2

end Gristle
