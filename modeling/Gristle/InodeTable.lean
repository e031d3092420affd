import Gristle.Reopen

/-! The inode tables of a well-formed volume: every inode has a slot of its own, and flushing one
changes its record alone. -/
namespace Gristle
open Prog

namespace Ext2Context
variable (c : Ext2Context) (B : ℕ → Sector)

/-- The sector of a block group's descriptor. -/
def descriptorSector (g : ℕ) : ℕ := c.partStart + (c.superblockBlock + 1) * c.sectors + g * 32 / blockSize

/-- The first sector of a block group's inode table. -/
def tableStart (g : ℕ) : ℕ :=
  c.partStart + (B (c.descriptorSector g)).le32 (g * 32 % blockSize + 8) * c.sectors

/-- Sectors in an inode table. -/
def tableSectors : ℕ := (c.superblock.sInodesPerGroup + c.inodesPerSector - 1) / c.inodesPerSector

/-- The medium holds a descriptor and an inode table for each block group, and no sector serves two
of them. -/
structure InodeTables (N : ℕ) : Prop where
  superblock : c.WellFormed
  medium : N ≤ 2^32
  groups : c.numBlockgroups * 32 ≤ 2^32
  descriptor : ∀ g < c.numBlockgroups, c.descriptorSector g < N
  table : ∀ g < c.numBlockgroups, c.tableStart B g + c.tableSectors ≤ N
  apart : ∀ g < c.numBlockgroups, ∀ k < c.numBlockgroups, ∀ i < c.tableSectors,
    c.tableStart B g + i ≠ c.descriptorSector k
  disjoint : ∀ g < c.numBlockgroups, ∀ k < c.numBlockgroups, g ≠ k → ∀ i < c.tableSectors,
    ∀ j < c.tableSectors, c.tableStart B g + i ≠ c.tableStart B k + j

/-- An inode number of the volume, as an `int`. -/
structure InRange (n : ℤ) : Prop where
  pos : 1 ≤ n
  int : n < 2^31
  group : c.blockGroup n < c.numBlockgroups

variable {c B} {N : ℕ} {n m : ℤ}

namespace InodeTables

theorem groupSector_eq (h : c.InodeTables B N) (hn : c.InRange n) :
    c.groupSector n = c.descriptorSector (c.blockGroup n) := by
  have hlt := h.descriptor _ hn.group
  have hmedium := h.medium
  have hgroups := h.groups
  have hgroup := hn.group
  have hle := Nat.le_mul_of_pos_right (c.superblockBlock + 1) c.sectors_pos
  rw [descriptorSector] at hlt ⊢
  rw [groupSector]
  generalize hd : c.blockGroup n * 32 / blockSize = d at hlt ⊢
  rw [u32_of_lt (show c.superblockBlock + 1 < 2^32 by omega)]
  rw [u32_of_lt (show (c.superblockBlock + 1) * c.sectors < 2^32 by omega)]
  rw [u32_of_lt (show c.blockGroup n * 32 < 2^32 by omega),hd]
  rw [u32_of_lt (show (c.superblockBlock + 1) * c.sectors + d < 2^32 by omega),u32_of_lt (by omega)]
  omega

theorem index_lt (h : c.InodeTables B N) (n : ℤ) : c.inodeIndex n / c.inodesPerSector < c.tableSectors := by
  have hpos := h.superblock.inodesPerSector_pos
  have hindex : c.inodeIndex n < c.superblock.sInodesPerGroup :=
    Nat.mod_lt _ (Nat.pos_of_ne_zero h.superblock.perGroup)
  rw [tableSectors,Nat.div_lt_iff_lt_mul hpos]
  have hceil := Nat.div_add_mod (c.superblock.sInodesPerGroup + c.inodesPerSector - 1) c.inodesPerSector
  have hrest := Nat.mod_lt (c.superblock.sInodesPerGroup + c.inodesPerSector - 1) hpos
  rw [Nat.mul_comm] at hceil
  omega

theorem inodeSector_eq (h : c.InodeTables B N) (hn : c.InRange n) :
    c.inodeSector B n = c.tableStart B (c.blockGroup n) + c.inodeIndex n / c.inodesPerSector := by
  have htable := h.table _ hn.group
  have hindex := h.index_lt n
  have hmedium := h.medium
  have hgroups := h.groups
  have hgroup := hn.group
  have hplace : c.inodeTable B n =
      (B (c.descriptorSector (c.blockGroup n))).le32 (c.blockGroup n * 32 % blockSize + 8) := by
    rw [inodeTable,h.groupSector_eq hn,u32_of_lt (by omega)]
  rw [inodeSector,hplace]
  rw [tableStart] at htable ⊢
  generalize (B (c.descriptorSector (c.blockGroup n))).le32 (c.blockGroup n * 32 % blockSize + 8) *
    c.sectors = start at htable ⊢
  generalize c.inodeIndex n / c.inodesPerSector = i at hindex ⊢
  rw [u32_of_lt (show start < 2^32 by omega),u32_of_lt (show start + i < 2^32 by omega),
    u32_of_lt (by omega)]
  omega

theorem holds (h : c.InodeTables B N) (hn : c.InRange n) : c.Holds B n N where
  group := h.groupSector_eq hn ▸ h.descriptor _ hn.group
  inode := by
    have htable := h.table _ hn.group
    have hindex := h.index_lt n
    rw [h.inodeSector_eq hn]
    omega
  apart := by
    rw [h.groupSector_eq hn,h.inodeSector_eq hn]
    exact h.apart _ hn.group _ hn.group _ (h.index_lt n)

/-- An inode number is given by its group and its index there. -/
theorem number_eq (hn : c.InRange n) (hm : c.InRange m) (hgroup : c.blockGroup n = c.blockGroup m)
    (hindex : c.inodeIndex n = c.inodeIndex m) : n = m := by
  have hdiv := Nat.div_add_mod (u32OfInt (n - 1)) c.superblock.sInodesPerGroup
  have hdiv' := Nat.div_add_mod (u32OfInt (m - 1)) c.superblock.sInodesPerGroup
  simp only [blockGroup,inodeIndex] at hgroup hindex
  rw [hgroup,hindex,hdiv'] at hdiv
  have hn₁ := hn.pos
  have hn₂ := hn.int
  have hm₁ := hm.pos
  have hm₂ := hm.int
  unfold u32OfInt at hdiv
  omega

/-- Two inodes in one sector have slots apart from each other. -/
theorem slots_apart (h : c.InodeTables B N) (hn : c.InRange n) (hm : c.InRange m) (hne : n ≠ m)
    (hsector : c.inodeSector B n = c.inodeSector B m) :
    c.inodeOffset n + c.superblock.sInodeSize ≤ c.inodeOffset m ∨
      c.inodeOffset m + c.superblock.sInodeSize ≤ c.inodeOffset n := by
  rw [h.inodeSector_eq hn,h.inodeSector_eq hm] at hsector
  have hgroup : c.blockGroup n = c.blockGroup m := by
    by_contra hg
    exact h.disjoint _ hn.group _ hm.group hg _ (h.index_lt n) _ (h.index_lt m) hsector
  rw [hgroup] at hsector
  have hindex : c.inodeIndex n ≠ c.inodeIndex m := fun hi => hne (number_eq hn hm hgroup hi)
  have hdiv := Nat.div_add_mod (c.inodeIndex n) c.inodesPerSector
  have hdiv' := Nat.div_add_mod (c.inodeIndex m) c.inodesPerSector
  have hquot : c.inodeIndex n / c.inodesPerSector = c.inodeIndex m / c.inodesPerSector := by omega
  rw [hquot] at hdiv
  have hmod : c.inodeIndex n % c.inodesPerSector ≠ c.inodeIndex m % c.inodesPerSector := by omega
  rw [inodeOffset,inodeOffset]
  rcases Nat.lt_or_gt_of_ne hmod with hlt | hlt
  · left
    have hstep := Nat.mul_le_mul_right c.superblock.sInodeSize (Nat.succ_le_of_lt hlt)
    rwa [Nat.succ_mul] at hstep
  · right
    have hstep := Nat.mul_le_mul_right c.superblock.sInodeSize (Nat.succ_le_of_lt hlt)
    rwa [Nat.succ_mul] at hstep

/-- Storing a record leaves the descriptors alone, and so the volume well formed. -/
theorem store_descriptor (h : c.InodeTables B N) (hn : c.InRange n) (d : Inode) {g : ℕ}
    (hg : g < c.numBlockgroups) :
    c.storeInode B n d (c.descriptorSector g) = B (c.descriptorSector g) := by
  have hapart := h.apart _ hn.group _ hg _ (h.index_lt n)
  rw [← h.inodeSector_eq hn] at hapart
  exact Function.update_of_ne hapart.symm _ _

theorem store (h : c.InodeTables B N) (hn : c.InRange n) (d : Inode) :
    c.InodeTables (c.storeInode B n d) N := by
  have hstart {g : ℕ} (hg : g < c.numBlockgroups) :
      c.tableStart (c.storeInode B n d) g = c.tableStart B g := by
    rw [tableStart,tableStart,h.store_descriptor hn d hg]
  constructor
  case superblock => exact h.superblock
  case medium => exact h.medium
  case groups => exact h.groups
  case descriptor => exact h.descriptor
  case table =>
    intro g hg
    rw [hstart hg]
    exact h.table g hg
  case apart =>
    intro g hg k hk i hi
    rw [hstart hg]
    exact h.apart g hg k hk i hi
  case disjoint =>
    intro g hg k hk hne i hi j hj
    rw [hstart hg,hstart hk]
    exact h.disjoint g hg k hk hne i hi j hj

/-- Another inode's record is the same after the store. -/
theorem inodeAt_store (h : c.InodeTables B N) (hn : c.InRange n) (hm : c.InRange m) (hne : n ≠ m)
    (d : Inode) : (c.inodeAt (c.storeInode B n d) m).SameRecord (c.inodeAt B m) := by
  have hsame : c.inodeSector (c.storeInode B n d) m = c.inodeSector B m := by
    apply inodeSector_congr
    rw [h.groupSector_eq hm]
    exact h.store_descriptor hn d hm.group
  intro k hk
  rw [inodeAt_get hk,inodeAt_get hk,hsame,storeInode]
  by_cases hsector : c.inodeSector B m = c.inodeSector B n
  · have hleast := h.superblock.least
    have hslots := h.slots_apart hn hm hne hsector.symm
    rw [hsector,Function.update_self,Sector.get_splice,if_neg (by omega)]
  · rw [Function.update_of_ne hsector]

end InodeTables

/-- Storing a record changes no byte outside of it. -/
theorem storeInode_get (d : Inode) {b i : ℕ} (h : b = c.inodeSector B n →
    i < c.inodeOffset n ∨ c.inodeOffset n + Inode.length ≤ i) :
    (c.storeInode B n d b).get i = (B b).get i := by
  by_cases hb : b = c.inodeSector B n
  · rw [storeInode,hb,Function.update_self,Sector.get_splice,if_neg (by have := h hb; omega)]
  · rw [storeInode,Function.update_of_ne hb]

end Ext2Context

/-! ### Flushing and loading -/

namespace Ext2
variable {c : Ext2Context} {N fe : ℕ} {B : ℕ → Sector} {f : FileEnt} {n : ℤ} {s : Ext2State} {E : Env}

/-- Opening the inode in any descriptor loads this record. -/
def Loads (E : Env) (n : ℤ) (d : Inode) (s : Ext2State) : Prop :=
  ∀ fe f, s.files fe = some f → (openInode E fe n).Returns s fun r t =>
    r = 0 ∧ ∃ g, t.files fe = some g ∧ g.inode.SameRecord d

theorem Mounted.loads (hE : E.NoFault) (hs : Mounted c N B s) (h : c.InodeTables B N) (hn : c.InRange n)
    {d : Inode} (hd : (c.inodeAt B n).SameRecord d) : Loads E n d s := by
  intro fe f hf
  have hat : At c N fe B f s := ⟨hs.context,hs.size,hs.blocks,hf⟩
  refine (openInode_at hE h.superblock (h.holds hn) hat).mono fun r t ht => ?_
  obtain ⟨hr,b,hopened,-⟩ := ht
  exact ⟨hr,_,hopened.file,hd⟩

/-- After a flush the inode is loaded as it was in the descriptor and every other inode as before; no
byte of the medium outside the record has changed. -/
theorem flushInode_local (hE : E.NoFault) (h : c.InodeTables B N) (hn : c.InRange n)
    (hs : At c N fe B f s) (hnumber : f.inodeNumber = n) (hclean : f.flags.dirty = false)
    (hdirty : f.flags.fsDirty = true) : (flushInode E fe).Returns s fun r t => r = 0 ∧
      Loads E n f.inode t ∧ (∀ m, c.InRange m → m ≠ n → ∃ d, Loads E m d s ∧ Loads E m d t) ∧
      ∀ b i, (b = c.inodeSector B n → i < c.inodeOffset n ∨ c.inodeOffset n + Inode.length ≤ i) →
        (t.dev.blocks b).get i = (s.dev.blocks b).get i := by
  refine (flushInode_at hE h.superblock (h.holds hn) hs hnumber hclean hdirty).mono fun r t ht => ?_
  obtain ⟨hr,ht⟩ := ht
  have hstored := h.store hn f.inode
  refine ⟨hr,?_,?_,?_⟩
  · exact ht.mounted.loads hE hstored hn (Ext2Context.inodeAt_storeInode h.superblock (h.holds hn) f.inode)
  · intro m hm hne
    refine ⟨c.inodeAt B m,hs.mounted.loads hE h hm fun k hk => rfl,?_⟩
    exact ht.mounted.loads hE hstored hm (h.inodeAt_store hn hm hne.symm f.inode)
  · intro b i hbi
    rw [ht.blocks,hs.blocks]
    exact Ext2Context.storeInode_get f.inode hbi

theorem smallExt2_tables : smallContext.InodeTables smallExt2 16 := by
  have hstart : smallContext.tableStart smallExt2 0 = 6 := by decide +kernel
  have hsectors : smallContext.tableSectors = 2 := by decide +kernel
  have hdescriptor : smallContext.descriptorSector 0 = 4 := by decide +kernel
  have hone {g : ℕ} (hg : g < smallContext.numBlockgroups) : g = 0 := Nat.lt_one_iff.1 hg
  constructor
  case superblock => exact smallContext_wellFormed
  case medium => decide
  case groups => decide
  case descriptor =>
    intro g hg
    rw [hone hg,hdescriptor]
    decide
  case table =>
    intro g hg
    rw [hone hg,hstart,hsectors]
    decide
  case apart =>
    intro g hg k hk i _
    rw [hone hg,hone hk,hstart,hdescriptor]
    omega
  case disjoint =>
    intro g hg k hk hne
    exact absurd ((hone hg).trans (hone hk).symm) hne

/-- The descriptor of the small file with another size in its inode. -/
def resizedFile : FileEnt := { FileEnt.zero with
  inodeNumber := 3, flags := ⟨true,true,false,false,true⟩
  inode := (smallContext.inodeAt smallExt2 3).setSize 7 }

def resizedHeap : Ext2State := { smallState with files := fun _ => some resizedFile }

theorem flushInode_local_small : let E := Env.calm (fun _ => 90) 8
    (flushInode E 0).Returns resizedHeap fun r t => r = 0 ∧ Loads E 3 resizedFile.inode t ∧
      (∀ m, smallContext.InRange m → m ≠ 3 → ∃ d, Loads E m d resizedHeap ∧ Loads E m d t) ∧
      ∀ b i, (b = smallContext.inodeSector smallExt2 3 → i < smallContext.inodeOffset 3 ∨
        smallContext.inodeOffset 3 + Inode.length ≤ i) →
        (t.dev.blocks b).get i = (resizedHeap.dev.blocks b).get i := by
  intro E
  have hE : E.NoFault := ⟨fun _ => rfl,fun _ => rfl,fun _ => rfl⟩
  have hthree : smallContext.InRange 3 := ⟨by decide,by decide,by decide +kernel⟩
  have hat : At smallContext 16 0 smallExt2 resizedFile resizedHeap := ⟨⟨.zero,rfl⟩,rfl,rfl,rfl⟩
  exact flushInode_local hE smallExt2_tables hthree hat rfl rfl rfl

end Ext2

end Gristle
