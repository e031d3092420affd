import Gristle.Partition
import Gristle.Superblock

/-! The copies of the superblock as `ext2_mount` lists them, against the groups in which ext2 keeps one. -/
namespace Gristle
open Prog

/-! ### The two passes -/

namespace Ext2
variable {E : Env}

/-- The counting pass of `ext2_mount` over the groups `i, …, i+k-1`. -/
def countLoop (E : Env) : ℕ → ℕ → ℕ → Ext2M ℕ
  | 0, _, n => pure n
  | k+1, i, n => do
    if ← hasBackup E i then countLoop E k (i+1) (n+1) else countLoop E k (i+1) n

/-- The filling pass; `blocks` is the array. -/
def fillLoop (E : Env) (sb : Superblock) : ℕ → ℕ → ℕ → (ℕ → ℕ) → Ext2M (ℕ → ℕ)
  | 0, _, _, blocks => pure blocks
  | k+1, i, n, blocks => do
    if ← hasBackup E i then
      fillLoop E sb k (i+1) (n+1) (Function.update blocks n (sb.copyBlock i))
    else fillLoop E sb k (i+1) n blocks

/-- `num_superblocks` of a superblock. -/
def numSuperblocks (E : Env) (sb : Superblock) : Ext2M ℕ :=
  if sb.Sparse then countLoop E sb.mountedGroups 0 0 else pure sb.mountedGroups

/-- The contents of `superblock_blocks`, allocated with any contents. -/
def superblockArray (E : Env) (sb : Superblock) (blocks : ℕ → ℕ) : Ext2M (ℕ → ℕ) :=
  if sb.Sparse then fillLoop E sb sb.mountedGroups 0 0 blocks
  else pure fun i => if i < sb.mountedGroups then sb.copyBlock i else blocks i

theorem countLoop_eq (hfuel : 2 ≤ E.fuel) (k i n : ℕ) (s : Ext2State) :
    countLoop E k i n s = .ok (n + ((List.range' i k).filter (· ∈ Superblock.powerGroups)).length,s) := by
  induction k generalizing i n with
  | zero => rfl
  | succ k ih =>
    rw [countLoop,bind_of_ok (hasBackup_eq hfuel i s),run_ite,List.range'_succ,List.filter_cons,ih,ih]
    split
    · rw [List.length_cons,Nat.add_assoc,Nat.add_comm 1]
    · rfl

/-- The filling pass stores the blocks of the groups it takes behind those already stored. -/
theorem fillLoop_eq (hfuel : 2 ≤ E.fuel) (sb : Superblock) (k i n : ℕ) (blocks : ℕ → ℕ) (s : Ext2State) :
    (fillLoop E sb k i n blocks).Returns s fun filled t => t = s ∧
      (List.range (n + ((List.range' i k).filter (· ∈ Superblock.powerGroups)).length)).map filled =
        (List.range n).map blocks ++
          ((List.range' i k).filter (· ∈ Superblock.powerGroups)).map sb.copyBlock := by
  induction k generalizing i n blocks with
  | zero => exact returns_pure ⟨rfl,by simp⟩
  | succ k ih =>
    refine returns_bind_of_ok (hasBackup_eq hfuel i s) ?_
    rw [List.range'_succ,List.filter_cons]
    refine returns_ite (fun h => ?_) fun h => ?_
    · rw [if_pos h]
      refine (ih (i+1) (n+1) _).mono fun filled t ht => ⟨ht.1,?_⟩
      have hstored : (List.range (n+1)).map (Function.update blocks n (sb.copyBlock i)) =
          (List.range n).map blocks ++ [sb.copyBlock i] := by
        rw [List.range_succ,List.map_append,map_range_update]
        simp
      rw [List.length_cons,← Nat.add_assoc,Nat.add_right_comm,ht.2,hstored]
      simp
    · rw [if_neg h]
      exact ih (i+1) n blocks

/-- Both passes select the same groups. -/
theorem passes_agree (hfuel : 2 ≤ E.fuel) (sb : Superblock) (blocks : ℕ → ℕ) (s : Ext2State) :
    (numSuperblocks E sb).Returns s fun n t => t = s ∧ n = sb.mountedCopies.length ∧
      (superblockArray E sb blocks).Returns t fun filled _ =>
        (List.range n).map filled = sb.mountedCopies.map sb.copyBlock := by
  unfold numSuperblocks superblockArray Superblock.mountedCopies
  by_cases hsparse : sb.Sparse
  · rw [if_pos hsparse,if_pos hsparse,if_pos hsparse,List.range_eq_range']
    refine ⟨_,s,countLoop_eq hfuel _ 0 0 s,rfl,Nat.zero_add _,?_⟩
    refine (fillLoop_eq hfuel sb _ 0 0 blocks s).mono fun filled t ht => ?_
    simpa using ht.2
  · rw [if_neg hsparse,if_neg hsparse,if_neg hsparse]
    refine returns_pure ⟨rfl,(List.length_range).symm,returns_pure ?_⟩
    apply List.map_congr_left
    intro i hi
    exact if_pos (List.mem_range.1 hi)

/-! ### The list of a mounted volume -/

/-- The buffer of `ext2_mount` after its read; a failing one leaves what the heap held. -/
def mountBuffer (E : Env) (part : ℕ) (s : Ext2State) : Sector :=
  if E.readFails (s.dev.tick + 1) = true ∨ s.dev.size ≤ u32 (part + 2) then fun i => E.junk s.dev.tick i
  else s.dev.blocks (u32 (part + 2))

/-- The superblock `ext2_mount` finds in its buffer. -/
def bufferedSuperblock (E : Env) (part : ℕ) (s : Ext2State) : Superblock :=
  ⟨Sector.zero.splice 0 Superblock.size (mountBuffer E part s).get⟩

/-- The read of `ext2_mount`, behind the question for the contents of the fresh context. -/
theorem mount_reads (E : Env) (part : ℕ) (s : Ext2State) : ∃ block : Option Sector,
    (onDevice (Device.blockRead E (u32 (part + 2))) : Ext2M _)
      { s with dev := { s.dev with tick := s.dev.tick + 1 } } =
        .ok (block,{ s with dev := { s.dev with tick := s.dev.tick + 2 } }) ∧
    (⟨Sector.zero.splice 0 Superblock.size (block.getD fun i => E.junk s.dev.tick i).get⟩ : Superblock) =
      bufferedSuperblock E part s := by
  by_cases hfail : E.readFails (s.dev.tick + 1) = true ∨ s.dev.size ≤ u32 (part + 2)
  · refine ⟨none,?_,by rw [bufferedSuperblock,show mountBuffer E part s = _ from if_pos hfail]; rfl⟩
    rw [onDevice,zoom,Device.blockRead,if_pos hfail]
  · refine ⟨some (s.dev.blocks (u32 (part + 2))),?_,
      by rw [bufferedSuperblock,show mountBuffer E part s = _ from if_neg hfail]; rfl⟩
    rw [onDevice,zoom,Device.blockRead,if_neg hfail]

theorem mount_context (hfuel : 2 ≤ E.fuel) {part : ℕ} {s : Ext2State}
    (hgroup : (bufferedSuperblock E part s).sBlocksPerGroup ≠ 0) :
    (mount E part).Returns s fun r t => r = 0 ∧ ∃ c, t.context = some c ∧
      c.numBlockgroups = (bufferedSuperblock E part s).mountedGroups ∧
      c.superblockBlocks = (bufferedSuperblock E part s).mountedCopies.map (bufferedSuperblock E part s).copyBlock := by
  have hcopies (sb : Superblock) (u : Ext2State) : (if sb.Sparse then backupGroups E sb.mountedGroups 0
      else pure (List.range sb.mountedGroups) : Ext2M (List ℕ)) u = .ok (sb.mountedCopies,u) := by
    rw [Superblock.mountedCopies,run_ite,List.range_eq_range',backupGroups_eq hfuel]
    split <;> rfl
  obtain ⟨block,hread,hsb⟩ := mount_reads E part s
  refine returns_bind_of_ok rfl (returns_bind_of_ok hread ?_)
  generalize bufferedSuperblock E part s = sb at *
  subst hsb
  refine returns_divisor hgroup (returns_bind_of_ok (hcopies _ _) ?_)
  refine returns_bind_of_ok rfl (returns_bind_of_ok rfl ?_)
  exact returns_pure ⟨rfl,_,rfl,rfl,rfl⟩

end Ext2

/-! ### Where ext2 keeps the copies -/

namespace Superblock
variable {b : Superblock}

/-- ext2 keeps a copy in group `g`. -/
def Backup (b : Superblock) (g : ℕ) : Prop := b.Sparse → g = 0 ∨ g = 1 ∨ ∃ p ∈ [3,5,7], ∃ m, g = p^m

/-- The blocks of all copies in `groups` groups, in increasing order. -/
structure Backups (b : Superblock) (groups : ℕ) (blocks : List ℕ) : Prop where
  increasing : blocks.Pairwise (· < ·)
  mem : ∀ x, x ∈ blocks ↔ ∃ g < groups, b.Backup g ∧ x = g * b.sBlocksPerGroup + b.firstBlock

/-- A group begins within the file system. -/
theorem group_start_lt (hgroup : b.sBlocksPerGroup ≠ 0) {g : ℕ} (hg : g < b.mountedGroups) :
    g * b.sBlocksPerGroup < b.sBlocksCount := by
  have hdiv := Nat.div_add_mod b.sBlocksCount b.sBlocksPerGroup
  unfold mountedGroups at hg
  have hle : g ≤ b.sBlocksCount / b.sBlocksPerGroup := by
    split at hg
    · omega
    · omega
  have hmul := Nat.mul_le_mul_right b.sBlocksPerGroup hle
  rw [Nat.mul_comm (b.sBlocksCount / b.sBlocksPerGroup)] at hmul
  rcases Nat.lt_or_eq_of_le hle with hlt | heq
  · have hnext := Nat.mul_le_mul_right b.sBlocksPerGroup (Nat.succ_le_of_lt hlt)
    rw [Nat.succ_mul,Nat.mul_comm (b.sBlocksCount / b.sBlocksPerGroup)] at hnext
    omega
  · -- the last group is counted when some blocks are left over
    split at hg
    · omega
    · omega

/-- The 32 bit number of the block is the exact one. -/
theorem copyBlock_eq (hgroup : b.sBlocksPerGroup ≠ 0) {g : ℕ} (hg : g < b.mountedGroups) :
    b.copyBlock g = g * b.sBlocksPerGroup + b.firstBlock := by
  have hlt := group_start_lt hgroup hg
  have hcount : b.sBlocksCount < 2^32 := b.bytes.le32_lt 4
  have hfirst : b.firstBlock ≤ 1 := by
    unfold firstBlock
    split <;> omega
  exact u32_of_lt (by omega)

theorem mem_mountedCopies {g : ℕ} :
    g ∈ b.mountedCopies ↔ g < b.mountedGroups ∧ (b.Sparse → g ∈ powerGroups) := by
  unfold mountedCopies
  split
  · rename_i h
    simp [h]
  · rename_i h
    simp [h]

/-- The blocks are listed in increasing order, whichever groups are taken. -/
theorem mountedCopies_increasing (hgroup : b.sBlocksPerGroup ≠ 0) :
    (b.mountedCopies.map b.copyBlock).Pairwise (· < ·) := by
  have hsorted : b.mountedCopies.Pairwise (· < ·) := by
    unfold mountedCopies
    split
    · exact List.pairwise_lt_range.filter _
    · exact List.pairwise_lt_range
  rw [List.pairwise_map]
  apply hsorted.imp_of_mem
  intro g h hg hh hlt
  rw [copyBlock_eq hgroup (mem_mountedCopies.1 hg).1,copyBlock_eq hgroup (mem_mountedCopies.1 hh).1]
  have hmul := Nat.mul_le_mul_right b.sBlocksPerGroup (Nat.succ_le_of_lt hlt)
  rw [Nat.succ_mul] at hmul
  omega

/-- Below group 9 the groups of the code are the right ones. -/
theorem powerGroups_iff {g : ℕ} (hg : g < 9) :
    g ∈ powerGroups ↔ g = 0 ∨ g = 1 ∨ ∃ p ∈ [3,5,7], ∃ m, g = p^m := by
  constructor
  · intro h
    simp only [powerGroups,List.mem_cons,List.not_mem_nil,or_false] at h
    rcases h with rfl | rfl | rfl | rfl | rfl
    · exact .inl rfl
    · exact .inr (.inl rfl)
    · exact .inr (.inr ⟨3,by simp,1,rfl⟩)
    · exact .inr (.inr ⟨5,by simp,1,rfl⟩)
    · exact .inr (.inr ⟨7,by simp,1,rfl⟩)
  · rintro (rfl | rfl | ⟨p,hp,m,rfl⟩)
    · decide
    · decide
    · have hthree : 3 ≤ p := by
        simp only [List.mem_cons,List.not_mem_nil,or_false] at hp
        omega
      -- a second power is at least 9
      have hm : m < 2 := by
        by_contra h
        have hsquare : 3^2 ≤ p^m :=
          (Nat.pow_le_pow_left hthree 2).trans (Nat.pow_le_pow_right (by omega) (by omega))
        omega
      have hsmall : m = 0 ∨ m = 1 := by omega
      rcases hsmall with rfl | rfl
      · rw [pow_zero]
        decide
      · simp only [List.mem_cons,List.not_mem_nil,or_false] at hp
        rcases hp with rfl | rfl | rfl <;> decide

/-- The code lists the copies of ext2 unless a sparse file system has more than nine groups. -/
theorem backups_iff (hgroup : b.sBlocksPerGroup ≠ 0) :
    b.Backups b.mountedGroups (b.mountedCopies.map b.copyBlock) ↔ ¬ b.Sparse ∨ b.mountedGroups ≤ 9 := by
  constructor
  · intro h
    by_contra hmany
    obtain ⟨hsparse,hgroups⟩ := not_or.1 hmany
    have hnine : 9 < b.mountedGroups := by omega
    have hmem := (h.mem _).2 ⟨9,hnine,fun _ => .inr (.inr ⟨3,by simp,2,rfl⟩),rfl⟩
    obtain ⟨g,hg,heq⟩ := List.mem_map.1 hmem
    obtain ⟨hlt,hpower⟩ := mem_mountedCopies.1 hg
    rw [copyBlock_eq hgroup hlt] at heq
    have hsame : g = 9 := Nat.eq_of_mul_eq_mul_right (Nat.pos_of_ne_zero hgroup) (Nat.add_right_cancel heq)
    rw [hsame] at hpower
    exact absurd (hpower (not_not.1 hsparse)) (by decide)
  · intro hfew
    refine ⟨mountedCopies_increasing hgroup,fun x => ?_⟩
    have hgroups {g : ℕ} (hg : g < b.mountedGroups) : (b.Sparse → g ∈ powerGroups) ↔ b.Backup g := by
      unfold Backup
      rcases hfew with hdense | hfew
      · simp [hdense]
      · rw [powerGroups_iff (by omega)]
    constructor
    · intro hx
      obtain ⟨g,hg,rfl⟩ := List.mem_map.1 hx
      obtain ⟨hlt,hpower⟩ := mem_mountedCopies.1 hg
      exact ⟨g,hlt,(hgroups hlt).1 hpower,copyBlock_eq hgroup hlt⟩
    · rintro ⟨g,hlt,hbackup,rfl⟩
      rw [← copyBlock_eq hgroup hlt]
      exact List.mem_map_of_mem (mem_mountedCopies.2 ⟨hlt,(hgroups hlt).2 hbackup⟩)

end Superblock

/-! ### `ext2_mount` -/

namespace Ext2
variable {E : Env}

/-- A mount lists exactly the copies of ext2 when the file system is not sparse or has at most nine groups;
its two passes always agree. -/
theorem mount_backups_iff (hfuel : 2 ≤ E.fuel) {part : ℕ} {s : Ext2State} {sb : Superblock}
    (hsb : bufferedSuperblock E part s = sb) (hgroup : sb.sBlocksPerGroup ≠ 0) (blocks : ℕ → ℕ) :
    (mount E part).Returns s fun r t => r = 0 ∧ ∃ c, t.context = some c ∧
      ((numSuperblocks E sb).Returns t fun n u => n = c.superblockBlocks.length ∧
        (superblockArray E sb blocks).Returns u fun filled _ => (List.range n).map filled = c.superblockBlocks) ∧
      (sb.Backups c.numBlockgroups c.superblockBlocks ↔ ¬ sb.Sparse ∨ c.numBlockgroups ≤ 9) := by
  subst hsb
  refine (mount_context hfuel hgroup).mono fun r t ht => ?_
  obtain ⟨hr,c,hc,hgroups,hblocks⟩ := ht
  refine ⟨hr,c,hc,?_,?_⟩
  · refine (passes_agree hfuel _ blocks t).mono fun n u hu => ?_
    rw [hblocks,List.length_map]
    exact hu.2
  · rw [hgroups,hblocks]
    exact Superblock.backups_iff hgroup

/-- A sparse superblock of this many blocks, eight in a group. -/
def sparseGroups (blocks : ℕ) : Sector :=
  (((Sector.zero.setLe32 4 blocks).setLe32 32 8).setLe32 76 1).setLe32 100 1

/-- Two groups, each with a copy. -/
theorem mount_backups_two : (mount (Env.calm (fun _ => 90) 2) 0).Returns (overDevice fun _ => sparseGroups 16)
    fun r t => r = 0 ∧ ∃ c, t.context = some c ∧ c.numBlockgroups = 2 ∧
      (⟨Sector.zero.splice 0 Superblock.size (sparseGroups 16).get⟩ : Superblock).Backups c.numBlockgroups
        c.superblockBlocks := by
  obtain ⟨r,t,hrun,hr,c,hc,-,hiff⟩ := @mount_backups_iff (Env.calm (fun _ => 90) 2) le_rfl 0
    (overDevice fun _ => sparseGroups 16) _ rfl (by decide +kernel) fun _ => 0
  obtain ⟨-,d,hd,hgroups,-⟩ := (@mount_context (Env.calm (fun _ => 90) 2) le_rfl 0 _ (by decide +kernel)).of_ok hrun
  obtain rfl : c = d := Option.some.inj (hc.symm.trans hd)
  have htwo : c.numBlockgroups = 2 := hgroups.trans (by decide +kernel)
  exact ⟨r,t,hrun,hr,c,hc,htwo,hiff.2 (.inr (by omega))⟩

/-- With ten groups the copy of group 9 is not listed. -/
theorem mount_misses_copy : (mount (Env.calm (fun _ => 90) 2) 0).Returns (overDevice fun _ => sparseGroups 80)
    fun r t => r = 0 ∧ ∃ c, t.context = some c ∧ c.numBlockgroups = 10 ∧
      ¬ (⟨Sector.zero.splice 0 Superblock.size (sparseGroups 80).get⟩ : Superblock).Backups c.numBlockgroups
        c.superblockBlocks := by
  refine (@mount_context (Env.calm (fun _ => 90) 2) le_rfl 0 (overDevice fun _ => sparseGroups 80)
    (by decide +kernel)).mono fun r t ht => ?_
  obtain ⟨hr,c,hc,hgroups,hblocks⟩ := ht
  have hten : c.numBlockgroups = 10 := by
    rw [hgroups]
    decide +kernel
  refine ⟨hr,c,hc,hten,fun h => ?_⟩
  rw [hgroups,hblocks] at h
  have hnot := (Superblock.backups_iff (by decide +kernel)).1 h
  exact absurd hnot (by decide +kernel)

end Ext2

end Gristle
