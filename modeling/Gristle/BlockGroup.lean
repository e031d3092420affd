import Gristle.Reopen

/-! Block group descriptors: where the tables lie, reading one, and storing one. `ext2_write_bg_descriptor`
changes the system buffer and does not write it. -/
namespace Gristle
open Prog

/-- `struct block_group_descriptor`: 20 bytes, read by offset. -/
@[ext] structure BlockGroupDescriptor where
  bytes : Fin 20 → UInt8

namespace BlockGroupDescriptor
def size : ℕ := 20

def get (d : BlockGroupDescriptor) (i : ℕ) : UInt8 := if h : i < 20 then d.bytes ⟨i,h⟩ else 0

/-- `memcpy` from a buffer. -/
def ofSector (b : Sector) (off : ℕ) : BlockGroupDescriptor := ⟨fun i => b.get (off + i)⟩

def toSector (d : BlockGroupDescriptor) : Sector := Sector.zero.splice 0 size d.get

def bgBlockBitmap (d : BlockGroupDescriptor) : ℕ := d.toSector.le32 0
def bgFreeBlocksCount (d : BlockGroupDescriptor) : ℕ := d.toSector.le16 12
def bgUsedDirsCount (d : BlockGroupDescriptor) : ℕ := d.toSector.le16 16
def setFreeBlocksCount (d : BlockGroupDescriptor) (n : ℕ) : BlockGroupDescriptor :=
  ofSector (d.toSector.setLe16 12 n) 0
def setUsedDirsCount (d : BlockGroupDescriptor) (n : ℕ) : BlockGroupDescriptor :=
  ofSector (d.toSector.setLe16 16 n) 0
end BlockGroupDescriptor

/-! ### The two functions -/

namespace Ext2

/-- `ext2_get_bg_descriptor`: the result and `*bg`. -/
def getBgDescriptor (E : Env) (bg : BlockGroupDescriptor) (blockGroup : ℕ) :
    Ext2M (ℤ × BlockGroupDescriptor) := do
  let c ← context
  if c.numBlockgroups ≤ blockGroup then pure (-1,bg)
  else
    let lbaBlock ← shl32 (u32 (c.superblockBlock + 1)) (logPlus c 1)
    let lbaBlock := u32 (lbaBlock + blockGroup / (512 / 32))
    readSysbuf E (u32 (lbaBlock + c.partStart))
    pure (0,.ofSector (← context).sysbuf (32 * (blockGroup % (512 / 32))))

/-- The loop of `ext2_write_bg_descriptor` over `superblock_blocks`. -/
def writeBgLoop (E : Env) (bg : BlockGroupDescriptor) (blockGroup : ℕ) : List ℕ → Ext2M Unit
  | [] => pure ()
  | b :: rest => do
    let c ← context
    let lbaBlock ← shl32 (u32 (b + 1)) (logPlus c 1)
    let lbaBlock := u32 (lbaBlock + blockGroup / (512 / 32))
    readSysbuf E (u32 (lbaBlock + c.partStart))
    setSysbuf ((← context).sysbuf.splice (32 * (blockGroup % (512 / 32))) BlockGroupDescriptor.size bg.get)
    writeBgLoop E bg blockGroup rest

/-- `ext2_write_bg_descriptor` -/
def writeBgDescriptor (E : Env) (bg : BlockGroupDescriptor) (blockGroup : ℕ) : Ext2M ℤ := do
  let c ← context
  if c.numBlockgroups ≤ blockGroup then pure (-1)
  else
    writeBgLoop E bg blockGroup c.superblockBlocks
    pure 0

end Ext2

/-! ### The tables -/

namespace Ext2Context

/-- The sector that holds the descriptor of group `g` in the table behind the superblock at block `b`. -/
def tableSector (c : Ext2Context) (b g : ℕ) : ℕ :=
  u32 (u32 (u32 (u32 (b + 1) * c.sectors) + g / 16) + c.partStart)

def descriptorAt (c : Ext2Context) (B : ℕ → Sector) (b g : ℕ) : BlockGroupDescriptor :=
  .ofSector (B (c.tableSector b g)) (32 * (g % 16))

/-- The shift of a block number is defined, and the primary table lies on a volume of `N` sectors. -/
structure Tables (c : Ext2Context) (N : ℕ) : Prop where
  log : c.superblock.sLogBlockSize + 1 < 32
  primary : ∀ g < c.numBlockgroups, c.tableSector c.superblockBlock g < N

end Ext2Context

/-! ### Transfers of a mounted volume -/

namespace Ext2
variable {c : Ext2Context} {N : ℕ} {B : ℕ → Sector} {s : Ext2State}

theorem setSysbuf_mounted (h : Mounted c N B s) (b : Sector) : (setSysbuf b).Returns s fun _ t =>
    Mounted c N B t ∧ t.context = some { c with sysbuf := b } := by
  obtain ⟨b₀,hb₀⟩ := h.context
  have hc : (s.context.map fun c => { c with sysbuf := b }) = some { c with sysbuf := b } := by
    rw [hb₀,Option.map_some]
  exact returns_modify ⟨⟨⟨b,hc⟩,h.size,h.blocks⟩,hc⟩

/-- Whatever becomes of the transfer, only the system buffer changes. -/
theorem readSysbuf_mounted (E : Env) (h : Mounted c N B s) (b : ℕ) : (readSysbuf E b).Returns s fun _ t =>
    Mounted c N B t ∧ (E.NoFault → b < N → t.context = some { c with sysbuf := B b }) := by
  have hread : (onDevice (Device.blockRead E b) : Ext2M _) s =
      .ok (if E.readFails s.dev.tick = true ∨ s.dev.size ≤ b then none else some (s.dev.blocks b),
        { s with dev := { s.dev with tick := s.dev.tick + 1 } }) := rfl
  have hmounted : Mounted c N B { s with dev := { s.dev with tick := s.dev.tick + 1 } } :=
    ⟨h.context,h.size,h.blocks⟩
  refine returns_bind_of_ok hread ?_
  by_cases hfail : E.readFails s.dev.tick = true ∨ s.dev.size ≤ b
  · rw [if_pos hfail]
    refine returns_pure ⟨hmounted,fun hE hb => ?_⟩
    rcases hfail with hfail | hfail
    · rw [hE.read] at hfail
      cases hfail
    · rw [h.size] at hfail
      omega
  · rw [if_neg hfail]
    refine (setSysbuf_mounted hmounted _).mono fun _ t ht => ⟨ht.1,fun _ _ => ?_⟩
    rw [ht.2,h.blocks]

theorem logPlus_one (hlog : c.superblock.sLogBlockSize + 1 < 32) (b : Sector) :
    logPlus { c with sysbuf := b } 1 = c.superblock.sLogBlockSize + 1 :=
  u32_of_lt (lt_trans hlog (by decide))

/-- A descriptor is read from the primary table. -/
theorem getBgDescriptor_mounted {E : Env} (hE : E.NoFault) (ht : c.Tables N) (h : Mounted c N B s)
    (bg : BlockGroupDescriptor) (g : ℕ) : (getBgDescriptor E bg g).Returns s fun p t =>
      p = (if g < c.numBlockgroups then (0,c.descriptorAt B c.superblockBlock g) else (-1,bg)) ∧
        Mounted c N B t := by
  obtain ⟨b,hb⟩ := h.context
  refine returns_context hb (returns_ite (fun hge => ?_) fun hlt => ?_)
  · have hge : c.numBlockgroups ≤ g := hge
    rw [if_neg (by omega)]
    exact returns_pure ⟨rfl,h⟩
  · have hlt : g < c.numBlockgroups := not_le.1 hlt
    rw [if_pos hlt,logPlus_one ht.log]
    refine returns_shl32 ht.log ?_
    refine (readSysbuf_mounted E h (c.tableSector c.superblockBlock g)).bind fun _ t hread => ?_
    exact returns_context (hread.2 hE (ht.primary g hlt)) (returns_pure ⟨rfl,hread.1⟩)

theorem writeBgLoop_mounted (E : Env) (hlog : c.superblock.sLogBlockSize + 1 < 32) (bg : BlockGroupDescriptor)
    (g : ℕ) (copies : List ℕ) (h : Mounted c N B s) : (writeBgLoop E bg g copies).Returns s fun _ t =>
      Mounted c N B t := by
  induction copies generalizing s with
  | nil => exact returns_pure h
  | cons b copies ih =>
    obtain ⟨b₀,hb₀⟩ := h.context
    refine returns_context hb₀ ?_
    rw [logPlus_one hlog]
    refine returns_shl32 hlog ?_
    refine (readSysbuf_mounted E h _).bind fun _ t ht => ?_
    obtain ⟨b₁,hb₁⟩ := ht.1.context
    refine returns_context hb₁ ((setSysbuf_mounted ht.1 _).bind fun _ u hu => ?_)
    exact ih hu.1

/-- Storing a descriptor leaves the medium as it is. -/
theorem writeBgDescriptor_mounted (E : Env) (hlog : c.superblock.sLogBlockSize + 1 < 32)
    (bg : BlockGroupDescriptor) (g : ℕ) (h : Mounted c N B s) : (writeBgDescriptor E bg g).Returns s fun r t =>
      r = (if g < c.numBlockgroups then 0 else -1) ∧ Mounted c N B t := by
  obtain ⟨b,hb⟩ := h.context
  refine returns_context hb (returns_ite (fun hge => ?_) fun hlt => ?_)
  · have hge : c.numBlockgroups ≤ g := hge
    rw [if_neg (by omega)]
    exact returns_pure ⟨rfl,h⟩
  · have hlt : g < c.numBlockgroups := not_le.1 hlt
    rw [if_pos hlt]
    exact (writeBgLoop_mounted E hlog bg g _ h).bind fun _ t ht => returns_pure ⟨rfl,ht⟩

/-! ### Put, then get -/

/-- What storing `d` for group `g` on the volume `B` should lead to: it is read back, the other groups are read
as before, every listed copy of the table has it, and no other byte is different. -/
structure Stored (E : Env) (c : Ext2Context) (B : ℕ → Sector) (d : BlockGroupDescriptor) (g : ℕ)
    (s t : Ext2State) : Prop where
  found : ∀ bg, (getBgDescriptor E bg g).Returns t fun p _ => p = (0,d)
  others : ∀ bg h, h ≠ g → (getBgDescriptor E bg h).Returns t fun p _ =>
    (getBgDescriptor E bg h).Returns s fun q _ => p = q
  copies : ∀ b ∈ c.superblockBlocks, c.descriptorAt t.dev.blocks b g = d
  frame : ∀ k, ∀ i < 512, (∀ b ∈ c.superblockBlock :: c.superblockBlocks, k = c.tableSector b g →
    i < 32 * (g % 16) ∨ 32 * (g % 16) + BlockGroupDescriptor.size ≤ i) → (t.dev.blocks k).get i = (B k).get i

/-- The descriptor is found again in every table exactly when it stood there before. -/
theorem writeBgDescriptor_stored_iff {E : Env} (hE : E.NoFault) (ht : c.Tables N) (h : Mounted c N B s) {g : ℕ}
    (hg : g < c.numBlockgroups) (d : BlockGroupDescriptor) : (writeBgDescriptor E d g).Returns s fun r t =>
      r = 0 ∧ (Stored E c B d g s t ↔
        ∀ b ∈ c.superblockBlock :: c.superblockBlocks, c.descriptorAt B b g = d) := by
  refine (writeBgDescriptor_mounted E ht.log d g h).mono fun r t hr => ?_
  obtain ⟨hr,hmounted⟩ := hr
  rw [if_pos hg] at hr
  have hget := getBgDescriptor_mounted hE ht hmounted
  refine ⟨hr,⟨fun hstored b hb => ?_,fun hsame => ?_⟩⟩
  · rcases List.mem_cons.1 hb with rfl | hb
    · obtain ⟨p,u,hrun,hp⟩ := hstored.found d
      have hread := ((hget d g).of_ok hrun).1
      rw [hp,if_pos hg] at hread
      exact (Prod.mk.inj hread).2.symm
    · rw [← hmounted.blocks]
      exact hstored.copies b hb
  · constructor
    · intro bg
      refine (hget bg g).mono fun p u hp => ?_
      rw [hp.1,if_pos hg,hsame _ List.mem_cons_self]
    · intro bg k _
      refine (hget bg k).mono fun p u hp => ?_
      refine (getBgDescriptor_mounted hE ht h bg k).mono fun q v hq => ?_
      rw [hp.1,hq.1]
    · intro b hb
      rw [hmounted.blocks]
      exact hsame b (List.mem_cons_of_mem _ hb)
    · intro k i _ _
      rw [hmounted.blocks]

/-- The small volume with one group and one copy of its table, in sector 4. -/
def groupContext : Ext2Context := { smallContext with superblockBlocks := [1] }

def groupState : Ext2State := { smallState with context := some groupContext }

theorem groupState_mounted : Mounted groupContext 16 smallExt2 groupState := ⟨⟨.zero,rfl⟩,rfl,rfl⟩

theorem groupContext_tables : groupContext.Tables 16 := by
  refine ⟨by decide +kernel,fun g hg => ?_⟩
  obtain rfl : g = 0 := Nat.lt_one_iff.1 hg
  decide +kernel

/-- Storing the descriptor that is there. -/
theorem writeBgDescriptor_stored_same : let d := groupContext.descriptorAt smallExt2 1 0
    (writeBgDescriptor (Env.calm (fun _ => 90) 8) d 0).Returns groupState fun r t =>
      r = 0 ∧ Stored (Env.calm (fun _ => 90) 8) groupContext smallExt2 d 0 groupState t := by
  intro d
  have hE : (Env.calm (fun _ => 90) 8).NoFault := ⟨fun _ => rfl,fun _ => rfl,fun _ => rfl⟩
  refine (writeBgDescriptor_stored_iff hE groupContext_tables groupState_mounted (by decide) d).mono
    fun r t ht => ⟨ht.1,ht.2.2 fun b hb => ?_⟩
  obtain rfl : b = 1 := by simpa [groupContext,smallContext] using hb
  rfl

/-- Storing another one: it is not read back. -/
theorem writeBgDescriptor_loses : (writeBgDescriptor (Env.calm (fun _ => 90) 8) ⟨fun _ => 1⟩ 0).Returns groupState
    fun r t => r = 0 ∧ (getBgDescriptor (Env.calm (fun _ => 90) 8) ⟨fun _ => 0⟩ 0).Returns t
      fun p _ => p.2 ≠ ⟨fun _ => 1⟩ := by
  have hE : (Env.calm (fun _ => 90) 8).NoFault := ⟨fun _ => rfl,fun _ => rfl,fun _ => rfl⟩
  refine (writeBgDescriptor_mounted _ groupContext_tables.log ⟨fun _ => 1⟩ 0 groupState_mounted).mono fun r t ht => ?_
  refine ⟨ht.1,?_⟩
  refine (getBgDescriptor_mounted hE groupContext_tables ht.2 ⟨fun _ => 0⟩ 0).mono fun p u hp h => ?_
  rw [hp.1] at h
  have hfirst := congrFun (congrArg BlockGroupDescriptor.bytes h) 0
  exact absurd hfirst (by decide +kernel)

end Ext2

end Gristle
