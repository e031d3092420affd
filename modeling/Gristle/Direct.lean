import Gristle.Inode

/-! Files of direct blocks on an ext2 volume: where their sectors lie, and that reading one in any
number of calls delivers its content. -/
namespace Gristle
open Prog

theorem div_mod_succ_inside {k m : ℕ} (h : k % m + 1 < m) : (k+1) / m = k / m ∧ (k+1) % m = k % m + 1 := by
  have hk := Nat.mod_add_div k m
  exact (Nat.div_mod_unique (by omega)).2 ⟨by omega,h⟩

theorem div_mod_succ_across {k m : ℕ} (hm : 0 < m) (h : k % m + 1 = m) :
    (k+1) / m = k / m + 1 ∧ (k+1) % m = 0 := by
  have hk := Nat.mod_add_div k m
  exact (Nat.div_mod_unique hm).2 ⟨by rw [Nat.mul_succ]; omega,hm⟩

namespace Ext2Context

/-- The sector that holds sector `k` of a file with the block list `K`. -/
def dataSector (c : Ext2Context) (K : ℕ → ℕ) (k : ℕ) : ℕ :=
  K (k / c.sectors) * c.sectors + c.partStart + k % c.sectors

/-- Byte `i` of a file. -/
def byteAt (c : Ext2Context) (B : ℕ → Sector) (K : ℕ → ℕ) (i : ℕ) : UInt8 :=
  (B (c.dataSector K (i / 512))).get (i % 512)

def fileContent (c : Ext2Context) (B : ℕ → Sector) (K : ℕ → ℕ) (size : ℕ) : List UInt8 :=
  (List.range size).map (c.byteAt B K)

/-- The first `nb` entries of the block list are direct blocks on a volume of `N` sectors. -/
structure Direct (c : Ext2Context) (K : ℕ → ℕ) (nb N : ℕ) : Prop where
  count : nb ≤ 12
  nonzero : ∀ j < nb, K j ≠ 0
  inside : ∀ j < nb, K j * c.sectors + c.partStart + c.sectors ≤ N
  device : N ≤ 2^32

variable {c : Ext2Context} {K : ℕ → ℕ} {nb N : ℕ} {B : ℕ → Sector}

theorem sectors_pos (c : Ext2Context) : 0 < c.sectors := Nat.two_pow_pos _

/-- Bytes in a block of the file system. -/
theorem two_pow_log (c : Ext2Context) : 2^(c.superblock.sLogBlockSize + 10) = 512 * c.sectors := by
  rw [sectors,show c.superblock.sLogBlockSize + 10 = 9 + (c.superblock.sLogBlockSize + 1) by omega,Nat.pow_add]

/-- The sector inside a block at which the byte `i` of a file lies. -/
theorem sector_in_block (i m : ℕ) : (i - i / 512 / m * (512 * m)) / 512 = i / 512 % m := by
  have hmul : i / 512 / m * (512 * m) = 512 * (m * (i / 512 / m)) := by ring
  have hparts := Nat.mod_add_div (i / 512) m
  rw [hmul]
  omega

theorem length_fileContent (c : Ext2Context) (B : ℕ → Sector) (K : ℕ → ℕ) (size : ℕ) :
    (c.fileContent B K size).length = size := by rw [fileContent,List.length_map,List.length_range]

theorem block_lt {k : ℕ} (hk : k < nb * c.sectors) : k / c.sectors < nb :=
  (Nat.div_lt_iff_lt_mul c.sectors_pos).2 hk

theorem WellFormed.capacity (hc : c.WellFormed) (hd : c.Direct K nb N) :
    nb * c.sectors * 512 < 2^31 := by
  have hlog : c.sectors ≤ 2^18 := Nat.pow_le_pow_right (by decide) (by have := hc.log; omega)
  have h := Nat.mul_le_mul hd.count hlog
  omega

theorem Direct.dataSector_lt (hd : c.Direct K nb N) {k : ℕ} (hk : k < nb * c.sectors) :
    c.dataSector K k < N := by
  have hinside := hd.inside _ (block_lt hk)
  have hmod := Nat.mod_lt k c.sectors_pos
  unfold dataSector
  omega

theorem Direct.dataSector_pos (hd : c.Direct K nb N) {k : ℕ} (hk : k < nb * c.sectors) :
    0 < c.dataSector K k := by
  have h := Nat.mul_pos (Nat.pos_of_ne_zero (hd.nonzero _ (block_lt hk))) c.sectors_pos
  unfold dataSector
  omega

/-- From a sector to another of the same block it is as far as in the file. -/
theorem Direct.hop (hd : c.Direct K nb N) {k k' : ℕ} (hblock : k' / c.sectors = k / c.sectors)
    (hk : k' < nb * c.sectors) : u32 (c.dataSector K k + k' + 2^32 - k) = c.dataSector K k' := by
  have hlt := hd.dataSector_lt hk
  have hdev := hd.device
  have hparts := Nat.mod_add_div k c.sectors
  have hparts' := Nat.mod_add_div k' c.sectors
  rw [hblock] at hparts'
  rw [dataSector,hblock] at hlt
  rw [dataSector,dataSector,hblock]
  unfold u32
  omega

theorem drop_fileContent {pos size : ℕ} (h : pos < size) : (c.fileContent B K size).drop pos =
    c.byteAt B K pos :: (c.fileContent B K size).drop (pos+1) := by
  have hlt : pos < (c.fileContent B K size).length := by rwa [length_fileContent]
  rw [List.drop_eq_getElem_cons hlt]
  simp [fileContent]

theorem drop_fileContent_of_le {pos size : ℕ} (h : size ≤ pos) : (c.fileContent B K size).drop pos = [] :=
  List.drop_eq_nil_of_le (by rwa [length_fileContent])

end Ext2Context

namespace FileEnt

/-- The file stands in its sector `f.fileSector`, and that sector is in the buffer. -/
structure Stands (c : Ext2Context) (B : ℕ → Sector) (K : ℕ → ℕ) (nb : ℕ) (f : FileEnt) : Prop where
  inside : f.fileSector < nb * c.sectors
  sector : f.sector = c.dataSector K f.fileSector
  buffer : f.buffer = B f.sector
  left : f.sectorsLeft = c.sectors - 1 - f.fileSector % c.sectors
  block : f.blockIndex = f.fileSector / c.sectors

/-- The file has the block list `K` and `size` bytes, and the next byte read is the one at `pos`. -/
structure Reads (c : Ext2Context) (B : ℕ → Sector) (K : ℕ → ℕ) (nb size pos : ℕ) (f : FileEnt) : Prop where
  blocks : ∀ j < 12, f.inode.iBlock j = K j
  length : f.inode.iSize = size
  position : f.fileSector * 512 + f.cursor = pos
  inside : pos ≤ nb * c.sectors * 512
  ready : pos < size → f.cursor < 512 ∧ f.Stands c B K nb

theorem position_eq {f : FileEnt} (h : f.fileSector * 512 + f.cursor < 2^32) :
    Ext2.position f = f.fileSector * 512 + f.cursor := by
  have hsector : f.fileSector * 512 < 2^32 := lt_of_le_of_lt (Nat.le_add_right _ _) h
  rw [Ext2.position,u32_of_lt hsector,Nat.add_comm,u32_of_lt h]

end FileEnt

namespace Ext2
variable {c : Ext2Context} {N fe nb size pos : ℕ} {B : ℕ → Sector} {K : ℕ → ℕ} {f : FileEnt}
  {s : Ext2State}

/-- The sector after the current one, when the file has one; otherwise the position alone counts. -/
def Advanced (c : Ext2Context) (B : ℕ → Sector) (K : ℕ → ℕ) (nb : ℕ) (f g : FileEnt) : Prop :=
  g.inode = f.inode ∧ g.flags = f.flags ∧
    g.fileSector * 512 + g.cursor = (f.fileSector + 1) * 512 ∧
    (f.fileSector + 1 < nb * c.sectors → g.cursor = 0 ∧ g.Stands c B K nb)

section NoFault
variable {E : Env} (hE : E.NoFault) (hc : c.WellFormed) (hd : c.Direct K nb N)
include hE hc hd

theorem nextBlock_at (h : At c N fe B f s) (hf : f.Stands c B K nb) (hK : ∀ j < 12, f.inode.iBlock j = K j)
    (hcursor : f.cursor = 512) (hleft : f.fileSector % c.sectors + 1 = c.sectors) :
    (nextBlock E fe).Returns s fun _ t => ∃ g, At c N fe B g t ∧ Advanced c B K nb f g := by
  obtain ⟨hdiv,hmod⟩ := div_mod_succ_across c.sectors_pos hleft
  have hcap := hc.capacity hd
  have hinside := hf.inside
  -- a nonzero block follows as long as there are sectors
  have hnext (hlt : f.fileSector + 1 < nb * c.sectors) : f.blockIndex + 1 < nb := by
    have hb := Ext2Context.block_lt hlt
    rw [hdiv,← hf.block] at hb
    exact hb
  have hcount := hd.count
  refine returns_file h (returns_ite (fun hlt => ?_) fun hge => ?_)
  · refine (updateFile_at h _).bind fun _ t ht => returns_file ht ?_
    have hb : f.inode.iBlock (f.blockIndex + 1) = K (f.blockIndex + 1) := hK _ (by omega)
    refine returns_ite (fun hpos => ?_) fun hzero => returns_pure ?_
    · obtain ⟨b,hb₀⟩ := ht.context
      refine returns_context hb₀ ?_
      rw [logPlus_eq hc (by decide),logPlus_eq hc (by decide)]
      have hlog := hc.log
      refine returns_oneShl (by omega) (returns_shl32 (by omega) ?_)
      have hbytes : 2^(c.superblock.sLogBlockSize + 10) / 512 = c.sectors := by
        rw [c.two_pow_log,Nat.mul_div_cancel_left _ (by decide)]
      change (updateFile fe _ >>= fun _ => readBuffer E fe
        (u32 (u32 (f.inode.iBlock (f.blockIndex + 1) * c.sectors) + c.partStart))).Returns t _
      refine (updateFile_at ht _).bind fun _ u hu => ?_
      have hfs : u32 (f.fileSector + 1) = f.fileSector + 1 := u32_of_lt (by omega)
      by_cases hlt : f.fileSector + 1 < nb * c.sectors
      · have hin := hd.inside _ (hnext hlt)
        have hdev := hd.device
        have hpos := c.sectors_pos
        have hsector : u32 (u32 (f.inode.iBlock (f.blockIndex + 1) * c.sectors) + c.partStart) =
            c.dataSector K (f.fileSector + 1) := by
          rw [Ext2Context.dataSector,hdiv,hmod,← hf.block,hb,
            u32_of_lt (show K (f.blockIndex + 1) * c.sectors < 2^32 by omega),u32_of_lt (by omega)]
          rfl
        refine (readBuffer_at hE hu (hsector ▸ hd.dataSector_lt hlt)).mono fun _ v hv => ?_
        refine ⟨_,hv.2,rfl,rfl,?_,fun _ => ⟨rfl,?_⟩⟩
        · change u32 (f.fileSector + 1) * 512 + 0 = _
          rw [hfs,Nat.add_zero]
        · constructor
          · change u32 (f.fileSector + 1) < _
            rwa [hfs]
          · change _ = c.dataSector K (u32 (f.fileSector + 1))
            rw [hfs]
            exact hsector
          · rfl
          · change 2^(c.superblock.sLogBlockSize + 10) / 512 - 1 =
              c.sectors - 1 - u32 (f.fileSector + 1) % c.sectors
            rw [hfs,hmod,hbytes,Nat.sub_zero]
          · change f.blockIndex + 1 = u32 (f.fileSector + 1) / c.sectors
            rw [hfs,hdiv,hf.block]
      · refine (readBuffer_total E hu _).mono fun _ v hv => ?_
        obtain ⟨d,hv⟩ := hv
        refine ⟨_,hv,rfl,rfl,?_,fun h => absurd h hlt⟩
        change u32 (f.fileSector + 1) * 512 + 0 = _
        rw [hfs,Nat.add_zero]
    · refine ⟨_,ht,rfl,rfl,?_,fun h => ?_⟩
      · change f.fileSector * 512 + f.cursor = _
        rw [hcursor,Nat.succ_mul]
      · have hne := hd.nonzero _ (hnext h)
        change ¬ 0 < f.inode.iBlock (f.blockIndex + 1) at hzero
        omega
  · refine returns_pure ⟨f,h,rfl,rfl,?_,fun h => ?_⟩
    · rw [hcursor,Nat.succ_mul]
    · have := hnext h
      omega

theorem nextSector_at (h : At c N fe B f s) (hf : f.Stands c B K nb) (hK : ∀ j < 12, f.inode.iBlock j = K j)
    (hcursor : f.cursor = 512) : (nextSector E fe).Returns s fun _ t =>
      ∃ g, At c N fe B g t ∧ Advanced c B K nb f g := by
  have hmod := Nat.mod_lt f.fileSector c.sectors_pos
  have hcap := hc.capacity hd
  have hinside := hf.inside
  have hleft := hf.left
  refine returns_file h (returns_ite (fun hlt => ?_) fun hge => ?_)
  · obtain ⟨hdiv,hmod⟩ := div_mod_succ_inside (show f.fileSector % c.sectors + 1 < c.sectors by omega)
    have hin : f.fileSector + 1 < nb * c.sectors := by
      rw [← Nat.div_lt_iff_lt_mul c.sectors_pos,hdiv]
      exact Ext2Context.block_lt hinside
    have hfs : u32 (f.fileSector + 1) = f.fileSector + 1 := u32_of_lt (by omega)
    have hnext : f.sector + 1 = c.dataSector K (f.fileSector + 1) := by
      rw [hf.sector,Ext2Context.dataSector,Ext2Context.dataSector,hdiv,hmod,Nat.add_assoc]
    have hlt := hd.dataSector_lt hin
    have hsector : u32 (f.sector + 1) = c.dataSector K (f.fileSector + 1) := by
      have hdev := hd.device
      rw [hnext,u32_of_lt (by omega)]
    refine (updateFile_at h _).bind fun _ t ht => returns_file ht ?_
    refine (readBuffer_at hE ht (show u32 (f.sector + 1) < N from hsector ▸ hlt)).bind fun _ u hu => ?_
    refine (updateFile_at hu.2 _).bind fun _ v hv => returns_pure ⟨_,hv,rfl,rfl,?_,fun _ => ⟨rfl,?_⟩⟩
    · change u32 (f.fileSector + 1) * 512 + 0 = _
      rw [hfs,Nat.add_zero]
    · constructor
      · change u32 (f.fileSector + 1) < _
        rwa [hfs]
      · change u32 (f.sector + 1) = c.dataSector K (u32 (f.fileSector + 1))
        rw [hfs,hsector]
      · rfl
      · change f.sectorsLeft - 1 = c.sectors - 1 - u32 (f.fileSector + 1) % c.sectors
        rw [hfs,hmod,hleft]
        omega
      · change f.blockIndex = u32 (f.fileSector + 1) / c.sectors
        rw [hfs,hdiv,hf.block]
  · exact nextBlock_at hE hc hd h hf hK hcursor (by omega)

/-- The loop of `ext2_read` delivers the next bytes of the file. -/
theorem readLoop_at (n : ℕ) (h : At c N fe B f s) (hr : f.Reads c B K nb size pos)
    (hsize : size ≤ nb * c.sectors * 512) : (readLoop E fe n).Returns s fun bytes t =>
      bytes = ((c.fileContent B K size).drop pos).take n ∧
        ∃ g, At c N fe B g t ∧ g.flags = f.flags ∧ g.Reads c B K nb size (pos + bytes.length) := by
  induction n generalizing s f pos with
  | zero => exact returns_pure ⟨rfl,f,h,rfl,hr⟩
  | succ n ih =>
    have hposition := hr.position
    have hcap := hc.capacity hd
    have hinside := hr.inside
    have hpos : position f = pos := by
      have hlt : f.fileSector * 512 + f.cursor < 2^32 := by
        rw [hposition]
        omega
      rw [FileEnt.position_eq hlt,hposition]
    refine returns_file h ?_
    rw [hpos,hr.length]
    refine returns_ite (fun hend => returns_pure ?_) fun hlt => ?_
    · rw [Ext2Context.drop_fileContent_of_le hend]
      exact ⟨rfl,f,h,rfl,hr⟩
    obtain ⟨hcursor,hstands⟩ := hr.ready (by omega)
    refine returns_ite (fun hle => absurd hcursor (not_lt.2 hle)) fun _ => ?_
    refine (updateFile_at h fun f => { f with cursor := f.cursor + 1 }).bind fun _ t ht => ?_
    -- the byte under the cursor is the next of the file
    have hbyte : f.buffer.get f.cursor = c.byteAt B K pos := by
      have hpos : pos = f.fileSector * 512 + f.cursor := hposition.symm
      have hdiv : pos / 512 = f.fileSector := by omega
      have hmod : pos % 512 = f.cursor := by omega
      rw [Ext2Context.byteAt,hdiv,hmod,hstands.buffer,hstands.sector]
    have hnext : (if f.cursor + 1 = 512 then nextSector E fe else pure false).Returns t fun _ u =>
        ∃ g, At c N fe B g u ∧ g.flags = f.flags ∧ g.Reads c B K nb size (pos + 1) := by
      refine returns_ite (fun hfull => ?_) fun hfull => returns_pure ?_
      · have hstands' : FileEnt.Stands c B K nb { f with cursor := f.cursor + 1 } := ⟨hstands.1,hstands.2,
          hstands.3,hstands.4,hstands.5⟩
        refine (nextSector_at hE hc hd ht hstands' hr.blocks hfull).mono fun _ u hu => ?_
        obtain ⟨g,hg,hinode,hflags,hplace,hready⟩ := hu
        change g.inode = f.inode at hinode
        change _ = (f.fileSector + 1) * 512 at hplace
        have hfull : f.cursor + 1 = 512 := hfull
        refine ⟨g,hg,hflags,?_,?_,?_,by omega,fun hlt => ?_⟩
        · rw [hinode]
          exact hr.blocks
        · rw [hinode]
          exact hr.length
        · rw [hplace]
          omega
        · obtain ⟨hzero,hg⟩ := hready (show f.fileSector + 1 < nb * c.sectors by omega)
          exact ⟨by omega,hg⟩
      · have hfull : f.cursor + 1 ≠ 512 := hfull
        refine ⟨_,ht,rfl,hr.blocks,hr.length,?_,by omega,fun _ => ⟨?_,hstands.1,hstands.2,hstands.3,hstands.4,
          hstands.5⟩⟩
        · change f.fileSector * 512 + (f.cursor + 1) = pos + 1
          omega
        · change f.cursor + 1 < 512
          omega
    refine hnext.bind fun _ u hu => ?_
    obtain ⟨g,hg,hflags,hread⟩ := hu
    refine (ih hg hread).bind fun bytes v hv => returns_pure ?_
    obtain ⟨hbytes,g',hg',hflags',hread'⟩ := hv
    refine ⟨?_,g',hg',hflags'.trans hflags,?_⟩
    · rw [Ext2Context.drop_fileContent (by omega),List.take_succ_cons,hbyte,hbytes]
    · rw [List.length_cons,← Nat.add_assoc,Nat.add_right_comm]
      exact hread'

theorem read_at (n : ℕ) (e : ℤ) (h : At c N fe B f s) (hr : f.Reads c B K nb size pos)
    (hsize : size ≤ nb * c.sectors * 512) : (read E (some fe) n e).Returns s fun p t =>
      p.2.2 = ((c.fileContent B K size).drop pos).take n ∧ p.1 = i32 p.2.2.length ∧ p.2.1 = e ∧
        ∃ g, At c N fe B g t ∧ g.flags.dirty = f.flags.dirty ∧
          g.Reads c B K nb size (pos + p.2.2.length) := by
  refine (readLoop_at hE hc hd n h hr hsize).bind fun bytes t ht => ?_
  obtain ⟨hbytes,g,hg,hflags,hread⟩ := ht
  have htime : (if 0 < bytes.length then updateAtime E fe else pure ()).Returns t fun _ u =>
      ∃ g, At c N fe B g u ∧ g.flags.dirty = f.flags.dirty ∧
        g.Reads c B K nb size (pos + bytes.length) := by
    refine returns_ite (fun _ => ?_) fun _ => returns_pure ⟨g,hg,by rw [hflags],hread⟩
    refine (time_at E hg).bind fun now u hu => (updateFile_at hu _).mono fun _ v hv => ⟨_,hv,?_,?_⟩
    · change g.flags.dirty = f.flags.dirty
      rw [hflags]
    refine ⟨fun j hj => ?_,?_,hread.position,hread.inside,fun hlt => ?_⟩
    · exact (Inode.iBlock_setAtime _ _ _).trans (hread.blocks j hj)
    · exact (Inode.iSize_setAtime _ _).trans hread.length
    · obtain ⟨hcursor,hstands⟩ := hread.ready hlt
      exact ⟨hcursor,hstands.1,hstands.2,hstands.3,hstands.4,hstands.5⟩
  exact htime.bind fun _ u hu => returns_pure ⟨hbytes,rfl,rfl,hu⟩

end NoFault

/-- Reads of these lengths one after the other, and the bytes they deliver. -/
def reads (E : Env) (fe : ℕ) : List ℕ → Ext2M (List UInt8)
  | [] => pure []
  | n :: counts => do
    let (_,_,bytes) ← read E (some fe) n 0
    let rest ← reads E fe counts
    pure (bytes ++ rest)

/-- However the reading is split into calls, it delivers the content from the position on. -/
theorem reads_at {E : Env} (hE : E.NoFault) (hc : c.WellFormed) (hd : c.Direct K nb N) (counts : List ℕ)
    (h : At c N fe B f s) (hr : f.Reads c B K nb size pos) (hsize : size ≤ nb * c.sectors * 512) :
    (reads E fe counts).Returns s fun bytes _ =>
      bytes = ((c.fileContent B K size).drop pos).take counts.sum := by
  induction counts generalizing s f pos with
  | nil => exact returns_pure rfl
  | cons n counts ih =>
    refine (read_at hE hc hd n 0 h hr hsize).bind fun p t ht => ?_
    obtain ⟨hbytes,-,-,g,hg,-,hread⟩ := ht
    refine (ih hg hread).bind fun rest u hu => returns_pure ?_
    have hrest : (c.fileContent B K size).drop (pos + p.2.2.length) =
        (c.fileContent B K size).drop (pos + n) := by
      rw [hbytes,List.length_take,List.length_drop]
      by_cases hn : n ≤ (c.fileContent B K size).length - pos
      · rw [min_eq_left hn]
      · rw [min_eq_right (by omega),List.drop_eq_nil_of_le (by omega),List.drop_eq_nil_of_le (by omega)]
    rw [hu,hrest,hbytes,List.sum_cons,List.take_add,List.drop_drop]

end Ext2

end Gristle
