import Gristle.EmbextLookup
import Gristle.SequentialRead

/-! Reading directories with a countdown of sectors that need not be right: a seek within a block leaves it too
large, and that does no harm until the end of the block is read. -/
namespace Gristle
open Prog

/-! ### Where a file stands -/

namespace FileEnt

/-- The file stands in its sector `f.fileSector`, which is in the buffer; the countdown may be too large. -/
structure Near (c : Ext2Context) (B : ℕ → Sector) (K : ℕ → ℕ) (nb : ℕ) (f : FileEnt) : Prop where
  inside : f.fileSector < nb * c.sectors
  sector : f.sector = c.dataSector K f.fileSector
  buffer : f.buffer = B f.sector
  block : f.blockIndex = f.fileSector / c.sectors
  least : c.sectors - 1 - f.fileSector % c.sectors ≤ f.sectorsLeft
  most : f.sectorsLeft ≤ c.sectors - 1 + f.fileSector % c.sectors

/-- The countdown is right. -/
def Exact (c : Ext2Context) (f : FileEnt) : Prop := f.sectorsLeft = c.sectors - 1 - f.fileSector % c.sectors

/-- The file has the block list `K` and `size` bytes, and the next byte read is the one at `pos`. -/
structure Visits (c : Ext2Context) (B : ℕ → Sector) (K : ℕ → ℕ) (nb size pos : ℕ) (f : FileEnt) : Prop where
  clean : f.flags.dirty = false
  blocks : ∀ j < 12, f.inode.iBlock j = K j
  length : f.inode.iSize = size
  position : f.fileSector * 512 + f.cursor = pos
  inside : pos ≤ nb * c.sectors * 512
  ready : pos < size → f.cursor < 512 ∧ f.Near c B K nb

variable {c : Ext2Context} {B : ℕ → Sector} {K : ℕ → ℕ} {nb size pos : ℕ} {f : FileEnt}

theorem Near.stands (h : f.Near c B K nb) (hx : f.Exact c) : f.Stands c B K nb :=
  ⟨h.inside,h.sector,h.buffer,hx,h.block⟩

theorem Stands.exact (h : f.Stands c B K nb) : f.Exact c := h.left

theorem Stands.near (h : f.Stands c B K nb) : f.Near c B K nb := by
  have hleft := h.left
  exact ⟨h.inside,h.sector,h.buffer,h.block,by omega,by omega⟩

/-- A file that reads its content is one with the right countdown. -/
theorem Reads.visits (h : f.Reads c B K nb size pos) (hclean : f.flags.dirty = false) :
    f.Visits c B K nb size pos ∧ (pos < size → f.Exact c) :=
  ⟨⟨hclean,h.blocks,h.length,h.position,h.inside,fun hlt => ⟨(h.ready hlt).1,(h.ready hlt).2.near⟩⟩,
    fun hlt => (h.ready hlt).2.exact⟩

end FileEnt

namespace Ext2
variable {c : Ext2Context} {N fe nb size pos : ℕ} {B : ℕ → Sector} {K : ℕ → ℕ} {f : FileEnt}
  {s : Ext2State} {E : Env} (hE : E.NoFault) (hc : c.WellFormed) (hd : c.Direct K nb N)

/-- Nothing is said of a sector of another block unless the countdown was right. -/
def Stepped (c : Ext2Context) (B : ℕ → Sector) (K : ℕ → ℕ) (nb : ℕ) (f g : FileEnt) : Prop :=
  g.inode = f.inode ∧ g.flags = f.flags ∧ g.fileSector * 512 + g.cursor = (f.fileSector + 1) * 512 ∧
    (f.fileSector + 1 < nb * c.sectors → (f.fileSector + 1) % c.sectors ≠ 0 ∨ f.Exact c →
      g.cursor = 0 ∧ g.Near c B K nb ∧ (f.Exact c → g.Exact c))

include hE hc hd

theorem nextSector_near (h : At c N fe B f s) (hf : f.Near c B K nb) (hK : ∀ j < 12, f.inode.iBlock j = K j)
    (hcursor : f.cursor = 512) : (nextSector E fe).Returns s fun _ t =>
      ∃ g, At c N fe B g t ∧ Stepped c B K nb f g := by
  by_cases hx : f.Exact c
  · refine (nextSector_at hE hc hd h (hf.stands hx) hK hcursor).mono fun _ t ht => ?_
    obtain ⟨g,hg,hinode,hflags,hplace,hready⟩ := ht
    refine ⟨g,hg,hinode,hflags,hplace,fun hlt _ => ?_⟩
    obtain ⟨hzero,hstands⟩ := hready hlt
    exact ⟨hzero,hstands.near,fun _ => hstands.exact⟩
  -- a countdown that is too large is not zero
  have hleast := hf.least
  have hmost := hf.most
  have hleft : 0 < f.sectorsLeft := by
    unfold FileEnt.Exact at hx
    omega
  have hcap := hc.capacity hd
  have hinside := hf.inside
  have hfs : u32 (f.fileSector + 1) = f.fileSector + 1 := u32_of_lt (by omega)
  refine returns_file h (returns_ite (fun _ => ?_) fun hzero => absurd hleft hzero)
  refine (updateFile_at h _).bind fun _ t ht => returns_file ht ?_
  have hplace : u32 (f.fileSector + 1) * 512 + 0 = (f.fileSector + 1) * 512 := by
    rw [hfs,Nat.add_zero]
  by_cases hin : f.fileSector + 1 < nb * c.sectors ∧ (f.fileSector + 1) % c.sectors ≠ 0
  · obtain ⟨hin,hsame⟩ := hin
    have hmod := Nat.mod_lt f.fileSector c.sectors_pos
    have hshort : f.fileSector % c.sectors + 1 < c.sectors := by
      by_contra hlong
      exact hsame (div_mod_succ_across c.sectors_pos (by omega)).2
    obtain ⟨hdiv,hmod'⟩ := div_mod_succ_inside hshort
    have hnext : f.sector + 1 = c.dataSector K (f.fileSector + 1) := by
      rw [hf.sector,Ext2Context.dataSector,Ext2Context.dataSector,hdiv,hmod',Nat.add_assoc]
    have hlt := hd.dataSector_lt hin
    have hsector : u32 (f.sector + 1) = c.dataSector K (f.fileSector + 1) := by
      have hdev := hd.device
      rw [hnext,u32_of_lt (by omega)]
    refine (readBuffer_at hE ht (show u32 (f.sector + 1) < N from hsector ▸ hlt)).bind fun _ u hu => ?_
    refine (updateFile_at hu.2 _).bind fun _ v hv => returns_pure ⟨_,hv,rfl,rfl,hplace,fun _ _ => ?_⟩
    refine ⟨rfl,?_,fun hexact => absurd hexact hx⟩
    constructor
    · change u32 (f.fileSector + 1) < _
      rwa [hfs]
    · change u32 (f.sector + 1) = c.dataSector K (u32 (f.fileSector + 1))
      rw [hfs,hsector]
    · rfl
    · change f.blockIndex = u32 (f.fileSector + 1) / c.sectors
      rw [hfs,hdiv,hf.block]
    · change c.sectors - 1 - u32 (f.fileSector + 1) % c.sectors ≤ f.sectorsLeft - 1
      rw [hfs,hmod']
      omega
    · change f.sectorsLeft - 1 ≤ c.sectors - 1 + u32 (f.fileSector + 1) % c.sectors
      rw [hfs,hmod']
      omega
  · refine (readBuffer_total E ht _).bind fun _ u hu => ?_
    obtain ⟨d,hu⟩ := hu
    refine (updateFile_at hu _).bind fun _ v hv => returns_pure ⟨_,hv,rfl,rfl,hplace,fun hlt hor => ?_⟩
    exact absurd ⟨hlt,hor.resolve_right hx⟩ hin

/-- Reading delivers the next bytes, as long as the countdown is right wherever a block ends before the file
does. -/
theorem readLoop_visits (n : ℕ) (h : At c N fe B f s) (hr : f.Visits c B K nb size pos)
    (hsize : size ≤ nb * c.sectors * 512)
    (hends : f.Exact c ∨ ∀ p, pos < p → p ≤ pos + n → p < size → p % (c.sectors * 512) ≠ 0) :
    (readLoop E fe n).Returns s fun bytes t => bytes = ((c.fileContent B K size).drop pos).take n ∧
      ∃ g, At c N fe B g t ∧ g.flags = f.flags ∧ g.Visits c B K nb size (pos + bytes.length) ∧
        (f.Exact c → pos + bytes.length < size → g.Exact c) := by
  induction n generalizing s f pos with
  | zero => exact returns_pure ⟨rfl,f,h,rfl,hr,fun hx _ => hx⟩
  | succ n ih =>
    have hposition := hr.position
    have hcap := hc.capacity hd
    have hinside := hr.inside
    have hpos : position f = pos := by
      have hlt : f.fileSector * 512 + f.cursor < 2^32 := by
        rw [hposition]
        omega
      rw [FileEnt.position_eq hlt,hposition]
    refine returns_file h ?_
    rw [hpos,hr.length]
    refine returns_ite (fun hend => returns_pure ?_) fun hlt => ?_
    · rw [Ext2Context.drop_fileContent_of_le hend]
      exact ⟨rfl,f,h,rfl,hr,fun hx _ => hx⟩
    obtain ⟨hcursor,hnear⟩ := hr.ready (by omega)
    refine returns_ite (fun hle => absurd hcursor (not_lt.2 hle)) fun _ => ?_
    refine (updateFile_at h fun f => { f with cursor := f.cursor + 1 }).bind fun _ t ht => ?_
    have hbyte : f.buffer.get f.cursor = c.byteAt B K pos := by
      have hdiv : pos / 512 = f.fileSector := by omega
      have hmod : pos % 512 = f.cursor := by omega
      rw [Ext2Context.byteAt,hdiv,hmod,hnear.buffer,hnear.sector]
    -- the next sector is the right one, or the file ends here
    have hnext : (if f.cursor + 1 = 512 then nextSector E fe else pure false).Returns t fun _ u =>
        ∃ g, At c N fe B g u ∧ g.flags = f.flags ∧ g.Visits c B K nb size (pos + 1) ∧
          (f.Exact c → pos + 1 < size → g.Exact c) := by
      refine returns_ite (fun hfull => ?_) fun hfull => returns_pure ?_
      · have hnear' : FileEnt.Near c B K nb { f with cursor := f.cursor + 1 } := ⟨hnear.1,hnear.2,hnear.3,
          hnear.4,hnear.5,hnear.6⟩
        refine (nextSector_near hE hc hd ht hnear' hr.blocks hfull).mono fun _ u hu => ?_
        obtain ⟨g,hg,hinode,hflags,hplace,hready⟩ := hu
        change g.inode = f.inode at hinode
        change _ = (f.fileSector + 1) * 512 at hplace
        have hfull : f.cursor + 1 = 512 := hfull
        have hpos' : pos + 1 = (f.fileSector + 1) * 512 := by omega
        have hsame (hlt : pos + 1 < size) : (f.fileSector + 1) % c.sectors ≠ 0 ∨ f.Exact c := by
          refine hends.symm.imp (fun hends hzero => ?_) id
          apply hends (pos + 1) (by omega) (by omega) hlt
          rw [hpos',Nat.mul_mod_mul_right,hzero,Nat.zero_mul]
        have hstep (hlt : pos + 1 < size) := hready (show f.fileSector + 1 < _ by omega) (hsame hlt)
        refine ⟨g,hg,hflags,⟨?_,?_,?_,?_,by omega,fun hlt => ?_⟩,fun hx hlt => (hstep hlt).2.2 hx⟩
        · rw [hflags]
          exact hr.clean
        · rw [hinode]
          exact hr.blocks
        · rw [hinode]
          exact hr.length
        · rw [hplace,hpos']
        · obtain ⟨hzero,hg,-⟩ := hstep hlt
          exact ⟨by omega,hg⟩
      · have hfull : f.cursor + 1 ≠ 512 := hfull
        refine ⟨_,ht,rfl,⟨hr.clean,hr.blocks,hr.length,?_,by omega,fun _ => ⟨?_,hnear.1,hnear.2,hnear.3,hnear.4,
          hnear.5,hnear.6⟩⟩,fun hx _ => hx⟩
        · change f.fileSector * 512 + (f.cursor + 1) = pos + 1
          omega
        · change f.cursor + 1 < 512
          omega
    refine hnext.bind fun _ u hu => ?_
    obtain ⟨g,hg,hflags,hread,hexact⟩ := hu
    have hends' : g.Exact c ∨ ∀ p, pos + 1 < p → p ≤ pos + 1 + n → p < size → p % (c.sectors * 512) ≠ 0 := by
      by_cases hlast : pos + 1 < size
      · refine hends.imp (fun hx => hexact hx hlast) fun hends p hp hp' => ?_
        exact hends p (by omega) (by omega)
      · right
        intro p _ _ _
        omega
    refine (ih hg hread hends').bind fun bytes v hv => returns_pure ?_
    obtain ⟨hbytes,g',hg',hflags',hread',hexact'⟩ := hv
    rw [List.length_cons]
    have hplace : pos + (bytes.length + 1) = pos + 1 + bytes.length := by omega
    rw [hplace]
    refine ⟨?_,g',hg',hflags'.trans hflags,hread',fun hx hlt => hexact' (hexact hx (by omega)) hlt⟩
    rw [Ext2Context.drop_fileContent (by omega),List.take_succ_cons,hbyte,hbytes]

theorem read_visits (n : ℕ) (e : ℤ) (h : At c N fe B f s) (hr : f.Visits c B K nb size pos)
    (hsize : size ≤ nb * c.sectors * 512)
    (hends : f.Exact c ∨ ∀ p, pos < p → p ≤ pos + n → p < size → p % (c.sectors * 512) ≠ 0) :
    (read E (some fe) n e).Returns s fun p t =>
      p.2.2 = ((c.fileContent B K size).drop pos).take n ∧ p.1 = i32 p.2.2.length ∧
        ∃ g, At c N fe B g t ∧ g.Visits c B K nb size (pos + p.2.2.length) ∧
          (f.Exact c → pos + p.2.2.length < size → g.Exact c) := by
  refine (readLoop_visits hE hc hd n h hr hsize hends).bind fun bytes t ht => ?_
  obtain ⟨hbytes,g,hg,-,hread,hexact⟩ := ht
  have htime : (if 0 < bytes.length then updateAtime E fe else pure ()).Returns t fun _ u =>
      ∃ g, At c N fe B g u ∧ g.Visits c B K nb size (pos + bytes.length) ∧
        (f.Exact c → pos + bytes.length < size → g.Exact c) := by
    refine returns_ite (fun _ => ?_) fun _ => returns_pure ⟨g,hg,hread,hexact⟩
    refine (time_at E hg).bind fun now u hu => (updateFile_at hu _).mono fun _ v hv => ⟨_,hv,?_,hexact⟩
    refine ⟨hread.clean,fun j hj => ?_,?_,hread.position,hread.inside,fun hlt => ?_⟩
    · exact (Inode.iBlock_setAtime _ _ _).trans (hread.blocks j hj)
    · exact (Inode.iSize_setAtime _ _).trans hread.length
    · obtain ⟨hcursor,hnear⟩ := hread.ready hlt
      exact ⟨hcursor,hnear.1,hnear.2,hnear.3,hnear.4,hnear.5,hnear.6⟩
  exact htime.bind fun _ u hu => returns_pure ⟨hbytes,rfl,hu⟩

/-- Where a seek forward ends. Behind the twelfth block it is refused; the countdown is right again when
another block is loaded. -/
def Sought (c : Ext2Context) (B : ℕ → Sector) (K : ℕ → ℕ) (nb size pos T : ℕ) (f g : FileEnt) : Prop :=
  if pos ≠ T ∧ 11 < T / 512 / c.sectors then g.Visits c B K nb size pos ∧ (f.Exact c → g.Exact c)
  else g.Visits c B K nb size T ∧ (T < size →
    f.Exact c ∧ T / 512 = pos / 512 ∨ T / 512 / c.sectors ≠ pos / 512 / c.sectors → g.Exact c)

theorem lseek_visits {ptr : ℤ} {dir : Whence} {T : ℕ} (h : At c N fe B f s) (hr : f.Visits c B K nb size pos)
    (hsize : size ≤ nb * c.sectors * 512) (htarget : target f ptr dir = T) (hle : pos ≤ T) (hT : T ≤ size) :
    (lseek E (some fe) ptr dir).Returns s fun _ t => ∃ g, At c N fe B g t ∧ Sought c B K nb size pos T f g := by
  have hposition := hr.position
  have hcap := hc.capacity hd
  have hspos := c.sectors_pos
  have hflush {α : Type} {x : Ext2M α} {Q : α → Ext2State → Prop} (hx : x.Returns s Q) :
      (flush E fe >>= fun _ => x).Returns s Q := by
    refine returns_bind_of_ok (a := 0) (t := s) ?_ hx
    rw [flush,bind_of_ok (show Ext2.file fe s = .ok (f,s) by rw [Ext2.file,h.file]),hr.clean]
    rfl
  have hpos : position f = pos := by
    have hlt : f.fileSector * 512 + f.cursor < 2^32 := by
      rw [hposition]
      omega
    rw [FileEnt.position_eq hlt,hposition]
  refine returns_file h ?_
  change Returns (if position f = target f ptr dir then _ else _) s _
  rw [hpos,htarget]
  refine returns_ite (fun he => returns_pure ⟨f,h,?_⟩) fun hne => ?_
  · obtain rfl : pos = T := he
    rw [Sought,if_neg fun hnot => hnot.1 rfl]
    refine ⟨hr,fun _ hx => ?_⟩
    rcases hx with hx | hx
    · exact hx.1
    · exact absurd rfl hx
  obtain ⟨hcursor,hnear⟩ := hr.ready (by omega)
  have hfile : f.fileSector = pos / 512 := by omega
  have hinside := hnear.inside
  refine returns_ite (fun hbeyond => absurd hbeyond (by rw [hr.length]; omega)) fun _ => ?_
  refine returns_ite (fun hsame => ?_) fun hother => ?_
  · have hsame : pos / 512 = T / 512 := hsame
    refine (updateFile_at h _).bind fun _ t ht => returns_pure ⟨_,ht,?_⟩
    have hnear' : ¬ 11 < T / 512 / c.sectors := by
      have hblock := Ext2Context.block_lt hinside
      have hcount := hd.count
      rw [← hsame,← hfile]
      omega
    rw [Sought,if_neg fun hnot => hnear' hnot.2]
    refine ⟨⟨hr.clean,hr.blocks,hr.length,?_,by omega,fun _ => ⟨Nat.mod_lt _ (by decide),hnear.1,hnear.2,
      hnear.3,hnear.4,hnear.5,hnear.6⟩⟩,fun _ hx => ?_⟩
    · change f.fileSector * 512 + T % 512 = T
      omega
    · rcases hx with hx | hx
      · exact hx.1
      · exact absurd (by rw [hsame]) hx
  have hother : pos / 512 ≠ T / 512 := hother
  obtain ⟨b,hb⟩ := h.context
  refine returns_context hb ?_
  rw [logPlus_eq hc (by decide),logPlus_eq hc (by decide)]
  have hlog := hc.log
  have hsectors : c.sectors ≤ 2^18 := Nat.pow_le_pow_right (by decide) (by omega)
  refine returns_oneShl (by omega) ?_
  rw [c.two_pow_log,← Nat.div_div_eq_div_mul,← Nat.div_div_eq_div_mul]
  refine returns_ite (fun hblock => hflush ?_) fun hblock => hflush ?_
  · -- the countdown grows where it should shrink
    have hblock : T / 512 / c.sectors = pos / 512 / c.sectors := hblock
    have hblock' := Ext2Context.block_lt hinside
    rw [hfile,← hblock] at hblock'
    have hTin : T / 512 < nb * c.sectors := (Nat.div_lt_iff_lt_mul hspos).1 hblock'
    have hsector : u32 (f.sector + T / 512 + 2^32 - pos / 512) = c.dataSector K (T / 512) := by
      rw [hnear.sector,hfile]
      exact hd.hop hblock hTin
    have hcount := hd.count
    have hlt := hd.dataSector_lt hTin
    refine (updateFile_at h _).bind fun _ u hu => returns_file hu ?_
    refine (readBuffer_at hE hu (show u32 _ < N from hsector ▸ hlt)).bind fun failed v hv => ?_
    obtain ⟨rfl,hv⟩ := hv
    refine returns_pure ⟨_,hv,?_⟩
    rw [Sought,if_neg fun hnot => by omega]
    have hparts := Nat.mod_add_div (T / 512) c.sectors
    have hparts' := Nat.mod_add_div (pos / 512) c.sectors
    rw [hblock] at hparts
    have hmod := Nat.mod_lt (pos / 512) hspos
    have hmod' := Nat.mod_lt (T / 512) hspos
    have hleast := hnear.least
    have hmost := hnear.most
    rw [hfile] at hleast hmost
    have hleft : u32 (f.sectorsLeft + T / 512 + 2^32 - pos / 512) = f.sectorsLeft + T / 512 - pos / 512 := by
      unfold u32
      omega
    refine ⟨⟨hr.clean,hr.blocks,hr.length,?_,by omega,fun _ => ⟨Nat.mod_lt _ (by decide),hTin,hsector,?_,?_,
      ?_,?_⟩⟩,fun _ hx => ?_⟩
    · exact Nat.div_add_mod' T blockSize
    · rfl
    · change f.blockIndex = T / 512 / c.sectors
      rw [hnear.block,hfile,hblock]
    · change c.sectors - 1 - T / 512 % c.sectors ≤ u32 _
      rw [hleft]
      omega
    · change u32 _ ≤ c.sectors - 1 + T / 512 % c.sectors
      rw [hleft]
      omega
    · rcases hx with hx | hx
      · exact absurd hx.2.symm hother
      · exact absurd hblock hx
  · have hblock : T / 512 / c.sectors ≠ pos / 512 / c.sectors := hblock
    refine returns_ite (fun hfar => returns_pure ⟨f,h,?_⟩) fun hnot => returns_oneShl (by omega) ?_
    · have hfar : 11 < T / 512 / c.sectors := hfar
      rw [Sought,if_pos ⟨hne,hfar⟩]
      exact ⟨hr,id⟩
    rw [Ext2Context.sector_in_block]
    have hnot : ¬ 11 < T / 512 / c.sectors := hnot
    have hmod := Nat.mod_lt (T / 512) hspos
    refine (updateFile_at h _).bind fun _ u hu => returns_file hu ?_
    have hdone {g : FileEnt} {v : Ext2State} (hv : At c N fe B g v) (hg : Sought c B K nb size pos T f g)
        (failed : Bool) : (if failed then pure (ptr - 1,0) else pure (i32 T,0) : Ext2M (ℤ × ℤ)).Returns v
          fun _ t => ∃ g, At c N fe B g t ∧ Sought c B K nb size pos T f g :=
      returns_ite (fun _ => returns_pure ⟨g,hv,hg⟩) fun _ => returns_pure ⟨g,hv,hg⟩
    by_cases hmore : T < size
    · have hTin : T / 512 < nb * c.sectors := by omega
      have hlt := hd.dataSector_lt hTin
      have hsector : u32 (f.inode.iBlock (T / 512 / c.sectors) * c.sectors + c.partStart + T / 512 % c.sectors) =
          c.dataSector K (T / 512) := by
        rw [hr.blocks _ (by omega)]
        exact u32_of_lt (lt_of_lt_of_le hlt hd.device)
      refine (readBuffer_at hE hu (show u32 _ < N from hsector ▸ hlt)).bind fun failed v hv => ?_
      refine hdone hv.2 ?_ failed
      rw [Sought,if_neg fun h => hnot h.2]
      have hleft : u32 (c.sectors + 2^32 - T / 512 % c.sectors - 1) = c.sectors - 1 - T / 512 % c.sectors := by
        unfold u32
        omega
      refine ⟨⟨hr.clean,hr.blocks,hr.length,?_,by omega,fun _ => ⟨Nat.mod_lt _ (by decide),?_⟩⟩,fun _ _ => ?_⟩
      · exact Nat.div_add_mod' T blockSize
      · exact FileEnt.Stands.near ⟨hTin,hsector,rfl,hleft,rfl⟩
      · exact hleft
    · refine (readBuffer_total E hu _).bind fun failed v hv => ?_
      obtain ⟨d,hv⟩ := hv
      refine hdone hv ?_ failed
      rw [Sought,if_neg fun h => hnot h.2]
      refine ⟨⟨hr.clean,hr.blocks,hr.length,?_,by omega,fun h => absurd h hmore⟩,fun h => absurd h hmore⟩
      exact Nat.div_add_mod' T blockSize

end Ext2

/-! ### A record -/

/-- A record of an ext2 directory; the inode number of an unused one is zero. -/
structure DirRecord where
  inode : ℕ
  fileType : UInt8
  name : List UInt8
  padding : List UInt8
  inode_lt : inode < 2^32
  name_lt : name.length < 2^8
  length_lt : 8 + name.length + padding.length < 2^16
  aligned : 4 ∣ 8 + name.length + padding.length

namespace DirRecord
variable (r : DirRecord)

/-- The bytes up to the end of the name, which `ext2_readdir` reads. -/
def used : ℕ := 8 + r.name.length

/-- `rec_len` -/
def recLen : ℕ := r.used + r.padding.length

def inodeBytes : List UInt8 :=
  [UInt8.ofNat r.inode,UInt8.ofNat (r.inode / 2^8),UInt8.ofNat (r.inode / 2^16),UInt8.ofNat (r.inode / 2^24)]

def recLenBytes : List UInt8 := [UInt8.ofNat r.recLen,UInt8.ofNat (r.recLen / 2^8)]

/-- The record on the medium. -/
def bytes : List UInt8 := r.inodeBytes ++ (r.recLenBytes ++
  (UInt8.ofNat r.name.length :: r.fileType :: (r.name ++ r.padding)))

theorem length_bytes : r.bytes.length = r.recLen := by
  simp only [bytes,inodeBytes,recLenBytes,recLen,used,List.length_append,List.length_cons,List.length_nil]
  omega

theorem recLen_pos : 0 < r.recLen := by
  rw [recLen,used]
  omega

theorem recLen_lt : r.recLen < 2^16 := by
  have h := r.length_lt
  rwa [recLen,used]

theorem le32_inodeBytes : (Sector.ofBytes r.inodeBytes).le32 0 = r.inode := by
  have h := r.inode_lt
  change ((UInt8.ofNat r.inode).toNat + (UInt8.ofNat (r.inode / 2^8)).toNat * 2^8) +
    ((UInt8.ofNat (r.inode / 2^16)).toNat + (UInt8.ofNat (r.inode / 2^24)).toNat * 2^8) * 2^16 = r.inode
  simp only [UInt8.toNat_ofNat']
  omega

theorem le16_recLenBytes : (Sector.ofBytes r.recLenBytes).le16 0 = r.recLen := by
  have h := r.recLen_lt
  change (UInt8.ofNat r.recLen).toNat + (UInt8.ofNat (r.recLen / 2^8)).toNat * 2^8 = r.recLen
  simp only [UInt8.toNat_ofNat']
  omega

theorem toNat_length_name : (UInt8.ofNat r.name.length).toNat = r.name.length := by
  rw [UInt8.toNat_ofNat']
  exact Nat.mod_eq_of_lt r.name_lt

end DirRecord

/-- The static entry holds the inode number and the name of the record. -/
structure Ext2Dirent.Shows (de : Ext2Dirent) (r : DirRecord) : Prop where
  inode : de.dIno = r.inode
  name : ∀ k < r.name.length, de.dName k = r.name.getD k 0
  closed : de.dName r.name.length = 0

namespace Ext2
variable {c : Ext2Context} {N fe nb size pos stop : ℕ} {B : ℕ → Sector} {K : ℕ → ℕ} {f g : FileEnt}
  {s : Ext2State} {E : Env}

/-- Reading has come from `f` to `g` and position `q`; up to `stop` no sector is needed that the countdown
does not lead to. -/
structure Reading (c : Ext2Context) (B : ℕ → Sector) (K : ℕ → ℕ) (nb size stop : ℕ) (f : FileEnt) (q : ℕ)
    (g : FileEnt) : Prop where
  visits : g.Visits c B K nb size q
  ends : g.Exact c ∨ ∀ p, q < p → p ≤ stop → p < size → p % (c.sectors * 512) ≠ 0
  exact : f.Exact c → q < size → g.Exact c

section NoFault
variable (hE : E.NoFault) (hc : c.WellFormed) (hd : c.Direct K nb N) (hsize : size ≤ nb * c.sectors * 512)
include hE hc hd hsize

theorem read_reading {q : ℕ} (n : ℕ) (e : ℤ) (h : At c N fe B g s) (hr : Reading c B K nb size stop f q g)
    (hstop : q + n ≤ stop) : (read E (some fe) n e).Returns s fun p t =>
      p.2.2 = ((c.fileContent B K size).drop q).take n ∧ p.1 = i32 p.2.2.length ∧
        ∃ g', At c N fe B g' t ∧ Reading c B K nb size stop f (q + p.2.2.length) g' := by
  have hends : g.Exact c ∨ ∀ p, q < p → p ≤ q + n → p < size → p % (c.sectors * 512) ≠ 0 :=
    hr.ends.imp id fun hends p hp hp' => hends p hp (by omega)
  refine (read_visits hE hc hd n e h hr.visits hsize hends).mono fun p t ht => ?_
  obtain ⟨hbytes,hres,g',hg',hvisits,hexact⟩ := ht
  refine ⟨hbytes,hres,g',hg',hvisits,?_,fun hx hlt => hexact (hr.exact hx (by omega)) hlt⟩
  by_cases hlt : q + p.2.2.length < size
  · exact hr.ends.imp (fun hx => hexact hx hlt) fun hends p' hp hp' => hends p' (by omega) hp'
  · right
    intro p' _ _ _
    omega

/-- A record in use is returned, and the file goes on behind its padding. -/
theorem readdir_record (e : ℤ) (r : DirRecord) {rest : List UInt8} (h : At c N fe B f s)
    (hr : f.Visits c B K nb size pos) (hbytes : (c.fileContent B K size).drop pos = r.bytes ++ rest)
    (hlive : 0 < r.inode) (hint : r.inode < 2^31)
    (hends : f.Exact c ∨ ∀ p, pos < p → p ≤ pos + r.used → p < size → p % (c.sectors * 512) ≠ 0) :
    (readdir E (some fe) e).Returns s fun p t => p.1 = true ∧ t.de.Shows r ∧
      ∃ g g', Reading c B K nb size (pos + r.used) f (pos + r.used) g ∧ At c N fe B g' t ∧
        Sought c B K nb size (pos + r.used) (pos + r.recLen) g g' := by
  have hused : r.used = 8 + r.name.length := rfl
  have hend : pos + r.recLen ≤ size := by
    have hlength := congrArg List.length hbytes
    rw [List.length_drop,c.length_fileContent,List.length_append,r.length_bytes] at hlength
    have := r.recLen_pos
    omega
  -- the bytes that are left after each of the reads
  have h4 : (c.fileContent B K size).drop (pos + 4) = r.recLenBytes ++
      (UInt8.ofNat r.name.length :: r.fileType :: (r.name ++ (r.padding ++ rest))) := by
    rw [← List.drop_drop,hbytes]
    simp [DirRecord.bytes,DirRecord.inodeBytes]
  have h6 : (c.fileContent B K size).drop (pos + 4 + 2) =
      UInt8.ofNat r.name.length :: r.fileType :: (r.name ++ (r.padding ++ rest)) := by
    rw [← List.drop_drop,h4]
    simp [DirRecord.recLenBytes]
  have h7 : (c.fileContent B K size).drop (pos + 4 + 2 + 1) = r.fileType :: (r.name ++ (r.padding ++ rest)) := by
    rw [← List.drop_drop,h6]
    rfl
  have h8 : (c.fileContent B K size).drop (pos + 4 + 2 + 1 + 1) = r.name ++ (r.padding ++ rest) := by
    rw [← List.drop_drop,h7]
    rfl
  have hde {t : Ext2State} {g : FileEnt} (ht : At c N fe B g t) (d : Ext2Dirent) :
      At c N fe B g { t with de := d } := ⟨ht.context,ht.size,ht.blocks,ht.file⟩
  have hstart : Reading c B K nb size (pos + r.used) f pos f := ⟨hr,hends,fun hx _ => hx⟩
  refine (read_reading hE hc hd hsize 4 e h hstart (by omega)).bind fun p t ht => ?_
  obtain ⟨res,e₁,b⟩ := p
  obtain ⟨hb,hres,g,hg,hread⟩ := ht
  rw [hbytes,DirRecord.bytes,List.append_assoc] at hb
  obtain rfl : b = r.inodeBytes := hb
  obtain rfl : res = 4 := hres
  refine returns_ite (fun h => absurd h (by decide)) fun _ => ?_
  refine (read_reading hE hc hd hsize 2 e₁ hg hread (by change pos + 4 + 2 ≤ _; omega)).bind fun p t₂ ht => ?_
  obtain ⟨res,e₂,b₂⟩ := p
  obtain ⟨hb,hres,g₂,hg₂,hread₂⟩ := ht
  change _ = ((c.fileContent B K size).drop (pos + 4)).take 2 at hb
  rw [h4] at hb
  obtain rfl : b₂ = r.recLenBytes := hb
  obtain rfl : res = 2 := hres
  refine returns_ite (fun h => absurd h (by decide)) fun _ => ?_
  refine (read_reading hE hc hd hsize 1 e₂ hg₂ hread₂ (by change pos + 4 + 2 + 1 ≤ _; omega)).bind fun p t₃ ht => ?_
  obtain ⟨res,e₃,b₃⟩ := p
  obtain ⟨hb,hres,g₃,hg₃,hread₃⟩ := ht
  change _ = ((c.fileContent B K size).drop (pos + 4 + 2)).take 1 at hb
  rw [h6] at hb
  obtain rfl : b₃ = [UInt8.ofNat r.name.length] := hb
  obtain rfl : res = 1 := hres
  refine returns_ite (fun h => absurd h (by decide)) fun _ => ?_
  refine (read_reading hE hc hd hsize 1 e₃ hg₃ hread₃ (by change pos + 4 + 2 + 1 + 1 ≤ _; omega)).bind fun p t₄ ht => ?_
  obtain ⟨res,e₄,b₄⟩ := p
  obtain ⟨hb,hres,g₄,hg₄,hread₄⟩ := ht
  change _ = ((c.fileContent B K size).drop (pos + 4 + 2 + 1)).take 1 at hb
  rw [h7] at hb
  obtain rfl : b₄ = [r.fileType] := hb
  obtain rfl : res = 1 := hres
  refine returns_ite (fun h => absurd h (by decide)) fun _ => ?_
  have hino : i32 ((Sector.ofBytes r.inodeBytes).le32 0) = r.inode := by
    rw [r.le32_inodeBytes,i32_of_lt hint]
  refine Returns.bind (Q := fun _ u => At c N fe B g₄ u ∧ u.de.dIno = r.inode)
    (returns_modify ⟨hde hg₄ _,hino⟩) fun _ u hu => ?_
  obtain ⟨hu,hude⟩ := hu
  refine returns_ite (fun _ => ?_) fun h => absurd (hino ▸ Int.natCast_pos.2 hlive) h
  -- the name
  have hlen : (([UInt8.ofNat r.name.length].getD 0 0).toNat) = r.name.length := r.toNat_length_name
  rw [hlen]
  have hname := (read_reading hE hc hd hsize r.name.length e₄ hu hread₄
    (by change pos + 4 + 2 + 1 + 1 + _ ≤ _; omega)).keeps (read_sameEntry E fe _ _)
  refine hname.bind fun p v hv => ?_
  obtain ⟨res,e₅,b₅⟩ := p
  obtain ⟨⟨hb,-,g₅,hg₅,hread₅⟩,hvde⟩ := hv
  change _ = ((c.fileContent B K size).drop (pos + 4 + 2 + 1 + 1)).take _ at hb
  rw [h8,List.take_left] at hb
  obtain rfl : b₅ = r.name := hb
  have hplace : pos + r.inodeBytes.length + r.recLenBytes.length + [UInt8.ofNat r.name.length].length +
      [r.fileType].length + r.name.length = pos + r.used := by
    change pos + 4 + 2 + 1 + 1 + r.name.length = _
    omega
  dsimp only at hread₅
  rw [hplace] at hread₅
  refine Returns.bind (Q := fun _ w => At c N fe B g₅ w ∧ w.de.Shows r) (returns_modify ⟨hde hg₅ _,?_,fun k hk => ?_,
    if_pos rfl⟩) fun _ w hw => ?_
  · change v.de.dIno = _
    rw [hvde,hude]
  · change (if k = r.name.length then 0 else if k < r.name.length then r.name.getD k 0 else v.de.dName k) = _
    rw [if_neg (by omega),if_pos hk]
  obtain ⟨hw,hshows⟩ := hw
  -- the padding
  have hcap := hc.capacity hd
  have htarget : target g₅ ((Sector.ofBytes r.recLenBytes).le16 0 - 8 - r.name.length) .cur = pos + r.recLen := by
    have hposition := hread₅.visits.position
    rw [r.le16_recLenBytes]
    have hptr : ((g₅.fileSector * 512 + g₅.cursor : ℕ) : ℤ) + ((r.recLen : ℤ) - 8 - r.name.length) =
        ((pos + r.recLen : ℕ) : ℤ) := by
      rw [hposition]
      push_cast
      omega
    rw [target]
    push_cast at hptr ⊢
    rw [hptr]
    exact_mod_cast u32OfInt_natCast (show pos + r.recLen < 2^32 by omega)
  have hle : pos + r.used ≤ pos + r.recLen := by
    rw [DirRecord.recLen]
    omega
  refine ((lseek_visits hE hc hd hw hread₅.visits hsize htarget hle hend).keeps
    (lseek_sameEntry E fe _ _)).bind fun p x hx => returns_pure ?_
  obtain ⟨⟨g₆,hg₆,hsought⟩,hxde⟩ := hx
  exact ⟨rfl,hxde ▸ hshows,g₅,g₆,hread₅,hg₆,hsought⟩

/-- A byte is read whatever sector comes behind it. -/
theorem read_one (e : ℤ) (h : At c N fe B g s) (hr : g.Visits c B K nb size pos) :
    (read E (some fe) 1 e).Returns s fun p t => p.1 = (if pos < size then 1 else 0) ∧ ∃ g', At c N fe B g' t := by
  have hposition := hr.position
  have hcap := hc.capacity hd
  have hinside := hr.inside
  have hpos : position g = pos := by
    have hlt : g.fileSector * 512 + g.cursor < 2^32 := by
      rw [hposition]
      omega
    rw [FileEnt.position_eq hlt,hposition]
  have hloop : (readLoop E fe 1).Returns s fun bytes t =>
      bytes.length = (if pos < size then 1 else 0) ∧ ∃ g', At c N fe B g' t := by
    refine returns_file h ?_
    rw [hpos,hr.length]
    refine returns_ite (fun hend => returns_pure ⟨by rw [if_neg (by omega)]; rfl,g,h⟩) fun hlt => ?_
    obtain ⟨hcursor,hnear⟩ := hr.ready (by omega)
    refine returns_ite (fun hle => absurd hcursor (not_lt.2 hle)) fun _ => ?_
    refine (updateFile_at h fun f => { f with cursor := f.cursor + 1 }).bind fun _ t ht => ?_
    have hnext : (if g.cursor + 1 = 512 then nextSector E fe else pure false).Returns t fun _ u =>
        ∃ g', At c N fe B g' u := by
      refine returns_ite (fun hfull => ?_) fun _ => returns_pure ⟨_,ht⟩
      have hnear' : FileEnt.Near c B K nb { g with cursor := g.cursor + 1 } := ⟨hnear.1,hnear.2,hnear.3,
        hnear.4,hnear.5,hnear.6⟩
      exact (nextSector_near hE hc hd ht hnear' hr.blocks hfull).mono fun _ u hu => hu.imp fun _ hg => hg.1
    refine hnext.bind fun _ u hu => returns_bind_of_ok rfl (returns_pure ⟨?_,hu⟩)
    rw [if_pos (by omega)]
    rfl
  refine hloop.bind fun bytes t ht => ?_
  obtain ⟨hlen,g',hg'⟩ := ht
  have htime : (if 0 < bytes.length then updateAtime E fe else pure ()).Returns t fun _ u =>
      ∃ g', At c N fe B g' u :=
    returns_ite (fun _ => (time_at E hg').bind fun now u hu => (updateFile_at hu _).mono fun _ v hv => ⟨_,hv⟩)
      fun _ => returns_pure ⟨g',hg'⟩
  refine htime.bind fun _ u hu => returns_pure ⟨?_,hu⟩
  change i32 bytes.length = _
  rw [hlen]
  split <;> rfl

/-- Fewer than eight bytes, or an inode number that is not positive: nothing is returned. -/
theorem readdir_null (e : ℤ) {bytes : List UInt8} (h : At c N fe B f s) (hr : f.Visits c B K nb size pos)
    (hbytes : (c.fileContent B K size).drop pos = bytes)
    (hnull : bytes.length < 8 ∨ i32 ((Sector.ofBytes (bytes.take 4)).le32 0) ≤ 0)
    (hends : f.Exact c ∨ ∀ p, pos < p → p ≤ pos + 7 → p < size → p % (c.sectors * 512) ≠ 0) :
    (readdir E (some fe) e).Returns s fun p t => p.1 = false ∧ ∃ g, At c N fe B g t := by
  have hlength : bytes.length = size - pos := by rw [← hbytes,List.length_drop,c.length_fileContent]
  have hi32 {n : ℕ} (hn : n ≤ 4) : i32 n = n := i32_of_lt (by omega)
  have htake (q n : ℕ) : (((c.fileContent B K size).drop q).take n).length = min n (size - q) := by
    rw [List.length_take,List.length_drop,c.length_fileContent]
  have hstart : Reading c B K nb size (pos + 7) f pos f := ⟨hr,hends,fun hx _ => hx⟩
  refine (read_reading hE hc hd hsize 4 e h hstart (by omega)).bind fun p t ht => ?_
  obtain ⟨res,e₁,b⟩ := p
  obtain ⟨hb,hres,g,hg,hread⟩ := ht
  dsimp only at hb hres hread ⊢
  have hblen : b.length = min 4 (size - pos) := by rw [hb,htake]
  rw [hi32 (by omega)] at hres
  refine returns_ite (fun _ => returns_pure ⟨rfl,g,hg⟩) fun hfour => ?_
  have hfour : b.length = 4 := by omega
  rw [hfour] at hread
  refine (read_reading hE hc hd hsize 2 e₁ hg hread (by omega)).bind fun p t₂ ht => ?_
  obtain ⟨res₂,e₂,b₂⟩ := p
  obtain ⟨hb₂,hres₂,g₂,hg₂,hread₂⟩ := ht
  dsimp only at hb₂ hres₂ hread₂ ⊢
  have hblen₂ : b₂.length = min 2 (size - (pos + 4)) := by rw [hb₂,htake]
  rw [hi32 (by omega)] at hres₂
  refine returns_ite (fun _ => returns_pure ⟨rfl,g₂,hg₂⟩) fun htwo => ?_
  have htwo : b₂.length = 2 := by omega
  rw [htwo] at hread₂
  refine (read_reading hE hc hd hsize 1 e₂ hg₂ hread₂ (by omega)).bind fun p t₃ ht => ?_
  obtain ⟨res₃,e₃,b₃⟩ := p
  obtain ⟨hb₃,hres₃,g₃,hg₃,hread₃⟩ := ht
  dsimp only at hb₃ hres₃ hread₃ ⊢
  have hblen₃ : b₃.length = min 1 (size - (pos + 4 + 2)) := by rw [hb₃,htake]
  rw [hi32 (by omega)] at hres₃
  refine returns_ite (fun _ => returns_pure ⟨rfl,g₃,hg₃⟩) fun hone => ?_
  have hone : b₃.length = 1 := by omega
  rw [hone] at hread₃
  refine (read_one hE hc hd hsize e₃ hg₃ hread₃.visits).bind fun p t₄ ht => ?_
  obtain ⟨res₄,e₄,b₄⟩ := p
  obtain ⟨hres₄,g₄,hg₄⟩ := ht
  dsimp only at hres₄ ⊢
  refine returns_ite (fun _ => returns_pure ⟨rfl,g₄,hg₄⟩) fun hlast => ?_
  have hmore : pos + 4 + 2 + 1 < size := by
    by_contra hge
    rw [if_neg hge] at hres₄
    omega
  have hino : i32 ((Sector.ofBytes b).le32 0) ≤ 0 := by
    rw [hb,hbytes]
    exact hnull.resolve_left (by omega)
  have hde {t : Ext2State} {g : FileEnt} (ht : At c N fe B g t) (d : Ext2Dirent) :
      At c N fe B g { t with de := d } := ⟨ht.context,ht.size,ht.blocks,ht.file⟩
  refine Returns.bind (Q := fun _ u => At c N fe B g₄ u) (returns_modify (hde hg₄ _)) fun _ u hu => ?_
  exact returns_ite (fun hpos => absurd hpos (not_lt.2 hino)) fun _ => returns_pure ⟨rfl,g₄,hu⟩

end NoFault

end Ext2

end Gristle
