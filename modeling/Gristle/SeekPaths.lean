import Gristle.ReadBounds

/-! The three ways of `ext2_lseek` to a byte of a file: within the sector, within the block, and by the block
list. Which of them leaves a descriptor that fits the new position. -/
namespace Gristle
open Prog

namespace FileEnt

/-- The fields that depend on the position are those of position `pos`. -/
structure Coherent (c : Ext2Context) (pos : ℕ) (f : FileEnt) : Prop where
  position : f.fileSector * 512 + f.cursor = pos
  cursor : f.cursor < 512
  block : f.blockIndex = f.fileSector / c.sectors
  sector : f.sector = c.dataSector f.inode.iBlock f.fileSector
  left : f.sectorsLeft = c.sectors - 1 - f.fileSector % c.sectors

theorem Coherent.fileSector {c : Ext2Context} {pos : ℕ} {f : FileEnt} (h : f.Coherent c pos) :
    f.fileSector = pos / 512 := by
  have hposition := h.position
  have hcursor := h.cursor
  omega

/-- The fields as the general computation of `ext2_lseek` sets them. -/
theorem coherent_of_fields {c : Ext2Context} {pos : ℕ} {f : FileEnt} (hsector : f.fileSector = pos / 512)
    (hcursor : f.cursor = pos % 512) (hblock : f.blockIndex = pos / 512 / c.sectors)
    (hplace : f.sector = c.dataSector f.inode.iBlock (pos / 512))
    (hleft : f.sectorsLeft = c.sectors - 1 - pos / 512 % c.sectors) : f.Coherent c pos := by
  rw [← hsector] at hblock hplace hleft
  refine ⟨by omega,?_,hblock,hplace,hleft⟩
  rw [hcursor]
  exact Nat.mod_lt _ (by decide)

end FileEnt

/-- The countdown of the way within the block runs the wrong way. -/
theorem countdown_iff {m k k' : ℕ} (hm : m ≤ 2^18) (hpos : 0 < m) (hblock : k' / m = k / m) :
    u32 (m - 1 - k % m + k' + 2^32 - k) = m - 1 - k' % m ↔ k' = k := by
  have hk := Nat.mod_lt k hpos
  have hk' := Nat.mod_lt k' hpos
  have hparts := Nat.mod_add_div k m
  have hparts' := Nat.mod_add_div k' m
  rw [hblock] at hparts'
  unfold u32
  constructor
  · intro h
    omega
  · rintro rfl
    omega

namespace Ext2
variable {c : Ext2Context} {N fe nb pos : ℕ} {B : ℕ → Sector} {f : FileEnt} {s : Ext2State} {E : Env}
  (hE : E.NoFault)
include hE

/-- After a flush the medium is as the file sees it. -/
theorem flush_view (h : At c N fe B f s) (hclean : f.flags.dirty = false → f.buffer = B f.sector) :
    (flush E fe).Returns s fun _ t => ∃ B' d, At c N fe B' { f with flags.dirty := d } t ∧
      ∀ b, 0 < b → b < N → B' b = f.overlay B b := by
  refine returns_file h (returns_ite (fun hdirty => ?_) fun hdirty => ?_)
  · refine returns_ite (fun hzero => returns_pure ⟨B,f.flags.dirty,h,fun b hb _ => ?_⟩) fun _ => ?_
    · rw [FileEnt.overlay,hzero,Function.update_of_ne (by omega)]
    by_cases hlt : f.sector < N
    · refine (writeBlock_at hE h hlt _ _).bind fun failed t ht => ?_
      obtain ⟨rfl,hat,-⟩ := ht
      exact (updateFile_at hat _).bind fun _ u hu => returns_pure ⟨_,false,hu,fun _ _ _ => rfl⟩
    · -- the transfer is refused
      have hx : (Device.blockWrite E .ext2Flush f.sector f.buffer).Returns s.dev fun failed d =>
          failed = true ∧ d.size = N ∧ d.blocks = B := by
        rw [Returns,Device.blockWrite,if_pos (.inr (h.size ▸ not_lt.1 hlt))]
        exact ⟨_,_,rfl,rfl,h.size,h.blocks⟩
      refine (onDevice_at h hx).bind fun failed t ht => ?_
      obtain ⟨⟨rfl,hN,hB⟩,hat,-⟩ := ht
      refine returns_pure ⟨B,f.flags.dirty,hB ▸ hat hN,fun b _ hb => ?_⟩
      rw [FileEnt.overlay,Function.update_of_ne (by omega)]
  · refine returns_pure ⟨B,f.flags.dirty,h,fun b _ _ => ?_⟩
    rw [FileEnt.overlay,hclean (by simpa using hdirty),Function.update_eq_self]

/-- A seek to a byte of a file of direct blocks reaches it and loads its sector, but the fields fit the new
position only when it lies in the same sector or in another block. -/
theorem lseek_coherent_iff (hc : c.WellFormed) (h : At c N fe B f s)
    (hd : c.Direct f.inode.iBlock (c.neededBlocks f.inode.iSize) N) (hf : f.Coherent c pos) (hpos : pos < 2^32)
    (hclean : f.flags.dirty = false → f.buffer = B f.sector) {ptr : ℤ} {dir : Whence} {T : ℕ}
    (htarget : target f ptr dir = T) (hT : T < f.inode.iSize) :
    (lseek E (some fe) ptr dir).Returns s fun p t => p.1 = T ∧ ∃ B' g, At c N fe B' g t ∧
      (g.Coherent c T ∧ g.buffer = f.overlay B g.sector ↔
        T / 512 = pos / 512 ∨ T / 512 / c.sectors ≠ pos / 512 / c.sectors) := by
  have hroom := c.size_le_neededBlocks f.inode.iSize
  have hcap := hc.capacity hd
  have hspos := c.sectors_pos
  have hfile := hf.fileSector
  have hTin : T / 512 < c.neededBlocks f.inode.iSize * c.sectors := by omega
  have hresult : i32 T = T := i32_of_lt (by omega)
  have hposition : position f = pos := by
    have hlt : f.fileSector * 512 + f.cursor < 2^32 := hf.position ▸ hpos
    rw [FileEnt.position_eq hlt,hf.position]
  have hlt := hd.dataSector_lt hTin
  have hgt := hd.dataSector_pos hTin
  have hown : f.overlay B f.sector = f.buffer := Function.update_self _ _ _
  refine returns_file h ?_
  change Returns (if position f = target f ptr dir then _ else _) s _
  rw [hposition,htarget]
  -- the position asked for is the current one
  refine returns_ite (fun he => returns_pure ⟨by rw [he,hresult],B,f,h,?_⟩) fun hne => ?_
  · exact iff_of_true ⟨he ▸ hf,hown.symm⟩ (.inl (by rw [he]))
  refine returns_ite (fun hbeyond => absurd hbeyond (by omega)) fun _ => ?_
  refine returns_ite (fun hsame => ?_) fun hother => ?_
  · have hsame : pos / 512 = T / 512 := hsame
    refine (updateFile_at h _).bind fun _ t ht => returns_pure ⟨hresult,B,_,ht,?_⟩
    refine iff_of_true ⟨⟨?_,Nat.mod_lt _ (by decide),hf.block,hf.sector,hf.left⟩,hown.symm⟩ (.inl hsame.symm)
    change f.fileSector * 512 + T % 512 = T
    omega
  have hother : pos / 512 ≠ T / 512 := hother
  obtain ⟨b,hb⟩ := h.context
  refine returns_context hb ?_
  rw [logPlus_eq hc (by decide),logPlus_eq hc (by decide)]
  have hlog := hc.log
  refine returns_oneShl (by omega) ?_
  rw [c.two_pow_log,← Nat.div_div_eq_div_mul,← Nat.div_div_eq_div_mul]
  refine returns_ite (fun hblock => ?_) fun hblock => ?_
  · have hblock : T / 512 / c.sectors = pos / 512 / c.sectors := hblock
    have hsector : u32 (f.sector + T / 512 + 2^32 - pos / 512) = c.dataSector f.inode.iBlock (T / 512) := by
      rw [hf.sector,hfile]
      exact hd.hop hblock hTin
    refine (flush_view hE h hclean).bind fun _ t ht => ?_
    obtain ⟨B',d,ht,-⟩ := ht
    refine (updateFile_at ht _).bind fun _ u hu => returns_file hu ?_
    refine (readBuffer_at hE hu (show u32 _ < N from hsector ▸ hlt)).bind fun failed v hv => ?_
    obtain ⟨rfl,hv⟩ := hv
    refine returns_pure ⟨hresult,B',_,hv,iff_of_false (fun hg => ?_) fun h => ?_⟩
    · have hleft := hg.1.left
      change u32 (f.sectorsLeft + T / 512 + 2^32 - pos / 512) = c.sectors - 1 - T / 512 % c.sectors at hleft
      rw [hf.left,hfile] at hleft
      have hsectors : c.sectors ≤ 2^18 := Nat.pow_le_pow_right (by decide) (by omega)
      exact hother ((countdown_iff hsectors hspos hblock).1 hleft).symm
    · rcases h with h | h
      · exact hother h.symm
      · exact h hblock
  · have hblock : T / 512 / c.sectors ≠ pos / 512 / c.sectors := hblock
    refine (flush_view hE h hclean).bind fun _ t ht => ?_
    obtain ⟨B',d,ht,hview⟩ := ht
    have hcount := hd.count
    have hnear := Ext2Context.block_lt hTin
    refine returns_ite (fun hfar => absurd hfar (by omega)) fun _ => ?_
    refine returns_oneShl (by omega) ?_
    rw [Ext2Context.sector_in_block]
    have hmod := Nat.mod_lt (T / 512) hspos
    have hsectors : c.sectors ≤ 2^18 := Nat.pow_le_pow_right (by decide) (by omega)
    have hsector : u32 (f.inode.iBlock (T / 512 / c.sectors) * c.sectors + c.partStart + T / 512 % c.sectors) =
        c.dataSector f.inode.iBlock (T / 512) := u32_of_lt (lt_of_lt_of_le hlt hd.device)
    refine (updateFile_at ht _).bind fun _ u hu => returns_file hu ?_
    refine (readBuffer_at hE hu (show u32 _ < N from hsector ▸ hlt)).bind fun failed v hv => ?_
    obtain ⟨rfl,hv⟩ := hv
    refine returns_pure ⟨hresult,B',_,hv,iff_of_true ⟨?_,?_⟩ (.inr hblock)⟩
    · refine FileEnt.coherent_of_fields rfl rfl rfl hsector ?_
      change u32 (c.sectors + 2^32 - T / 512 % c.sectors - 1) = _
      unfold u32
      omega
    · change B' (u32 _) = f.overlay B (u32 _)
      exact hview _ (hsector ▸ hgt) (hsector ▸ hlt)

omit hE

/-- The file of the small volume, grown to 1024 bytes and opened. -/
def wholeFile : FileEnt := opened smallContext (sizedExt2 1024) 3 (sizedExt2 1024 12)

def wholeState : Ext2State :=
  { smallHeap with
    dev := ⟨sizedExt2 1024,16,0,[]⟩
    files := fun fe => if fe = 0 then some wholeFile else none }

theorem wholeFile_coherent : wholeFile.Coherent smallContext 0 :=
  FileEnt.coherent_of_fields rfl rfl (by decide +kernel) (by decide +kernel) (by decide +kernel)

/-- Within the first sector the fields stay right. -/
theorem lseek_coherent_three : (lseek (Env.calm (fun _ => 90) 8) (some 0) 3 .set).Returns wholeState fun p t =>
    p.1 = (3 : ℕ) ∧ ∃ B' g, At smallContext 16 0 B' g t ∧ g.Coherent smallContext 3 ∧
      g.buffer = wholeFile.overlay (sizedExt2 1024) g.sector := by
  have hE : (Env.calm (fun _ => 90) 8).NoFault := ⟨fun _ => rfl,fun _ => rfl,fun _ => rfl⟩
  have hat : At smallContext 16 0 (sizedExt2 1024) wholeFile wholeState := ⟨⟨.zero,rfl⟩,rfl,rfl,rfl⟩
  have hneeded : smallContext.neededBlocks wholeFile.inode.iSize = 1 := by decide +kernel
  have hblock : wholeFile.inode.iBlock 0 = 6 := by decide +kernel
  have hd : smallContext.Direct wholeFile.inode.iBlock (smallContext.neededBlocks wholeFile.inode.iSize) 16 := by
    rw [hneeded]
    refine ⟨by decide,fun j hj => ?_,fun j hj => ?_,by decide⟩
    · obtain rfl : j = 0 := by omega
      rw [hblock]
      decide
    · obtain rfl : j = 0 := by omega
      rw [hblock,smallExt2_sectors]
      decide
  have hbuffer : wholeFile.flags.dirty = false → wholeFile.buffer = sizedExt2 1024 wholeFile.sector := by
    intro _
    have hsector : wholeFile.sector = 12 := by decide +kernel
    rw [hsector]
    rfl
  have htarget : target wholeFile 3 .set = 3 := by decide
  have hsize : 3 < wholeFile.inode.iSize := by decide +kernel
  refine (lseek_coherent_iff hE smallContext_wellFormed hat hd wholeFile_coherent (by decide) hbuffer htarget
    hsize).mono fun p t ht => ?_
  obtain ⟨hp,B',g,hg,hiff⟩ := ht
  exact ⟨hp,B',g,hg,(hiff.2 (.inl rfl)).1,(hiff.2 (.inl rfl)).2⟩

/-- From the first sector of a block to the second the countdown grows. -/
theorem lseek_countdown_grows : wholeFile.Coherent smallContext 0 ∧ 512 < wholeFile.inode.iSize ∧
    (lseek (Env.calm (fun _ => 90) 8) (some 0) 512 .set).Returns wholeState fun p t => p.1 = 512 ∧
      ∃ g, t.files 0 = some g ∧ ¬ g.Coherent smallContext 512 := by
  refine ⟨wholeFile_coherent,by decide +kernel,?_⟩
  have hrun : Prog.test (lseek (Env.calm (fun _ => 90) 8) (some 0) 512 .set) wholeState (fun p t =>
      decide (p.1 = 512) && (t.files 0).any fun g => decide (g.fileSector = 1 ∧ g.sectorsLeft = 2)) = true := by decide +kernel
  obtain ⟨p,t,hp,ht⟩ := ok_of_test hrun
  obtain ⟨hp',hfile⟩ : p.1 = 512 ∧ _ := by simpa only [Bool.and_eq_true,decide_eq_true_eq] using ht
  refine ⟨p,t,hp,hp',?_⟩
  cases hg : t.files 0 with
  | none => simp [hg] at hfile
  | some g =>
    obtain ⟨hsector,hleft⟩ : g.fileSector = 1 ∧ g.sectorsLeft = 2 := by simpa [hg] using hfile
    refine ⟨g,rfl,fun h => ?_⟩
    have hright := h.left
    rw [hsector,hleft,smallExt2_sectors] at hright
    exact absurd hright (by decide)

end Ext2

end Gristle
