import Gristle.Growth

/-! `fat_lseek` inside the chain of a file, without faults: whichever of its three ways it takes, the
descriptor ends over the byte asked for, with that byte's sector in its buffer. -/
namespace Gristle
open Prog

/-- The descriptor stands at byte `p` of the file with the chain `cs` and has that sector in its buffer. -/
structure FileS.Over (g : FatInfo) (B : ℕ → Sector) (cs : List ℕ) (p : ℕ) (f : FileS) : Prop where
  at_ : f.At g cs f.fileSector
  cursor : f.cursor ≤ 512
  position : f.fileSector * 512 + f.cursor = p
  loaded : f.Loaded B

/-- The descriptor has moved to byte `p` and has nothing to write back. -/
structure Landed (g : FatInfo) (cs : List ℕ) (p : ℕ) (B : ℕ → Sector) (f f' : FileS) : Prop where
  place : f'.Over g B cs p
  cursor : f'.cursor < 512
  clean : f'.flags.dirty = false
  still : f'.still = f.still
  fsDirty : f'.flags.fsDirty = f.flags.fsDirty

theorem FileS.Over.position_eq {g : FatInfo} {B : ℕ → Sector} {cs : List ℕ} {p : ℕ} {f : FileS}
    (h : f.Over g B cs p) (hp : p < 2^32) : f.position = p := by
  change u32 (f.cursor + f.fileSector * 512) = p
  rw [Nat.add_comm,h.position]
  exact u32_of_lt hp

namespace FatInfo

/-- The cluster of a byte is that of its sector. -/
theorem cluster_of_byte (g : FatInfo) (p : ℕ) :
    p / (g.sectorsPerCluster * blockSize) = p / 512 / g.sectorsPerCluster := by
  rw [Nat.div_div_eq_div_mul,Nat.mul_comm]

/-- The sector of a byte within its cluster. -/
theorem sector_in_cluster (g : FatInfo) (p : ℕ) :
    (p - p / 512 / g.sectorsPerCluster * g.sectorsPerCluster * blockSize) / blockSize =
      p / 512 % g.sectorsPerCluster := by
  have hcluster := Nat.div_add_mod' (p / 512) g.sectorsPerCluster
  change (p - _ * 512) / 512 = _
  omega

/-- Two sectors of the same cluster are as far apart on the medium as in the file. -/
theorem sectorAt_same (g : FatInfo) {cs : List ℕ} {q q' : ℕ}
    (h : q' / g.sectorsPerCluster = q / g.sectorsPerCluster) :
    g.sectorAt cs q' + q = g.sectorAt cs q + q' := by
  have hq := Nat.div_add_mod q g.sectorsPerCluster
  have hq' := Nat.div_add_mod q' g.sectorsPerCluster
  rw [h] at hq'
  rw [sectorAt,sectorAt,h]
  unfold clusterSector
  omega

variable {g : FatInfo} {size : ℕ} (hg : g.Valid size)
include hg

/-- The sector number `fat_lseek` computes from a cluster of the chain. -/
theorem Valid.seek_sector {cs : List ℕ} (hcs : ∀ c ∈ cs, g.InRange c) {q : ℕ} (hq : q < g.span cs) :
    u32 (cs.getD (q / g.sectorsPerCluster) 0 * g.sectorsPerCluster + g.cluster0 +
      q % g.sectorsPerCluster) = g.sectorAt cs q := by
  have hlt := (hg.sectorAt_lt hcs hq).2
  have hsize := hg.size
  have hfirst := hg.firstSector_eq (hcs _ (hg.getD_mem hq))
  unfold firstSector at hfirst
  unfold sectorAt clusterSector u32 at *
  omega

/-- The number of sectors `fat_lseek` leaves behind one of a cluster. -/
theorem Valid.seek_left (q : ℕ) :
    u8 (g.sectorsPerCluster + 2^8 - q % g.sectorsPerCluster - 1) =
      g.sectorsPerCluster - 1 - q % g.sectorsPerCluster := by
  have hspc := hg.spc_le
  have hmod := Nat.mod_lt q hg.spc_pos
  unfold u8
  omega

end FatInfo

/-- `fat_lseek` behind its checks, with the next sector loaded if need be. -/
def seekRest (E : Env) (g : FatInfo) (fd : Fd) (ptr : ℤ) (oldPos newPos : ℕ) : FatM (ℤ × ℤ) :=
  if oldPos / blockSize = newPos / blockSize then do
    updateFile fd fun f => { f with cursor := newPos % blockSize }
    pure (i32 newPos,0)
  else if newPos / (g.sectorsPerCluster * blockSize) = oldPos / (g.sectorsPerCluster * blockSize) then do
    updateFile fd fun f => { f with
      fileSector := newPos / blockSize
      sector := u32 (f.sector + newPos / blockSize + 2^32 - oldPos / blockSize)
      sectorsLeft := u8 (f.sectorsLeft + oldPos / blockSize + 2^32 - newPos / blockSize)
      cursor := newPos % blockSize }
    let f ← file fd
    if ← readBuffer E fd f.sector then pure (ptr - 1,0)
    else pure (i32 newPos,0)
  else seekChain E fd ptr newPos

section NoFault
variable {E : Env} (hE : E.NoFault) {fd : Fd} {s : FatState} {a p q : ℕ} {cs : List ℕ}
  (hg : s.fatfs.Valid s.dev.size) (hcs : s.fatfs.Chain s.dev.blocks a cs)
  (hclean : (s.fileNum fd).flags.dirty = false)
include hE hg hcs hclean

/-- The walk from one cluster of a chain to a later one. -/
theorem walkClusters_returns {i n : ℕ} (hn : i + n < cs.length)
    (hi : (s.fileNum fd).cluster = cs.getD i 0) : (walkClusters E fd n 0).Returns s fun r t =>
      r = 0 ∧ ∃ b, After fd s t s.dev.blocks
        { s.fileNum fd with cluster := cs.getD (i+n) 0, buffer := b } := by
  induction n generalizing s i with
  | zero =>
    rw [Nat.add_zero,← hi]
    exact returns_pure ⟨rfl,(s.fileNum fd).buffer,After.refl s⟩
  | succ n ih =>
    have hi₀ : i < cs.length := by omega
    have hi₁ : i + 1 < cs.length := by omega
    rw [List.getD_eq_getElem _ _ hi₀] at hi
    have hmem := hcs.inRange _ (List.getElem_mem hi₁)
    refine (fatNextClusterWith_inside hE hclean hg (hi ▸ hcs.inRange _ (List.getElem_mem hi₀))
      (hi ▸ hcs.links.next_getElem hi₁) hmem).bind fun r t ht => ?_
    obtain ⟨rfl,ht⟩ := ht
    refine (updateFile_returns fd _ t).bind fun _ u hu => ?_
    have hlt := hmem.2
    have hle := hg.entries_le
    rw [ht.blocks,ht.file,u32OfInt_natCast (by omega)] at hu
    have hsu := ht.trans hu
    refine (ih (by rw [hsu.fatfs,hsu.size]; exact hg) (by rw [hsu.fatfs,hsu.blocks]; exact hcs)
      (by rw [hu.file]; exact hclean) (show i + 1 + n < cs.length by omega)
      (by rw [hu.file,List.getD_eq_getElem _ _ hi₁])).mono fun r v hv => ?_
    obtain ⟨hr,b,hv⟩ := hv
    rw [hsu.blocks,hu.file,Nat.add_assoc,Nat.add_comm 1 n] at hv
    exact ⟨hr,b,hsu.trans hv⟩

/-- The way of `fat_lseek` that starts again from the first cluster. -/
theorem seekChain_inside (hfirst : (s.fileNum fd).fullFirstCluster = a) (ptr : ℤ)
    (hp : p / 512 < s.fatfs.span cs) : (seekChain E fd ptr p).Returns s fun r t => r = (i32 p,0) ∧
      After fd s t s.dev.blocks (t.fileNum fd) ∧
      Landed s.fatfs cs p s.dev.blocks (s.fileNum fd) (t.fileNum fd) := by
  refine returns_fatfs ((updateFile_returns fd _ s).bind fun _ t ht => ?_)
  rw [FatInfo.cluster_of_byte,FatInfo.sector_in_cluster]
  have hindex := hg.index_lt hp
  have hhead : cs.getD 0 0 = a := by
    rw [List.getD_eq_getElem?_getD,hcs.links.getElem_zero]
    rfl
  refine (walkClusters_returns hE (by rw [ht.fatfs,ht.size]; exact hg)
    (by rw [ht.fatfs,ht.blocks]; exact hcs) (by rw [ht.file]; exact hclean)
    (show 0 + _ < cs.length by rwa [Nat.zero_add])
    (by rw [ht.file,hhead]; exact hfirst)).bind fun r u hu => ?_
  obtain ⟨rfl,b,hu⟩ := hu
  rw [ht.blocks,ht.file,Nat.zero_add] at hu
  have hsu := ht.trans hu
  refine (updateFile_returns fd _ u).bind fun _ v hv => returns_file ?_
  rw [hu.blocks,hu.file] at hv
  have hsv := hsu.trans hv
  rw [hv.file]
  simp only [hg.seek_sector hcs.inRange hp,hg.seek_left] at hv ⊢
  refine (readBuffer_returns hE (by rw [hsv.size]; exact (hg.sectorAt_lt hcs.inRange hp).2)).bind fun
    failed w hw => ?_
  obtain ⟨rfl,hw⟩ := hw
  rw [hsv.blocks,hv.file] at hw
  refine returns_ite (by simp) fun _ => returns_pure ⟨rfl,(hsv.trans hw).self,?_⟩
  rw [hw.file]
  have hmod : p % 512 < 512 := Nat.mod_lt _ (by decide)
  exact ⟨⟨⟨hp,rfl,rfl,rfl⟩,hmod.le,Nat.div_add_mod' p 512,rfl⟩,hmod,hclean,rfl,rfl⟩

/-- A descriptor that has used up its sector loads the next one before it moves. -/
theorem nextSector_inside (hf : (s.fileNum fd).Over s.fatfs s.dev.blocks cs p)
    (hp : p < s.fatfs.span cs * 512) :
    (if (s.fileNum fd).cursor = blockSize then fatNextSector E fd else pure false).Returns s
      fun failed t => failed = false ∧ After fd s t s.dev.blocks (t.fileNum fd) ∧
        Landed s.fatfs cs p s.dev.blocks (s.fileNum fd) (t.fileNum fd) := by
  have hcursor := hf.cursor
  have hposition := hf.position
  refine returns_ite (fun hend => ?_) fun hin => returns_pure ⟨rfl,After.refl s,?_⟩
  · change (s.fileNum fd).cursor = 512 at hend
    have hspan := hcs.span_le hg
    have hq : (s.fileNum fd).fileSector + 1 < s.fatfs.span cs := by omega
    refine (fatNextSectorWith_inside hE hg hcs hf.at_ hq).mono fun _ t ht => ?_
    obtain ⟨hfailed,ht,har,hmark⟩ := ht
    rw [FileS.flushed_of_clean hclean] at ht har
    have hsector := har.fileSector
    rw [u32_of_lt (by omega)] at hsector
    have hzero := har.cursor
    refine ⟨hfailed,ht,⟨⟨hsector ▸ har.at_,by omega,?_,har.loaded⟩,by omega,har.clean,har.still,hmark⟩⟩
    rw [hsector,hzero,← hposition,hend,Nat.succ_mul,Nat.add_zero]
  · change (s.fileNum fd).cursor ≠ 512 at hin
    exact ⟨hf,by omega,hclean,rfl,rfl⟩

/-- From a byte in a loaded sector to a byte inside the chain. -/
theorem seekRest_inside {ptr : ℤ} {t : ℕ} (hfirst : (s.fileNum fd).fullFirstCluster = a)
    (hf : (s.fileNum fd).Over s.fatfs s.dev.blocks cs p) (hcursor : (s.fileNum fd).cursor < 512)
    (hin : t < s.fatfs.span cs * 512) : (seekRest E s.fatfs fd ptr p t).Returns s fun r u => r = (i32 t,0) ∧
      After fd s u s.dev.blocks (u.fileNum fd) ∧
      Landed s.fatfs cs t s.dev.blocks (s.fileNum fd) (u.fileNum fd) := by
  have hposition := hf.position
  have hsector : (s.fileNum fd).fileSector = p / 512 := by omega
  have hat := hf.at_
  rw [hsector] at hat
  have hmod : t % 512 < 512 := Nat.mod_lt _ (by decide)
  have hq : t / 512 < s.fatfs.span cs := by omega
  change Returns (if p / 512 = t / 512 then _ else _) _ _
  refine returns_ite (fun hsame => ?_) fun hother => ?_
  -- the sector is in the buffer already
  · refine (updateFile_returns fd _ s).bind fun _ u hu => returns_pure ⟨rfl,hu.self,?_⟩
    rw [hu.file]
    refine ⟨⟨⟨?_,?_,?_,?_⟩,hmod.le,?_,hf.loaded⟩,hmod,hclean,rfl,rfl⟩
    · exact hf.at_.inside
    · exact hf.at_.cluster
    · exact hf.at_.sector
    · exact hf.at_.left
    · change (s.fileNum fd).fileSector * 512 + t % 512 = t
      omega
  rw [FatInfo.cluster_of_byte,FatInfo.cluster_of_byte]
  refine returns_ite (fun hcluster => ?_) fun _ => ?_
  -- some sectors forward or back
  · have hlt := (hg.sectorAt_lt hcs.inRange hq).2
    have hle := hg.size
    have hspc := hg.spc_le
    have hapart := @FatInfo.sectorAt_same s.fatfs cs _ _ hcluster
    have hsec : u32 ((s.fileNum fd).sector + t / 512 + 2^32 - p / 512) = s.fatfs.sectorAt cs (t / 512) := by
      have := hat.inside
      have := hcs.span_le hg
      rw [hat.sector]
      unfold u32
      omega
    have hleft : u8 ((s.fileNum fd).sectorsLeft + p / 512 + 2^32 - t / 512) =
        s.fatfs.sectorsPerCluster - 1 - t / 512 % s.fatfs.sectorsPerCluster := by
      have h₁ := Nat.div_add_mod (t / 512) s.fatfs.sectorsPerCluster
      have h₂ := Nat.div_add_mod (p / 512) s.fatfs.sectorsPerCluster
      have h₃ := Nat.mod_lt (t / 512) hg.spc_pos
      have h₄ := Nat.mod_lt (p / 512) hg.spc_pos
      rw [hcluster] at h₁
      rw [hat.left]
      unfold u8
      omega
    refine (updateFile_returns fd _ s).bind fun _ u hu => returns_file ?_
    change After fd s u _ { s.fileNum fd with
      fileSector := t / 512
      sector := u32 ((s.fileNum fd).sector + t / 512 + 2^32 - p / 512)
      sectorsLeft := u8 ((s.fileNum fd).sectorsLeft + p / 512 + 2^32 - t / 512)
      cursor := t % 512 } at hu
    rw [hsec,hleft] at hu
    rw [hu.file]
    refine (readBuffer_returns hE (by rw [hu.size]; exact hlt)).bind fun failed v hv => ?_
    obtain ⟨rfl,hv⟩ := hv
    rw [hu.blocks,hu.file] at hv
    refine returns_ite (by simp) fun _ => returns_pure ⟨rfl,(hu.trans hv).self,?_⟩
    rw [hv.file]
    refine ⟨⟨⟨hq,?_,rfl,rfl⟩,hmod.le,Nat.div_add_mod' t 512,rfl⟩,hmod,hclean,rfl,rfl⟩
    rw [hcluster]
    exact hat.cluster
  · exact seekChain_inside hE hg hcs hclean hfirst ptr hq

/-- From a byte of another cluster, wherever the descriptor stands. -/
theorem seekRest_chain {ptr : ℤ} {t : ℕ} (hfirst : (s.fileNum fd).fullFirstCluster = a)
    (hin : t < s.fatfs.span cs * 512)
    (hp : t / 512 / s.fatfs.sectorsPerCluster ≠ p / 512 / s.fatfs.sectorsPerCluster) :
    (seekRest E s.fatfs fd ptr p t).Returns s fun r u => r = (i32 t,0) ∧
      After fd s u s.dev.blocks (u.fileNum fd) ∧
      Landed s.fatfs cs t s.dev.blocks (s.fileNum fd) (u.fileNum fd) := by
  change Returns (if p / 512 = t / 512 then _ else _) _ _
  refine returns_ite (fun h => absurd (by rw [h]) hp) fun _ => ?_
  rw [FatInfo.cluster_of_byte,FatInfo.cluster_of_byte]
  exact returns_ite (fun h => absurd h hp) fun _ =>
    seekChain_inside hE hg hcs hclean hfirst ptr (by omega)

/-- A seek from inside the chain to a byte inside the chain. -/
theorem seekSlot_inside {ptr : ℤ} {dir : Whence} {t : ℕ} (hopen : (s.fileNum fd).flags.open_ = true)
    (hfirst : (s.fileNum fd).fullFirstCluster = a)
    (hf : (s.fileNum fd).Over s.fatfs s.dev.blocks cs p) (hp : p < s.fatfs.span cs * 512)
    (hp₃₂ : p < 2^32) (ht : (s.fileNum fd).target ptr dir = t)
    (hsize : t ≤ (s.fileNum fd).size ∨ (s.fileNum fd).isSubdir = true) (hin : t < s.fatfs.span cs * 512) :
    (seekSlot E ptr dir fd).Returns s fun r u => r = (i32 t,0) ∧
      After fd s u s.dev.blocks (u.fileNum fd) ∧
      Landed s.fatfs cs t s.dev.blocks (s.fileNum fd) (u.fileNum fd) := by
  have hpos := hf.position_eq hp₃₂
  refine returns_file (returns_ite (by simp [hopen]) fun _ => ?_)
  refine returns_bind_of_ok (fatFlushWith_clean hclean) (returns_file (returns_fatfs ?_))
  rw [hpos,ht]
  refine returns_ite (fun h => ?_) fun _ => ?_
  · rcases hsize with hle | hsub
    · omega
    · rw [hsub] at h
      exact absurd h.2 (by decide)
  refine (nextSector_inside hE hg hcs hclean hf hp).bind fun _ u hu => ?_
  obtain ⟨-,hu,hl⟩ := hu
  have hfirst' := FileS.field_of_still FileS.fullFirstCluster (fun _ => rfl) hl.still
  have hrest := @seekRest_inside E hE fd u a p cs (by rw [hu.fatfs,hu.size]; exact hg)
    (by rw [hu.fatfs,hu.blocks]; exact hcs) hl.clean ptr t (hfirst'.trans hfirst)
    (by rw [hu.fatfs,hu.blocks]; exact hl.place) hl.cursor (by rw [hu.fatfs]; exact hin)
  rw [hu.fatfs] at hrest
  refine Returns.mono hrest fun r v hv => ?_
  obtain ⟨hr,hv,hl'⟩ := hv
  rw [hu.blocks] at hv hl'
  exact ⟨hr,hu.trans hv,⟨hl'.place,hl'.cursor,hl'.clean,hl'.still.trans hl.still,
    hl'.fsDirty.trans hl.fsDirty⟩⟩

end NoFault

end Gristle
