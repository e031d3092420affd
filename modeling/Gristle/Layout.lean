import Gristle.Allocate

/-! What `fat_mount` accepts: the layout a boot sector describes, in exact arithmetic, against the
32-bit fields the driver stores, and the clusters its allocator then hands out. -/
namespace Gristle
open Prog (get bind_ok bind_of_ok run_ite ok_of_test)

/-! ### The described layout -/

namespace BootSector

/-- Sectors of one copy of the table. -/
def fatLen (b : BootSector) (type : ℕ) : ℕ :=
  if type = partTypeFat16 then b.shortSectorsPerFat else b.longSectorsPerFat

/-- Sectors of the fixed root directory. -/
def rootLen (b : BootSector) : ℕ := b.rootEntries * 32 / 512

/-- Sectors in front of the data area. -/
def overhead (b : BootSector) (type : ℕ) : ℕ :=
  b.reservedSectors + b.fatLen type * b.numFats + b.rootLen

/-- Whole clusters in the data area. -/
def clusters (b : BootSector) (type : ℕ) : ℕ := (b.total - b.overhead type) / b.clusterSize

end BootSector

/-- What a successful `fat_mount_fat16` has checked and stored. -/
structure MountedFat16 (b : BootSector) (start volumeSize : ℕ) (g : FatInfo) : Prop where
  sizes : b.sizesOk volumeSize = true
  entries : b.rootEntries ≠ 0
  whole : b.rootEntries % 16 = 0
  fits : b.fits volumeSize = true
  root : g.rootStart ≤ u32 (start + volumeSize)
  geometry : g = { b.geometry16 start g with
    totalSectors := b.total
    type := partTypeFat16
    fatEntryLen := 2
    endClusterMarker := 0xFFF0
    partStart := start
    rootCluster := 1 }

/-- What a successful `fat_mount_fat32` has checked and stored. -/
structure MountedFat32 (b : BootSector) (start volumeSize : ℕ) (g : FatInfo) : Prop where
  sizes : b.sizesOk volumeSize = true
  entries : b.rootEntries = 0
  fits : b.fits volumeSize = true
  geometry : g = b.geometry32 start g

/-! ### Reading back the mount functions -/

theorem setFatfs_ok {f : FatInfo → FatInfo} {s t : FatState} {a : Unit}
    (h : setFatfs f s = .ok (a,t)) : t = { s with fatfs := f s.fatfs } := by
  simp only [setFatfs,Prog.modify_apply,Except.ok.injEq,Prod.mk.injEq] at h
  exact h.2.symm

theorem sysUnlock_ok {s t : FatState} {a : Unit} (h : sysUnlock s = .ok (a,t)) :
    t.fatfs = s.fatfs ∧ t.sysbuf = s.sysbuf := by
  obtain ⟨d,-,rfl⟩ := onDevice_ok h
  exact ⟨rfl,rfl⟩

/-- The end of a mount function that gives up. -/
theorem sysUnlock_failed {s t : FatState} {r : ℤ}
    (h : (do sysUnlock; pure (-1) : FatM ℤ) s = .ok (r,t)) : r = -1 := by
  obtain ⟨a,u,-,h⟩ := bind_ok h
  exact (pure_ok h).1

theorem fatMountFat16_ok {E : Env} {start volumeSize : ℕ} {s t : FatState}
    (h : fatMountFat16 E start volumeSize s = .ok (0,t)) :
    MountedFat16 t.sysbuf.bootSector start volumeSize t.fatfs := by
  obtain ⟨granted,u,-,h⟩ := bind_ok h
  rw [run_ite] at h
  split at h
  swap
  · exact absurd (pure_ok h).1 (by decide)
  obtain ⟨_,v,-,h⟩ := bind_ok h
  obtain ⟨_,w,-,h⟩ := bind_ok h
  rw [bind_of_ok rfl] at h
  simp only [run_ite] at h
  split at h
  · exact absurd (sysUnlock_failed h) (by decide)
  have haccept := ‹¬ _›
  simp only [Bool.or_eq_true,Bool.not_eq_true',decide_eq_true_eq,not_or,Bool.not_eq_false] at haccept
  obtain ⟨⟨⟨hsizes,hentries⟩,hwhole⟩,hfits⟩ := haccept
  obtain ⟨_,x,hx,h⟩ := bind_ok h
  obtain rfl := setFatfs_ok hx
  rw [bind_of_ok rfl,run_ite] at h
  split at h
  · exact absurd (sysUnlock_failed h) (by decide)
  obtain ⟨_,y,hy,h⟩ := bind_ok h
  obtain rfl := setFatfs_ok hy
  obtain ⟨_,z,hz,h⟩ := bind_ok h
  obtain ⟨-,rfl⟩ := pure_ok h
  obtain ⟨hg,hb⟩ := sysUnlock_ok hz
  rw [hg,hb]
  exact ⟨hsizes,hentries,by_contra hwhole,hfits,Nat.le_of_not_lt ‹_›,rfl⟩

theorem fatMountFat32_ok {E : Env} {start volumeSize : ℕ} {s t : FatState}
    (h : fatMountFat32 E start volumeSize s = .ok (0,t)) :
    MountedFat32 t.sysbuf.bootSector start volumeSize t.fatfs := by
  obtain ⟨granted,u,-,h⟩ := bind_ok h
  rw [run_ite] at h
  split at h
  swap
  · exact absurd (pure_ok h).1 (by decide)
  obtain ⟨_,v,-,h⟩ := bind_ok h
  obtain ⟨_,w,-,h⟩ := bind_ok h
  rw [bind_of_ok rfl] at h
  simp only [run_ite] at h
  split at h
  · exact absurd (sysUnlock_failed h) (by decide)
  have haccept := ‹¬ _›
  simp only [Bool.or_eq_true,Bool.not_eq_true',decide_eq_true_eq,not_or,Bool.not_eq_false] at haccept
  obtain ⟨⟨hsizes,hentries⟩,hfits⟩ := haccept
  obtain ⟨_,x,hx,h⟩ := bind_ok h
  obtain rfl := setFatfs_ok hx
  obtain ⟨_,z,hz,h⟩ := bind_ok h
  obtain ⟨-,rfl⟩ := pure_ok h
  obtain ⟨hg,hb⟩ := sysUnlock_ok hz
  rw [hg,hb]
  exact ⟨hsizes,by_contra hentries,hfits,rfl⟩

/-- A successful mount is one of the two, on the boot sector that is still in the buffer. -/
theorem fatMount_ok {E : Env} {start volumeSize hint : ℕ} {s t : FatState}
    (h : fatMount E start volumeSize hint s = .ok (0,t)) :
    MountedFat16 t.sysbuf.bootSector start volumeSize t.fatfs ∨
      MountedFat32 t.sysbuf.bootSector start volumeSize t.fatfs := by
  have htwo {first second : Env → ℕ → ℕ → FatM ℤ} (h : (do
      if (← first E start volumeSize) = 0 then pure 0
      else if (← second E start volumeSize) = 0 then pure 0
      else pure (-1) : FatM ℤ) s = .ok (0,t)) :
      ∃ u, first E start volumeSize u = .ok (0,t) ∨ second E start volumeSize u = .ok (0,t) := by
    obtain ⟨r,u,hr,h⟩ := bind_ok h
    rw [run_ite] at h
    split at h
    · obtain ⟨-,rfl⟩ := pure_ok h
      exact ⟨s,.inl (‹r = 0› ▸ hr)⟩
    · obtain ⟨r',v,hr',h⟩ := bind_ok h
      rw [run_ite] at h
      split at h
      · obtain ⟨-,rfl⟩ := pure_ok h
        exact ⟨u,.inr (‹r' = 0› ▸ hr')⟩
      · exact absurd (pure_ok h).1 (by decide)
  by_cases hhint : hint = partTypeFat16
  · simp only [fatMount,if_pos hhint] at h
    obtain ⟨u,hu | hu⟩ := htwo h
    · exact .inl (fatMountFat16_ok hu)
    · exact .inr (fatMountFat32_ok hu)
  · simp only [fatMount,if_neg hhint] at h
    obtain ⟨u,hu | hu⟩ := htwo h
    · exact .inr (fatMountFat32_ok hu)
    · exact .inl (fatMountFat16_ok hu)

/-! ### Bounds on the fields -/

theorem BootSector.sizesOk_iff {b : BootSector} {volumeSize : ℕ} (h : b.sizesOk volumeSize = true) :
    (∃ k ≤ 7, b.clusterSize = 2^k) ∧ 1 ≤ b.reservedSectors ∧ b.reservedSectors < volumeSize ∧
      1 ≤ b.numFats ∧ b.numFats < 15 := by
  simp only [sizesOk,Bool.and_eq_true,decide_eq_true_eq,List.contains_iff_mem,List.mem_map,
    List.mem_range] at h
  obtain ⟨⟨⟨⟨⟨-,k,hk,hsize⟩,h₁⟩,h₂⟩,h₃⟩,h₄⟩ := h
  exact ⟨⟨k,by omega,hsize.symm⟩,h₁,h₂,h₃,h₄⟩

/-! ### The layout fits the volume -/

/-- The layout of the boot sector lies in the volume, and the driver stores it as it is. -/
structure LayoutFits (b : BootSector) (start volumeSize : ℕ) (g : FatInfo) : Prop where
  reserved : start + 1 ≤ start + b.reservedSectors
  fatLen : 1 ≤ b.fatLen g.type
  areas : start + b.overhead g.type ≤ start + volumeSize
  data : start + b.overhead g.type ≤ g.dataStart
  rootCluster : g.type = partTypeFat32 → 2 ≤ b.rootStart ∧
    start + b.overhead g.type + (b.rootStart - 2) * b.clusterSize + b.clusterSize ≤ start + volumeSize
  activeFatStart : g.activeFatStart = start + b.reservedSectors
  sectorsPerFat : g.sectorsPerFat = b.fatLen g.type
  fixedRoot : g.type = partTypeFat16 →
    g.rootStart = start + b.reservedSectors + b.fatLen g.type * b.numFats ∧ g.rootLen = b.rootLen
  dataStart : g.dataStart = start + b.overhead g.type
  root : g.type = partTypeFat32 → g.rootCluster = b.rootStart

/-- The checks `fat_mount` does not make: there is a table, everything in front of the data area fits
the volume, and so does the first cluster of a FAT32 root. -/
structure Roomy (b : BootSector) (volumeSize type : ℕ) : Prop where
  fatLen : b.fatLen type ≠ 0
  overhead : b.overhead type ≤ volumeSize
  rootCluster : type = partTypeFat32 → 2 ≤ b.rootStart ∧
    b.overhead type + (b.rootStart - 1) * b.clusterSize ≤ volumeSize

instance (b : BootSector) (volumeSize type : ℕ) : Decidable (Roomy b volumeSize type) :=
  decidable_of_iff (b.fatLen type ≠ 0 ∧ b.overhead type ≤ volumeSize ∧
      (type = partTypeFat32 → 2 ≤ b.rootStart ∧
        b.overhead type + (b.rootStart - 1) * b.clusterSize ≤ volumeSize))
    ⟨fun h => ⟨h.1,h.2.1,h.2.2⟩,fun h => ⟨h.fatLen,h.overhead,h.rootCluster⟩⟩

theorem rootCluster_sectors {b : BootSector} (h : 2 ≤ b.rootStart) :
    (b.rootStart - 2) * b.clusterSize + b.clusterSize = (b.rootStart - 1) * b.clusterSize := by
  obtain ⟨n,hn⟩ := Nat.exists_eq_add_of_le' h
  rw [hn,Nat.add_sub_cancel,show n + 2 - 1 = n + 1 by omega,Nat.succ_mul]

theorem LayoutFits.roomy {b : BootSector} {start volumeSize : ℕ} {g : FatInfo}
    (h : LayoutFits b start volumeSize g) : Roomy b volumeSize g.type where
  fatLen := Nat.one_le_iff_ne_zero.1 h.fatLen
  overhead := by
    have := h.areas
    omega
  rootCluster hg := by
    obtain ⟨h₂,hfit⟩ := h.rootCluster hg
    rw [Nat.add_assoc,rootCluster_sectors h₂] at hfit
    exact ⟨h₂,by omega⟩

/-- The stored fields of a FAT16 volume, as far as nothing wraps around. -/
theorem MountedFat16.layoutFits {b : Sector} {start volumeSize : ℕ} {g : FatInfo}
    (h : MountedFat16 b.bootSector start volumeSize g) (hroomy : Roomy b.bootSector volumeSize g.type)
    (hrange : start + volumeSize < 2^32) : LayoutFits b.bootSector start volumeSize g := by
  obtain ⟨⟨k,hk,hspc⟩,hres,-,-,-⟩ := BootSector.sizesOk_iff h.sizes
  obtain ⟨hlen,hover,-⟩ := hroomy
  have hg := h.geometry
  have htype : g.type = partTypeFat16 := congrArg FatInfo.type hg
  have hfat := congrArg FatInfo.activeFatStart hg
  have hspf := congrArg FatInfo.sectorsPerFat hg
  have hroot := congrArg FatInfo.rootStart hg
  have hrootLen := congrArg FatInfo.rootLen hg
  have hc₀ := congrArg FatInfo.cluster0 hg
  have hcl := congrArg FatInfo.sectorsPerCluster hg
  simp only [BootSector.geometry16] at hfat hspf hroot hrootLen hc₀ hcl
  have hpow : 2^k ≤ 2^7 := Nat.pow_le_pow_right (by decide) hk
  rw [htype] at hlen hover
  simp only [BootSector.overhead,BootSector.fatLen,if_pos,BootSector.rootLen] at hover hlen
  generalize hn : b.bootSector.shortSectorsPerFat * b.bootSector.numFats = area at *
  have hfat' : g.activeFatStart = start + b.bootSector.reservedSectors := by
    rw [hfat]
    exact u32_of_lt (by omega)
  rw [u32_of_lt (show start + b.bootSector.reservedSectors < 2^32 by omega)] at hroot hc₀
  have hroot' : g.rootStart = start + b.bootSector.reservedSectors + area := by
    rw [hroot]
    exact u32_of_lt (by omega)
  rw [u32_of_lt (show start + b.bootSector.reservedSectors + area < 2^32 by omega)] at hc₀
  have hdata : g.dataStart = start + (b.bootSector.reservedSectors + area +
      b.bootSector.rootEntries * 32 / 512) := by
    rw [FatInfo.dataStart,hc₀,hcl]
    unfold u32
    omega
  have hover' : start + b.bootSector.overhead g.type = start + (b.bootSector.reservedSectors + area +
      b.bootSector.rootEntries * 32 / 512) := by
    rw [htype,BootSector.overhead,BootSector.fatLen,if_pos rfl,hn,BootSector.rootLen]
  refine ⟨by omega,?_,by omega,by omega,fun h32 => ?_,hfat',?_,fun _ => ⟨?_,hrootLen⟩,by omega,fun h32 => ?_⟩
  · rw [htype,BootSector.fatLen,if_pos rfl]
    omega
  · exact absurd (htype.symm.trans h32) (by decide)
  · rw [hspf,htype,BootSector.fatLen,if_pos rfl]
  · rw [hroot',htype,BootSector.fatLen,if_pos rfl,hn]
  · exact absurd (htype.symm.trans h32) (by decide)

/-- The stored fields of a FAT32 volume, as far as nothing wraps around. -/
theorem MountedFat32.layoutFits {b : Sector} {start volumeSize : ℕ} {g : FatInfo}
    (h : MountedFat32 b.bootSector start volumeSize g) (hroomy : Roomy b.bootSector volumeSize g.type)
    (hrange : start + volumeSize < 2^32) : LayoutFits b.bootSector start volumeSize g := by
  obtain ⟨⟨k,hk,hspc⟩,hres,-,-,-⟩ := BootSector.sizesOk_iff h.sizes
  obtain ⟨hlen,hover,hcluster⟩ := hroomy
  have hg := h.geometry
  have htype : g.type = partTypeFat32 := congrArg FatInfo.type hg
  have hne : ¬ partTypeFat32 = partTypeFat16 := by decide
  have hfat := congrArg FatInfo.activeFatStart hg
  have hspf := congrArg FatInfo.sectorsPerFat hg
  have hroot := congrArg FatInfo.rootCluster hg
  have hc₀ := congrArg FatInfo.cluster0 hg
  have hcl := congrArg FatInfo.sectorsPerCluster hg
  simp only [BootSector.geometry32] at hfat hspf hroot hc₀ hcl
  have hpow : 2^k ≤ 2^7 := Nat.pow_le_pow_right (by decide) hk
  obtain ⟨h₂,hfit⟩ := hcluster htype
  have hsectors := rootCluster_sectors h₂
  have hover' : b.bootSector.overhead g.type =
      b.bootSector.reservedSectors + b.bootSector.longSectorsPerFat * b.bootSector.numFats := by
    rw [htype,BootSector.overhead,BootSector.fatLen,if_neg hne,BootSector.rootLen,h.entries,
      Nat.zero_mul,Nat.zero_div,Nat.add_zero]
  rw [hover'] at hover hfit
  generalize hn : b.bootSector.longSectorsPerFat * b.bootSector.numFats = area at *
  rw [u32_of_lt (show start + b.bootSector.reservedSectors < 2^32 by omega)] at hfat hc₀
  rw [u32_of_lt (show area < 2^32 by omega),
    u32_of_lt (show start + b.bootSector.reservedSectors + area < 2^32 by omega)] at hc₀
  have hdata : g.dataStart = start + (b.bootSector.reservedSectors + area) := by
    rw [FatInfo.dataStart,hc₀,hcl]
    unfold u32
    omega
  refine ⟨by omega,Nat.one_le_iff_ne_zero.2 hlen,by omega,by omega,fun _ => ⟨h₂,?_⟩,hfat,?_,
    fun h16 => ?_,by omega,fun _ => hroot⟩
  · rw [hover',Nat.add_assoc,hsectors]
    omega
  · rw [hspf,htype,BootSector.fatLen,if_neg hne]
  · exact absurd (htype.symm.trans h16) (by decide)

/-- An accepted boot sector describes a layout that fits the volume, and the stored fields are the
described ones, exactly when it would pass the checks that are missing. -/
theorem mounted_layoutFits_iff {E : Env} {start volumeSize hint : ℕ} {s t : FatState}
    (h : fatMount E start volumeSize hint s = .ok (0,t)) (hrange : start + volumeSize < 2^32) :
    LayoutFits t.sysbuf.bootSector start volumeSize t.fatfs ↔
      Roomy t.sysbuf.bootSector volumeSize t.fatfs.type := by
  refine ⟨LayoutFits.roomy,fun hroomy => ?_⟩
  rcases fatMount_ok h with h | h
  · exact h.layoutFits hroomy hrange
  · exact h.layoutFits hroomy hrange

/-- The boot sector of a FAT16 volume of `total` sectors with `fatLen` sectors of table. -/
def bootFat16 (fatLen total : UInt8) : Sector := Sector.ofBytes
  [0xEB,0x3C,0x90,0,0,0,0,0,0,0,0,0,2,1,1,0,1,16,0,total,0,0xF8,fatLen,0]

/-- A device with this boot sector, one block of table and nothing else. -/
def bootedFat16 (fatLen total : UInt8) (table : Sector) : FatState :=
  .mounted smallFat16 300 fun b => if b = 0 then bootFat16 fatLen total else if b = 1 then table else .zero

/-- A boot sector with one block of table passes all checks. -/
theorem mounted_layoutFits_one : ∃ t,
    fatMount (.calm (fun _ => 0) 8) 0 300 partTypeFat16 (bootedFat16 1 200 .zero) = .ok (0,t) ∧
      LayoutFits t.sysbuf.bootSector 0 300 t.fatfs := by
  have hrun : Prog.test (fatMount (.calm (fun _ => 0) 8) 0 300 partTypeFat16) (bootedFat16 1 200 .zero)
      (fun r t => r == 0 && decide (Roomy t.sysbuf.bootSector 300 t.fatfs.type)) = true := by
    decide +kernel
  obtain ⟨r,t,hx,hp⟩ := ok_of_test hrun
  simp only [Bool.and_eq_true,beq_iff_eq,decide_eq_true_eq] at hp
  obtain ⟨rfl,hroomy⟩ := hp
  exact ⟨t,hx,(mounted_layoutFits_iff hx (by decide)).2 hroomy⟩

/-- A boot sector without a table is accepted. -/
theorem mounts_without_table : ∃ t,
    fatMount (.calm (fun _ => 0) 8) 0 300 partTypeFat16 (bootedFat16 0 200 .zero) = .ok (0,t) ∧
      ¬ LayoutFits t.sysbuf.bootSector 0 300 t.fatfs := by
  have hrun : Prog.test (fatMount (.calm (fun _ => 0) 8) 0 300 partTypeFat16) (bootedFat16 0 200 .zero)
      (fun r t => r == 0 && t.sysbuf.bootSector.fatLen t.fatfs.type == 0) = true := by
    decide +kernel
  obtain ⟨r,t,hx,hp⟩ := ok_of_test hrun
  simp only [Bool.and_eq_true,beq_iff_eq] at hp
  obtain ⟨rfl,hlen⟩ := hp
  refine ⟨t,hx,fun h => ?_⟩
  have := h.fatLen
  omega

/-! ### The clusters the allocator hands out -/

/-- Entry `k` of the table that begins at block `activeFatStart`. -/
def FatInfo.tableEntry (g : FatInfo) (B : ℕ → Sector) (k : ℕ) : ℕ :=
  g.entryAt (B (g.activeFatStart + k / g.perBlock)) (k % g.perBlock * g.fatEntryLen)

/-- The first entry of the table that is zero. -/
structure FatInfo.FirstFree (g : FatInfo) (B : ℕ → Sector) (k : ℕ) : Prop where
  inTable : k < g.entries
  free : g.tableEntry B k = 0
  first : ∀ i < k, g.tableEntry B i ≠ 0

theorem FatInfo.FirstFree.unique {g : FatInfo} {B : ℕ → Sector} {k l : ℕ} (h : g.FirstFree B k)
    (h' : g.FirstFree B l) : k = l := by
  rcases Nat.lt_trichotomy k l with hlt | heq | hlt
  · exact absurd h.free (h'.first k hlt)
  · exact heq
  · exact absurd h'.free (h.first l hlt)

theorem readSysbuf_result {E : Env} {b : ℕ} {s t : FatState} {failed : Bool}
    (h : readSysbuf E b s = .ok (failed,t)) : t.fatfs = s.fatfs ∧ t.dev.blocks = s.dev.blocks ∧
      (failed = false → t.sysbuf = s.dev.blocks b) := by
  obtain ⟨o,u,hu,h⟩ := bind_ok h
  obtain ⟨d,hd,rfl⟩ := onDevice_ok hu
  simp only [Device.blockRead,Except.ok.injEq,Prod.mk.injEq] at hd
  obtain ⟨ho,rfl⟩ := hd
  split at ho
  · subst ho
    obtain ⟨rfl,rfl⟩ := pure_ok h
    exact ⟨rfl,rfl,by simp⟩
  · subst ho
    obtain ⟨a,v,hv,h⟩ := bind_ok h
    obtain ⟨-,rfl⟩ := pure_ok h
    simp only [setSysbuf,Prog.modify_apply,Except.ok.injEq,Prod.mk.injEq] at hv
    rw [← hv.2]
    exact ⟨rfl,rfl,fun _ => rfl⟩

theorem tableEntry_add (g : FatInfo) (B : ℕ → Sector) {m j : ℕ} (hj : j < g.perBlock) :
    g.tableEntry B (m * g.perBlock + j) = g.entryAt (B (g.activeFatStart + m)) (j * g.fatEntryLen) := by
  have hpos : 0 < g.perBlock := by omega
  rw [FatInfo.tableEntry,Nat.mul_comm m,Nat.mul_add_div hpos,Nat.mul_add_mod,Nat.div_eq_of_lt hj,
    Nat.mod_eq_of_lt hj,Nat.add_zero]

/-- Whatever transfers fail, the search ends with one of its two error values or with the first free
entry, as a 32-bit number. -/
theorem freeClusterLoop_result {E : Env} {n m c : ℕ} {s t : FatState}
    (h : freeClusterLoop E n (s.fatfs.activeFatStart + m) s = .ok (c,t))
    (hm : m + n ≤ s.fatfs.sectorsPerFat)
    (hused : ∀ i < m * s.fatfs.perBlock, s.fatfs.tableEntry s.dev.blocks i ≠ 0) :
    c = 0 ∨ c = 0xFFFFFFFF ∨ ∃ k, s.fatfs.FirstFree s.dev.blocks k ∧ c = u32 k := by
  induction n generalizing s m with
  | zero =>
    obtain ⟨_,u,-,h⟩ := bind_ok h
    exact .inl (pure_ok h).1
  | succ n ih =>
    obtain ⟨failed,u,hu,h⟩ := bind_ok h
    obtain ⟨hg,hb,hbuf⟩ := readSysbuf_result hu
    rw [run_ite] at h
    split at h
    · exact .inr (.inl (pure_ok h).1)
    have hbuf := hbuf (Bool.eq_false_iff.2 ‹_›)
    rw [bind_of_ok rfl,bind_of_ok rfl,hg,hbuf] at h
    cases hfind : s.fatfs.freeIndex (s.dev.blocks (s.fatfs.activeFatStart + m)) s.fatfs.perBlock 0 with
    | none =>
      simp only [hfind] at h
      have hnone := FatInfo.freeIndex_none hfind
      have hloop := @ih (m+1) u (by rw [hg]; exact h) (by rw [hg]; omega) (by
        rw [hg,hb]
        intro i hi
        by_cases hlt : i < m * s.fatfs.perBlock
        · exact hused i hlt
        · obtain ⟨j,rfl⟩ := Nat.exists_eq_add_of_le (Nat.le_of_not_lt hlt)
          rw [Nat.succ_mul] at hi
          rw [tableEntry_add _ _ (by omega)]
          exact hnone j (Nat.zero_le j) (by omega))
      rwa [hg,hb] at hloop
    | some j =>
      obtain ⟨-,hj,hzero,hleast⟩ := FatInfo.freeIndex_some hfind
      rw [Nat.zero_add] at hj
      have hblock := Nat.mul_le_mul (show m + 1 ≤ s.fatfs.sectorsPerFat by omega)
        (Nat.le_refl s.fatfs.perBlock)
      rw [Nat.succ_mul] at hblock
      simp only [hfind] at h
      obtain ⟨_,v,-,h⟩ := bind_ok h
      obtain ⟨_,w,-,h⟩ := bind_ok h
      obtain ⟨_,x,-,h⟩ := bind_ok h
      obtain ⟨_,y,-,h⟩ := bind_ok h
      rw [run_ite] at h
      split at h
      · obtain ⟨_,z,-,h⟩ := bind_ok h
        exact .inr (.inl (pure_ok h).1)
      · obtain ⟨_,z,-,h⟩ := bind_ok h
        obtain ⟨rfl,-⟩ := pure_ok h
        rw [Nat.add_sub_cancel_left]
        refine .inr (.inr ⟨_,⟨?_,by rw [tableEntry_add _ _ hj,hzero],fun i hi => ?_⟩,rfl⟩)
        · unfold FatInfo.entries
          omega
        · by_cases hlt : i < m * s.fatfs.perBlock
          · exact hused i hlt
          · obtain ⟨j',rfl⟩ := Nat.exists_eq_add_of_le (Nat.le_of_not_lt hlt)
            rw [tableEntry_add _ _ (by omega)]
            exact hleast j' (Nat.zero_le j') (by omega)

theorem fatGetFreeCluster_result {E : Env} {c : ℕ} {s t : FatState}
    (h : fatGetFreeCluster E s = .ok (c,t)) :
    c = 0 ∨ c = 0xFFFFFFFF ∨ ∃ k, s.fatfs.FirstFree s.dev.blocks k ∧ c = u32 k := by
  rw [fatGetFreeCluster,bind_of_ok rfl] at h
  obtain ⟨granted,u,hu,h⟩ := bind_ok h
  have htab := sysLock_sameTable E _ _ _ hu
  have hblocks : u.dev.blocks = s.dev.blocks := by
    obtain ⟨d,hd,rfl⟩ := onDevice_ok hu
    simp only [Device.sysLock] at hd
    split at hd <;> simp only [Except.ok.injEq,Prod.mk.injEq] at hd <;> rw [← hd.2]
  obtain ⟨r,v,hv,h⟩ := bind_ok h
  obtain ⟨_,w,-,h⟩ := bind_ok h
  obtain ⟨rfl,-⟩ := pure_ok h
  rw [run_ite] at hv
  split at hv
  swap
  · exact .inl (pure_ok hv).1
  have hn : u32 (s.fatfs.activeFatStart + s.fatfs.sectorsPerFat) - s.fatfs.activeFatStart ≤
      s.fatfs.sectorsPerFat := by
    have : u32 (s.fatfs.activeFatStart + s.fatfs.sectorsPerFat) ≤ _ := Nat.mod_le _ _
    omega
  rw [← htab.fatfs] at hn hv
  have hloop := @freeClusterLoop_result E _ 0 _ _ _ hv (by rwa [Nat.zero_add]) (by simp)
  rwa [htab.fatfs,hblocks] at hloop

/-- Both mount functions put cluster 2 behind everything else, modulo the width of a block number. -/
theorem mounted_dataStart {b : Sector} {start volumeSize : ℕ} {g : FatInfo}
    (h : MountedFat16 b.bootSector start volumeSize g ∨ MountedFat32 b.bootSector start volumeSize g) :
    g.dataStart = u32 (start + b.bootSector.overhead g.type) ∧
      g.sectorsPerCluster = b.bootSector.clusterSize ∧ 0 < g.sectorsPerCluster := by
  rcases h with h | h
  · obtain ⟨⟨k,hk,hspc⟩,-⟩ := BootSector.sizesOk_iff h.sizes
    have hpow : 2^k ≤ 2^7 := Nat.pow_le_pow_right (by decide) hk
    have hpos := Nat.two_pow_pos k
    have hg := h.geometry
    have htype : g.type = partTypeFat16 := congrArg FatInfo.type hg
    have hc₀ := congrArg FatInfo.cluster0 hg
    have hcl := congrArg FatInfo.sectorsPerCluster hg
    simp only [BootSector.geometry16] at hc₀ hcl
    refine ⟨?_,hcl,by omega⟩
    rw [FatInfo.dataStart,htype,BootSector.overhead,BootSector.fatLen,if_pos rfl,BootSector.rootLen,
      hc₀,hcl]
    generalize b.bootSector.shortSectorsPerFat * b.bootSector.numFats = area
    unfold u32
    omega
  · obtain ⟨⟨k,hk,hspc⟩,-⟩ := BootSector.sizesOk_iff h.sizes
    have hpow : 2^k ≤ 2^7 := Nat.pow_le_pow_right (by decide) hk
    have hpos := Nat.two_pow_pos k
    have hg := h.geometry
    have htype : g.type = partTypeFat32 := congrArg FatInfo.type hg
    have hc₀ := congrArg FatInfo.cluster0 hg
    have hcl := congrArg FatInfo.sectorsPerCluster hg
    simp only [BootSector.geometry32] at hc₀ hcl
    refine ⟨?_,hcl,by omega⟩
    rw [FatInfo.dataStart,htype,BootSector.overhead,BootSector.fatLen,if_neg (by decide),
      BootSector.rootLen,h.entries,hc₀,hcl]
    generalize b.bootSector.longSectorsPerFat * b.bootSector.numFats = area
    unfold u32
    omega

/-- The first sector of a cluster of the data area. -/
theorem mounted_firstSector {b : Sector} {start volumeSize c : ℕ} {g : FatInfo}
    (h : MountedFat16 b.bootSector start volumeSize g ∨ MountedFat32 b.bootSector start volumeSize g)
    (hc : 2 ≤ c)
    (hlt : start + b.bootSector.overhead g.type + (c-2) * b.bootSector.clusterSize < 2^32) :
    g.firstSector c = start + b.bootSector.overhead g.type + (c-2) * b.bootSector.clusterSize := by
  obtain ⟨hdata,hcl,-⟩ := mounted_dataStart h
  obtain ⟨c,rfl⟩ := Nat.exists_eq_add_of_le' hc
  rw [Nat.add_sub_cancel] at hlt ⊢
  rw [u32_of_lt (by omega),FatInfo.dataStart,hcl] at hdata
  rw [FatInfo.firstSector,hcl,Nat.add_mul]
  generalize c * b.bootSector.clusterSize = x at *
  unfold u32 at hdata ⊢
  omega

/-- Cluster `c` is one of the `clusters` of the partition, and its sectors lie there. -/
structure InPartition (b : BootSector) (start : ℕ) (g : FatInfo) (c : ℕ) : Prop where
  number : 2 ≤ c ∧ c ≤ b.clusters g.type + 1
  sectors : ∀ j < g.sectorsPerCluster, start ≤ u32 (c * g.sectorsPerCluster + g.cluster0) + j ∧
    u32 (c * g.sectorsPerCluster + g.cluster0) + j < start + b.total

/-- A cluster the allocator hands out lies in the partition exactly when the first free entry of the
table stands for one of the partition's clusters. -/
theorem allocated_inPartition_iff {E E' : Env} {start volumeSize hint c : ℕ} {s t u v : FatState}
    (hmount : fatMount E start volumeSize hint s = .ok (0,t))
    (harea : t.sysbuf.bootSector.overhead t.fatfs.type ≤ t.sysbuf.bootSector.total)
    (hrange : start + t.sysbuf.bootSector.total ≤ 2^32) (hstate : u.fatfs = t.fatfs)
    (hrun : fatGetFreeCluster E' u = .ok (c,v)) (hc : c ≠ 0) (herror : c ≠ 0xFFFFFFFF) :
    InPartition t.sysbuf.bootSector start t.fatfs c ↔ ∃ k, u.fatfs.FirstFree u.dev.blocks k ∧
      2 ≤ u32 k ∧ u32 k ≤ t.sysbuf.bootSector.clusters t.fatfs.type + 1 := by
  obtain ⟨k,hk,rfl⟩ := ((fatGetFreeCluster_result hrun).resolve_left hc).resolve_left herror
  constructor
  · intro h
    exact ⟨k,hk,h.number⟩
  · rintro ⟨l,hl,hnumber⟩
    obtain rfl := hl.unique hk
    have hm := fatMount_ok hmount
    obtain ⟨-,hcl,hpos⟩ := mounted_dataStart hm
    have hle : (u32 l - 2 + 1) * t.sysbuf.bootSector.clusterSize ≤
        t.sysbuf.bootSector.total - t.sysbuf.bootSector.overhead t.fatfs.type := by
      refine Nat.le_trans (Nat.mul_le_mul_right _ ?_) (Nat.div_mul_le_self _ t.sysbuf.bootSector.clusterSize)
      have h₂ := hnumber.2
      unfold BootSector.clusters at h₂
      omega
    rw [Nat.succ_mul] at hle
    rw [hcl] at hpos
    have hfirst := mounted_firstSector hm hnumber.1 (by omega)
    rw [FatInfo.firstSector] at hfirst
    refine ⟨hnumber,fun j hj => ?_⟩
    rw [hfirst]
    rw [hcl] at hj
    omega

/-- A table whose entries below `k` are in use. -/
def usedFat16 (k : ℕ) : Sector := Sector.ofBytes (List.replicate (2*k) 0xFF)

/-- With cluster 2 free, cluster 2 is handed out. -/
theorem allocated_inPartition_two : ∃ t v,
    fatMount (.calm (fun _ => 0) 8) 0 300 partTypeFat16 (bootedFat16 1 200 (usedFat16 2)) = .ok (0,t) ∧
      fatGetFreeCluster (.calm (fun _ => 0) 8) t = .ok (2,v) ∧
      InPartition t.sysbuf.bootSector 0 t.fatfs 2 := by
  have hrun : Prog.test (do
      let r ← fatMount (.calm (fun _ => 0) 8) 0 300 partTypeFat16
      let t ← get
      let c ← fatGetFreeCluster (.calm (fun _ => 0) 8)
      pure (r,t,c)) (bootedFat16 1 200 (usedFat16 2)) (fun a _ => a.1 == 0 && a.2.2 == 2 &&
        decide (a.2.1.sysbuf.bootSector.overhead a.2.1.fatfs.type ≤ a.2.1.sysbuf.bootSector.total) &&
        decide (0 + a.2.1.sysbuf.bootSector.total ≤ 2^32) &&
        a.2.1.sysbuf.bootSector.clusters a.2.1.fatfs.type == 197) = true := by
    decide +kernel
  obtain ⟨a,w,hx,hp⟩ := ok_of_test hrun
  obtain ⟨r,t,hmount,hx⟩ := bind_ok hx
  rw [bind_of_ok rfl] at hx
  obtain ⟨c,v,hc,hx⟩ := bind_ok hx
  obtain ⟨rfl,rfl⟩ := pure_ok hx
  simp only [Bool.and_eq_true,beq_iff_eq,decide_eq_true_eq] at hp
  obtain ⟨⟨⟨⟨rfl,rfl⟩,harea⟩,hrange⟩,hn⟩ := hp
  obtain ⟨k,hk,hu⟩ := ((fatGetFreeCluster_result hc).resolve_left (by decide)).resolve_left (by decide)
  refine ⟨t,_,hmount,hc,(allocated_inPartition_iff hmount harea hrange rfl hc (by decide)
    (by decide)).2 ⟨k,hk,?_,?_⟩⟩
  · omega
  · omega

/-- The table may have more entries than the partition has clusters. -/
theorem allocates_outside_partition : ∃ t v,
    fatMount (.calm (fun _ => 0) 8) 0 300 partTypeFat16 (bootedFat16 1 10 (usedFat16 9)) = .ok (0,t) ∧
      t.sysbuf.bootSector.overhead t.fatfs.type ≤ t.sysbuf.bootSector.total ∧
      t.sysbuf.bootSector.clusters t.fatfs.type + 2 ≤ t.fatfs.entries ∧
      t.fatfs.tableEntry t.dev.blocks 0 ≠ 0 ∧ t.fatfs.tableEntry t.dev.blocks 1 ≠ 0 ∧
      fatGetFreeCluster (.calm (fun _ => 0) 8) t = .ok (9,v) ∧
      ¬ InPartition t.sysbuf.bootSector 0 t.fatfs 9 := by
  have hrun : Prog.test (do
      let r ← fatMount (.calm (fun _ => 0) 8) 0 300 partTypeFat16
      let t ← get
      let c ← fatGetFreeCluster (.calm (fun _ => 0) 8)
      pure (r,t,c)) (bootedFat16 1 10 (usedFat16 9)) (fun a _ => a.1 == 0 && a.2.2 == 9 &&
        decide (a.2.1.sysbuf.bootSector.overhead a.2.1.fatfs.type ≤ a.2.1.sysbuf.bootSector.total) &&
        a.2.1.sysbuf.bootSector.clusters a.2.1.fatfs.type == 7 && a.2.1.fatfs.entries == 256 &&
        a.2.1.fatfs.tableEntry a.2.1.dev.blocks 0 != 0 &&
        a.2.1.fatfs.tableEntry a.2.1.dev.blocks 1 != 0) = true := by
    decide +kernel
  obtain ⟨a,w,hx,hp⟩ := ok_of_test hrun
  obtain ⟨r,t,hmount,hx⟩ := bind_ok hx
  rw [bind_of_ok rfl] at hx
  obtain ⟨c,v,hc,hx⟩ := bind_ok hx
  obtain ⟨rfl,rfl⟩ := pure_ok hx
  simp only [Bool.and_eq_true,beq_iff_eq,bne_iff_ne,decide_eq_true_eq] at hp
  obtain ⟨⟨⟨⟨⟨⟨rfl,rfl⟩,harea⟩,hn⟩,hentries⟩,h₀⟩,h₁⟩ := hp
  refine ⟨t,_,hmount,harea,by omega,h₀,h₁,hc,fun h => ?_⟩
  have := h.number.2
  omega

end Gristle
