import Gristle.Layout
import Gristle.ScanEnds

/-! The fixed root of a FAT16 volume: the sectors a descriptor loads that walks it. -/
namespace Gristle
open Prog

/-- The sectors the next calls of `fat_next_sector` load, up to the first that fails. -/
inductive NextLoads (E : Env) (fd : Fd) : FatState → List ℕ → Prop
  | stop {s t : FatState} : fatNextSector E fd s = .ok (true,t) → NextLoads E fd s []
  | load {s t : FatState} {bs : List ℕ} : fatNextSector E fd s = .ok (false,t) → NextLoads E fd t bs →
      NextLoads E fd s ((t.fileNum fd).sector :: bs)

theorem nextLoads_of_stop {E : Env} {fd : Fd} {s t : FatState} {bs : List ℕ}
    (hrun : fatNextSector E fd s = .ok (true,t)) : NextLoads E fd s bs ↔ bs = [] := by
  constructor
  · intro h
    cases h with
    | stop => rfl
    | load h => simp [hrun] at h
  · rintro rfl
    exact .stop hrun

theorem nextLoads_of_load {E : Env} {fd : Fd} {s t : FatState} {bs : List ℕ}
    (hrun : fatNextSector E fd s = .ok (false,t)) :
    NextLoads E fd s bs ↔ ∃ cs, NextLoads E fd t cs ∧ bs = (t.fileNum fd).sector :: cs := by
  constructor
  · intro h
    cases h with
    | stop h => simp [hrun] at h
    | load h hrest =>
      obtain ⟨-,rfl⟩ := Prod.mk.inj (Except.ok.inj (hrun.symm.trans h))
      exact ⟨_,hrest,rfl⟩
  · rintro ⟨cs,h,rfl⟩
    exact .load hrun h

/-- The sectors loaded from the start of the fixed root on. -/
def RootLoads (E : Env) (fd : Fd) (s : FatState) (bs : List ℕ) : Prop :=
  ∃ failed t cs, fatSelectCluster E fd 1 s = .ok (failed,t) ∧ NextLoads E fd t cs ∧
    bs = if failed then cs else (t.fileNum fd).sector :: cs

/-- The root of a mounted FAT16 volume has a sector. -/
theorem mounted_rootLen {E : Env} {start volumeSize hint : ℕ} {s t : FatState}
    (h : fatMount E start volumeSize hint s = .ok (0,t)) (h16 : t.fatfs.type = partTypeFat16) :
    0 < t.fatfs.rootLen := by
  rcases fatMount_ok h with hm | hm
  · have hlen : t.fatfs.rootLen = t.sysbuf.bootSector.rootEntries * 32 / 512 := by
      rw [hm.geometry]
      rfl
    have hentries := hm.entries
    have hwhole := hm.whole
    omega
  · rw [hm.geometry] at h16
    exact absurd h16 (by change ¬ partTypeFat32 = partTypeFat16; decide)

section NoFault
variable {E : Env} (hE : E.NoFault) {fd : Fd} {s : FatState} {g : FatInfo} {B : ℕ → Sector} {size : ℕ}
include hE

/-- `fat_next_sector` in the fixed root. -/
theorem fatNextSector_root (hs : s.On g B size) (hclean : (s.fileNum fd).flags.dirty = false)
    (hroot : (s.fileNum fd).cluster = 1) :
    (fatNextSector E fd).Returns s fun failed t => t.On g B size ∧
      (t.fileNum fd).flags.dirty = false ∧ (t.fileNum fd).cluster = 1 ∧
      if 0 < (s.fileNum fd).sectorsLeft then
        (t.fileNum fd).sector = u32 ((s.fileNum fd).sector + 1) ∧
          (t.fileNum fd).sectorsLeft = (s.fileNum fd).sectorsLeft - 1 ∧
          failed = decide (size ≤ u32 ((s.fileNum fd).sector + 1))
      else failed = true := by
  refine returns_bind_of_ok (fatFlushWith_clean hclean) (returns_ite (by simp) fun _ => returns_file ?_)
  refine returns_ite (fun hleft => ?_) fun hleft => ?_
  · refine (updateFile_returns fd _ s).bind fun _ t ht => returns_file ?_
    rw [ht.file]
    refine (readBuffer_any hE (hs.after ht) _).mono fun failed u hu => ?_
    obtain ⟨rfl,hu⟩ := hu
    refine ⟨(hs.after ht).after hu,?_⟩
    rw [if_pos hleft,hu.file,ht.file]
    exact ⟨hclean,hroot,rfl,rfl,rfl⟩
  · have hend : fatNextClusterWith (fatFlushFileinfo E) E fd s =
        .ok ((-1,0),s.setFile fd { s.fileNum fd with error := fatEndOfFile }) := by
      rw [fatNextClusterWith,bind_of_ok (fatFlushWith_clean hclean),run_ite,if_neg (by simp),
        bind_of_ok rfl,bind_of_ok rfl,run_ite,if_pos hroot]
      rfl
    refine returns_bind_of_ok hend (returns_ite (fun h => absurd h (by decide)) fun _ => returns_pure ?_)
    have hset := updateFile_after fd (fun f => { f with error := fatEndOfFile }) s
    refine ⟨hs.after hset,?_⟩
    rw [if_neg hleft,hset.file]
    exact ⟨hclean,hroot,rfl⟩

/-- Every sector loaded lies on the device. -/
theorem nextLoads_lt {bs : List ℕ} (h : NextLoads E fd s bs) (hs : s.On g B size)
    (hclean : (s.fileNum fd).flags.dirty = false) (hroot : (s.fileNum fd).cluster = 1) :
    ∀ b ∈ bs, b < size := by
  induction h with
  | stop => simp
  | @load s t bs hrun hrest ih =>
    obtain ⟨ht,hclean',hroot',hstep⟩ := (fatNextSector_root hE hs hclean hroot).of_ok hrun
    split at hstep
    · obtain ⟨hsector,-,hin⟩ := hstep
      intro b hb
      rcases List.mem_cons.1 hb with rfl | hb
      · rw [hsector]
        simpa using hin.symm
      · exact ih ht hclean' hroot' b hb
    · simp at hstep

/-- From a sector of the device on, the sectors that are left are loaded as far as the device goes. -/
theorem nextLoads_iff {b n : ℕ} {bs : List ℕ} (hsize : size ≤ maxBlock) (hb : b < size) (hs : s.On g B size)
    (hclean : (s.fileNum fd).flags.dirty = false) (hroot : (s.fileNum fd).cluster = 1)
    (hsector : (s.fileNum fd).sector = b) (hleft : (s.fileNum fd).sectorsLeft = n) :
    NextLoads E fd s bs ↔ bs = List.range' (b+1) (min n (size - (b+1))) := by
  induction n generalizing s b bs with
  | zero =>
    obtain ⟨failed,t,hrun,-,-,-,hstep⟩ := fatNextSector_root hE hs hclean hroot
    rw [if_neg (by omega)] at hstep
    subst hstep
    rw [nextLoads_of_stop hrun,Nat.zero_min]
    rfl
  | succ n ih =>
    obtain ⟨failed,t,hrun,ht,hclean',hroot',hstep⟩ := fatNextSector_root hE hs hclean hroot
    have hmax : size ≤ 2^32 - 1 := hsize
    rw [if_pos (by omega),hsector,u32_of_lt (by omega),hleft] at hstep
    obtain ⟨hsector',hleft',rfl⟩ := hstep
    by_cases hin : b + 1 < size
    · have hmin : min (n+1) (size - (b+1)) = min n (size - (b+1+1)) + 1 := by omega
      rw [decide_eq_false (Nat.not_le_of_lt hin)] at hrun
      rw [nextLoads_of_load hrun,hmin,List.range'_succ,hsector']
      simp only [@ih t (b+1) _ hin ht hclean' hroot' hsector' hleft',exists_eq_left]
    · rw [decide_eq_true (Nat.le_of_not_lt hin)] at hrun
      rw [nextLoads_of_stop hrun,show size - (b+1) = 0 by omega,Nat.min_zero]
      rfl

/-- The walk of the root on a device that has its first sector. -/
theorem rootLoads_iff {bs : List ℕ} (hsize : size ≤ maxBlock) (hstart : g.rootStart < size)
    (hs : s.On g B size) (hclean : (s.fileNum fd).flags.dirty = false) :
    RootLoads E fd s bs ↔
      bs = List.range' g.rootStart (min (u8 g.rootLen + 1) (size - g.rootStart)) := by
  obtain ⟨failed,t,hrun,rfl,ha,hmoved,hplace⟩ := @fatSelectCluster_any E hE fd s _ _ _ hs 1
  have hsector : (t.fileNum fd).sector = g.rootStart := congrArg Place.sector hplace
  have hleft : (t.fileNum fd).sectorsLeft = u8 g.rootLen := congrArg Place.sectorsLeft hplace
  have hcluster : (t.fileNum fd).cluster = 1 := congrArg Place.cluster hplace
  rw [show (Place.turn g B size 1 (s.fileNum fd).place).sector = g.rootStart from rfl,
    decide_eq_false (Nat.not_le_of_lt hstart)] at hrun
  have hnext (cs : List ℕ) := @nextLoads_iff E hE fd t g B size g.rootStart _ cs hsize hstart (hs.after ha)
    (by rw [hmoved.flags]; exact hclean) hcluster hsector hleft
  have hmin : min (u8 g.rootLen + 1) (size - g.rootStart) =
      min (u8 g.rootLen) (size - (g.rootStart + 1)) + 1 := by omega
  rw [hmin,List.range'_succ]
  constructor
  · rintro ⟨failed,u,cs,hu,hcs,rfl⟩
    obtain ⟨rfl,rfl⟩ := Prod.mk.inj (Except.ok.inj (hrun.symm.trans hu))
    rw [(hnext cs).1 hcs,hsector]
    rfl
  · rintro rfl
    exact ⟨false,t,_,hrun,(hnext _).2 rfl,by rw [hsector]; rfl⟩

/-- Every sector loaded in the walk lies on the device. -/
theorem rootLoads_lt {bs : List ℕ} (h : RootLoads E fd s bs) (hs : s.On g B size)
    (hclean : (s.fileNum fd).flags.dirty = false) : ∀ b ∈ bs, b < size := by
  obtain ⟨failed,t,cs,hrun,hcs,rfl⟩ := h
  obtain ⟨rfl,ha,hmoved,hplace⟩ := (fatSelectCluster_any hE hs 1).of_ok hrun
  have hrest := nextLoads_lt hE hcs (hs.after ha) (by rw [hmoved.flags]; exact hclean)
    (congrArg Place.cluster hplace)
  split
  · exact hrest
  · intro b hb
    rcases List.mem_cons.1 hb with rfl | hb
    · have hsector : (t.fileNum fd).sector = _ := congrArg Place.sector hplace
      rw [hsector]
      exact Nat.lt_of_not_le fun h => ‹¬ _› (decide_eq_true h)
    · exact hrest b hb

/-- The walk of a mounted root loads exactly the sectors of the root when these are fewer than 256 and
the last ones of the device. -/
theorem fat16Root_walk {E' : Env} {start volumeSize hint : ℕ} {r u : FatState}
    (hmount : fatMount E' start volumeSize hint r = .ok (0,u)) (h16 : u.fatfs.type = partTypeFat16)
    (hfatfs : s.fatfs = u.fatfs) (hsize : s.dev.size ≤ maxBlock)
    (hclean : (s.fileNum fd).flags.dirty = false) :
    RootLoads E fd s (List.range' s.fatfs.rootStart s.fatfs.rootLen) ↔
      s.fatfs.rootLen < 256 ∧ s.dev.size = s.fatfs.rootStart + s.fatfs.rootLen := by
  have hon : s.On s.fatfs s.dev.blocks s.dev.size := ⟨rfl,rfl,rfl⟩
  have hpos : 0 < s.fatfs.rootLen := by
    rw [hfatfs]
    exact mounted_rootLen hmount h16
  have hu : u8 s.fatfs.rootLen ≤ s.fatfs.rootLen := Nat.mod_le _ _
  have hu' : u8 s.fatfs.rootLen < 256 := Nat.mod_lt _ (by decide)
  by_cases hstart : s.fatfs.rootStart < s.dev.size
  · rw [rootLoads_iff hE hsize hstart hon hclean]
    constructor
    · intro h
      have hlen := congrArg List.length h
      rw [List.length_range',List.length_range'] at hlen
      unfold u8 at hlen
      omega
    · rintro ⟨hlt,hend⟩
      have hlen : u8 s.fatfs.rootLen = s.fatfs.rootLen := Nat.mod_eq_of_lt hlt
      rw [hlen,hend,Nat.add_sub_cancel_left,Nat.min_eq_right (Nat.le_succ _)]
  · refine ⟨fun h => ?_,fun h => by omega⟩
    exact absurd (rootLoads_lt hE h hon hclean _ (List.mem_range'.2 ⟨0,hpos,rfl⟩)) hstart

end NoFault

/-- A device that ends with the root: one boot sector, one block of table and one of root. -/
theorem fat16Root_walk_last : ∃ u,
    fatMount (.calm (fun _ => 0) 8) 0 3 partTypeFat16
      (.mounted smallFat16 3 fun b => if b = 0 then bootFat16 1 3 else .zero) = .ok (0,u) ∧
      RootLoads (.calm (fun _ => 0) 8) 0 u [2] := by
  have hrun : Prog.test (fatMount (.calm (fun _ => 0) 8) 0 3 partTypeFat16)
      (.mounted smallFat16 3 fun b => if b = 0 then bootFat16 1 3 else .zero)
      (fun r u => r == 0 && u.fatfs.type == partTypeFat16 && u.fatfs.rootStart == 2 &&
        u.fatfs.rootLen == 1 && u.dev.size == 3 && !(u.fileNum 0).flags.dirty) = true := by
    decide +kernel
  obtain ⟨r,u,hu,hp⟩ := ok_of_test hrun
  simp only [Bool.and_eq_true,beq_iff_eq,Bool.not_eq_true'] at hp
  obtain ⟨⟨⟨⟨⟨rfl,h16⟩,hstart⟩,hlen⟩,hsize⟩,hclean⟩ := hp
  refine ⟨u,hu,?_⟩
  have hwalk := (@fat16Root_walk (.calm (fun _ => 0) 8) ⟨fun _ => rfl,fun _ => rfl,fun _ => rfl⟩ 0 u _ 0 3
    partTypeFat16 _ u hu h16 rfl (by rw [hsize]; decide) hclean).2 ⟨by omega,by omega⟩
  rwa [hstart,hlen] at hwalk

/-- With a data area behind it the root is left: block 3 is the first sector of cluster 2. -/
theorem fat16Root_walks_on : ∃ u,
    fatMount (.calm (fun _ => 0) 8) 0 300 partTypeFat16 (bootedFat16 1 200 .zero) = .ok (0,u) ∧
      u.fatfs.type = partTypeFat16 ∧ u.fatfs.rootStart = 2 ∧ u.fatfs.rootLen = 1 ∧
      u.fatfs.firstSector 2 = 3 ∧ RootLoads (.calm (fun _ => 0) 8) 0 u [2,3] ∧
      ¬ RootLoads (.calm (fun _ => 0) 8) 0 u [2] := by
  have hrun : Prog.test (fatMount (.calm (fun _ => 0) 8) 0 300 partTypeFat16) (bootedFat16 1 200 .zero)
      (fun r u => r == 0 && u.fatfs.type == partTypeFat16 && u.fatfs.rootStart == 2 &&
        u.fatfs.rootLen == 1 && u.fatfs.firstSector 2 == 3 && u.dev.size == 300 &&
        !(u.fileNum 0).flags.dirty) = true := by
    decide +kernel
  obtain ⟨r,u,hu,hp⟩ := ok_of_test hrun
  simp only [Bool.and_eq_true,beq_iff_eq,Bool.not_eq_true'] at hp
  obtain ⟨⟨⟨⟨⟨⟨rfl,h16⟩,hstart⟩,hlen⟩,hfirst⟩,hsize⟩,hclean⟩ := hp
  have hloads (bs : List ℕ) : RootLoads (.calm (fun _ => 0) 8) 0 u bs ↔ _ :=
    @rootLoads_iff (.calm (fun _ => 0) 8) ⟨fun _ => rfl,fun _ => rfl,fun _ => rfl⟩ 0 u _ _ _ bs
      (by rw [hsize]; decide) (by rw [hsize,hstart]; decide) ⟨rfl,rfl,rfl⟩ hclean
  simp only [hstart,hlen,hsize] at hloads
  exact ⟨u,hu,h16,hstart,hlen,hfirst,(hloads _).2 (by decide),fun h => absurd ((hloads _).1 h) (by decide)⟩

end Gristle
