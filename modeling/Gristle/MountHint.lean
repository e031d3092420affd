import Gristle.Layout
import Gristle.LookupPath

/-! What the two mount functions have assigned when they return: the order in which `fat_mount` tries them
makes no difference, and which failing attempt has already changed the mounted geometry. -/
namespace Gristle
open Prog

/-- The device and the lock answer the same question always alike. -/
structure Env.Steady (E : Env) : Prop where
  read : ∀ n, E.readFails n = E.readFails 0
  lock : ∀ n, E.lockRefused n = E.lockRefused 0

theorem Env.NoFault.steady {E : Env} (hE : E.NoFault) : E.Steady :=
  ⟨fun n => by rw [hE.read,hE.read],fun n => by rw [hE.lock,hE.lock]⟩

/-- The geometry with the answer of the device about write protection. -/
def FatInfo.stamped (E : Env) (g : FatInfo) : FatInfo :=
  { g with readOnly := (E.deviceReadOnly % 2^8).toNat }

/-- The system buffer after a `block_read` of this block. -/
def FatState.buffered (E : Env) (s : FatState) (b : ℕ) : Sector :=
  if E.readFails 0 = true ∨ s.dev.size ≤ b then s.sysbuf else s.dev.blocks b

/-! ### The verdicts on a boot sector -/

namespace BootSector

/-- The checks `fat_mount_fat16` makes before it assigns anything. -/
def accepted16 (b : BootSector) (volumeSize : ℕ) : Bool :=
  b.sizesOk volumeSize && b.rootEntries ≠ 0 && b.rootEntries % 16 = 0 && b.fits volumeSize

/-- The checks of `fat_mount_fat32`. -/
def accepted32 (b : BootSector) (volumeSize : ℕ) : Bool :=
  b.sizesOk volumeSize && b.rootEntries = 0 && b.fits volumeSize

/-- The first sector of the fixed root directory, as `fat_mount_fat16` computes it. -/
def rootSector (b : BootSector) (start : ℕ) : ℕ :=
  u32 (u32 (start + b.reservedSectors) + b.shortSectorsPerFat * b.numFats)

/-- The boot sector passes all checks of `fat_mount_fat16` but the last. -/
def Overruns (b : BootSector) (start volumeSize : ℕ) : Prop :=
  b.accepted16 volumeSize = true ∧ u32 (start + volumeSize) < b.rootSector start

/-- The result of `fat_mount_fat16` on this boot sector, and the geometry it leaves. -/
def try16 (b : BootSector) (start volumeSize : ℕ) (g : FatInfo) : ℤ × FatInfo :=
  if b.accepted16 volumeSize = false then (-1,g)
  else if u32 (start + volumeSize) < b.rootSector start then (-1,b.geometry16 start g)
  else (0,{ b.geometry16 start g with
    totalSectors := b.total
    type := partTypeFat16
    fatEntryLen := 2
    endClusterMarker := 0xFFF0
    partStart := start
    rootCluster := 1 })

/-- The result of `fat_mount_fat32` on this boot sector, and the geometry it leaves. -/
def try32 (b : BootSector) (start volumeSize : ℕ) (g : FatInfo) : ℤ × FatInfo :=
  if b.accepted32 volumeSize = false then (-1,g) else (0,b.geometry32 start g)

/-- The second attempt is made when the first one fails. -/
def fallback (first second : FatInfo → ℤ × FatInfo) (g : FatInfo) : ℤ × FatInfo :=
  if (first g).1 = 0 then first g else second (first g).2

variable {b : BootSector} {start volumeSize : ℕ} {g : FatInfo}

@[simp] theorem try16_readOnly : (b.try16 start volumeSize g).2.readOnly = g.readOnly := by
  unfold try16
  split
  · rfl
  · split <;> rfl

@[simp] theorem try32_readOnly : (b.try32 start volumeSize g).2.readOnly = g.readOnly := by
  unfold try32
  split <;> rfl

theorem try16_of_noRoot (h : b.rootEntries = 0) : b.try16 start volumeSize g = (-1,g) := by
  simp [try16,accepted16,h]

theorem try32_of_root (h : b.rootEntries ≠ 0) : b.try32 start volumeSize g = (-1,g) := by
  simp [try32,accepted32,h]

theorem try16_result : (b.try16 start volumeSize g).1 = 0 ∨ (b.try16 start volumeSize g).1 = -1 := by
  unfold try16
  split
  · exact .inr rfl
  · split
    · exact .inr rfl
    · exact .inl rfl

theorem try32_result : (b.try32 start volumeSize g).1 = 0 ∨ (b.try32 start volumeSize g).1 = -1 := by
  unfold try32
  split
  · exact .inr rfl
  · exact .inl rfl

theorem try16_failed (h : (b.try16 start volumeSize g).1 ≠ 0) : (b.try16 start volumeSize g).1 = -1 :=
  try16_result.resolve_left h

theorem try32_failed (h : (b.try32 start volumeSize g).1 ≠ 0) : b.try32 start volumeSize g = (-1,g) := by
  unfold try32 at *
  split
  · rfl
  · rename_i haccepted
    rw [if_neg haccepted] at h
    exact absurd rfl h

/-- No boot sector passes for both types, and the attempt for the other type changes nothing. -/
theorem fallback_comm : fallback (b.try16 start volumeSize) (b.try32 start volumeSize) =
    fallback (b.try32 start volumeSize) (b.try16 start volumeSize) := by
  funext g
  unfold fallback
  by_cases h : b.rootEntries = 0
  · rw [try16_of_noRoot h,if_neg (show (-1 : ℤ) ≠ 0 by decide)]
    split
    · rfl
    · rename_i hfail
      rw [try32_failed hfail,try16_of_noRoot h]
  · rw [try32_of_root h,try32_of_root h,if_neg (show (-1 : ℤ) ≠ 0 by decide)]
    split
    · rfl
    · rename_i hfail
      rw [← try16_failed hfail]

end BootSector

/-! ### One attempt -/

/-- A mount function has judged the boot sector in this buffer. -/
structure Tried (verdict : BootSector → FatInfo → ℤ × FatInfo) (buffer : Sector) (g : FatInfo)
    (s : FatState) (r : ℤ) (t : FatState) : Prop where
  outcome : (r,t.fatfs) = verdict buffer.bootSector g
  sysbuf : t.sysbuf = buffer
  blocks : t.dev.blocks = s.dev.blocks
  size : t.dev.size = s.dev.size

section Attempt
variable {E : Env} {start volumeSize : ℕ} {s : FatState}

theorem Tried.buffered {verdict : BootSector → FatInfo → ℤ × FatInfo} {g : FatInfo} {t : FatState} {r : ℤ}
    (h : Tried verdict (s.buffered E start) g s r t) : t.buffered E start = s.buffered E start := by
  rw [FatState.buffered,h.size,h.blocks,h.sysbuf,FatState.buffered]
  split <;> rfl

theorem readSysbuf_steady (hE : E.Steady) (b : ℕ) : (readSysbuf E b).Returns s fun _ t =>
    t.fatfs = s.fatfs ∧ t.sysbuf = s.buffered E b ∧ t.dev.blocks = s.dev.blocks ∧ t.dev.size = s.dev.size := by
  unfold readSysbuf FatState.buffered
  rw [← hE.read s.dev.tick]
  split
  · rename_i hfail
    exact ⟨true,{ s with dev := { s.dev with tick := s.dev.tick + 1 } },
      by rw [bind_of_ok (by rw [onDevice,zoom,Device.blockRead,if_pos hfail])]; rfl,rfl,rfl,rfl,rfl⟩
  · rename_i hread
    exact ⟨false,{ s with dev := { s.dev with tick := s.dev.tick + 1 }, sysbuf := s.dev.blocks b },
      by rw [bind_of_ok (by rw [onDevice,zoom,Device.blockRead,if_neg hread])]; rfl,rfl,rfl,rfl,rfl⟩

/-- What the two mount functions begin with: the lock, the answer about write protection and the boot sector. -/
theorem attempt_returns (hE : E.Steady) (hlock : E.lockRefused 0 = false) {rest : Sector → FatM ℤ}
    {verdict : BootSector → FatInfo → ℤ × FatInfo}
    (hrest : ∀ t : FatState, (rest t.sysbuf).Returns t (Tried verdict t.sysbuf t.fatfs t)) :
    (do
      if ← sysLock E then
        storeReadOnly E
        let _ ← readSysbuf E start
        rest (← sysbuf)
      else pure (-1) : FatM ℤ).Returns s (Tried verdict (s.buffered E start) (s.fatfs.stamped E) s) := by
  rw [← hE.lock s.dev.tick] at hlock
  refine returns_bind_of_ok (by rw [sysLock,onDevice,zoom,Device.sysLock,hlock]; rfl) ?_
  refine returns_ite (fun _ => returns_bind_of_ok rfl ?_) fun h => absurd rfl h
  refine (readSysbuf_steady hE start).bind fun _ t ht => returns_sysbuf ((hrest t).mono fun r u hu => ?_)
  obtain ⟨hg,hbuf,hblocks,hsize⟩ := ht
  exact ⟨by rw [hu.outcome,hg,hbuf]; rfl,hu.sysbuf.trans hbuf,hu.blocks.trans hblocks,hu.size.trans hsize⟩

/-- A refused lock ends the attempt. -/
theorem attempt_refused (hE : E.Steady) (hlock : E.lockRefused 0 = true) {rest : FatM ℤ} :
    (do
      if ← sysLock E then rest
      else pure (-1) : FatM ℤ).Returns s fun r t => r = -1 ∧ t.fatfs = s.fatfs ∧ t.sysbuf = s.sysbuf := by
  rw [← hE.lock s.dev.tick] at hlock
  have hrun : sysLock E s = .ok (false,{ s with dev := { s.dev with tick := s.dev.tick + 1 } }) := by
    rw [sysLock,onDevice,zoom,Device.sysLock,hlock]
    rfl
  exact returns_bind_of_ok hrun (returns_ite (fun h => absurd h (by decide)) fun _ => returns_pure ⟨rfl,rfl,rfl⟩)

theorem fatMountFat16_tried (hE : E.Steady) (hlock : E.lockRefused 0 = false) :
    (fatMountFat16 E start volumeSize).Returns s
      (Tried (·.try16 start volumeSize) (s.buffered E start) (s.fatfs.stamped E) s) := by
  refine attempt_returns hE hlock fun t => ?_
  have hrejected : (!t.sysbuf.bootSector.sizesOk volumeSize || t.sysbuf.bootSector.rootEntries = 0 ||
      t.sysbuf.bootSector.rootEntries % 16 ≠ 0 || !t.sysbuf.bootSector.fits volumeSize) =
      !t.sysbuf.bootSector.accepted16 volumeSize := by
    simp [BootSector.accepted16]
  dsimp only
  rw [hrejected]
  cases haccepted : t.sysbuf.bootSector.accepted16 volumeSize with
  | false => exact ⟨_,_,rfl,by simp only [BootSector.try16,haccepted]; rfl,rfl,rfl,rfl⟩
  | true =>
    refine returns_ite (fun h => absurd h (by simp)) fun _ => returns_bind_of_ok rfl (returns_fatfs ?_)
    refine returns_ite (fun hroot => ?_) fun hroot => ?_
    · exact ⟨_,_,rfl,by simp only [BootSector.try16,haccepted]; exact (if_pos hroot).symm,rfl,rfl,rfl⟩
    · exact ⟨_,_,rfl,by simp only [BootSector.try16,haccepted]; exact (if_neg hroot).symm,rfl,rfl,rfl⟩

theorem fatMountFat32_tried (hE : E.Steady) (hlock : E.lockRefused 0 = false) :
    (fatMountFat32 E start volumeSize).Returns s
      (Tried (·.try32 start volumeSize) (s.buffered E start) (s.fatfs.stamped E) s) := by
  refine attempt_returns hE hlock fun t => ?_
  have hrejected : (!t.sysbuf.bootSector.sizesOk volumeSize || t.sysbuf.bootSector.rootEntries ≠ 0 ||
      !t.sysbuf.bootSector.fits volumeSize) = !t.sysbuf.bootSector.accepted32 volumeSize := by
    simp [BootSector.accepted32]
  dsimp only
  rw [hrejected]
  cases haccepted : t.sysbuf.bootSector.accepted32 volumeSize with
  | false => exact ⟨_,_,rfl,by simp only [BootSector.try32,haccepted]; rfl,rfl,rfl,rfl⟩
  | true => exact ⟨_,_,rfl,by simp only [BootSector.try32,haccepted]; rfl,rfl,rfl,rfl⟩

/-- Two attempts in a row. -/
theorem fallback_tried {first second : FatM ℤ} {v w : BootSector → FatInfo → ℤ × FatInfo}
    (hv : ∀ b g, (v b g).2.readOnly = g.readOnly) (hw : ∀ b g, (w b g).1 = 0 ∨ (w b g).1 = -1)
    (hfirst : first.Returns s (Tried v (s.buffered E start) (s.fatfs.stamped E) s))
    (hsecond : ∀ t, second.Returns t (Tried w (t.buffered E start) (t.fatfs.stamped E) t)) :
    (do
      if (← first) = 0 then pure 0
      else if (← second) = 0 then pure 0
      else pure (-1) : FatM ℤ).Returns s
        (Tried (fun b => BootSector.fallback (v b) (w b)) (s.buffered E start) (s.fatfs.stamped E) s) := by
  refine hfirst.bind fun r t ht => ?_
  have hr : r = (v (s.buffered E start).bootSector (s.fatfs.stamped E)).1 := congrArg Prod.fst ht.outcome
  have hg : t.fatfs = (v (s.buffered E start).bootSector (s.fatfs.stamped E)).2 := congrArg Prod.snd ht.outcome
  refine returns_ite (fun hzero => returns_pure ?_) fun hfail => ?_
  · refine ⟨?_,ht.sysbuf,ht.blocks,ht.size⟩
    simp only [BootSector.fallback]
    rw [if_pos (hr.symm.trans hzero),← ht.outcome,hzero]
  · refine (hsecond t).bind fun r' u hu => ?_
    have hstamped : t.fatfs.stamped E = t.fatfs := by
      have hkept : t.fatfs.readOnly = (s.fatfs.stamped E).readOnly := by
        rw [hg]
        exact hv _ _
      rw [FatInfo.stamped]
      exact congrArg (fun n => { t.fatfs with readOnly := n }) hkept.symm
    have houtcome := hu.outcome
    rw [hstamped,ht.buffered,hg] at houtcome
    have hr' : r' = (w (s.buffered E start).bootSector
        (v (s.buffered E start).bootSector (s.fatfs.stamped E)).2).1 := congrArg Prod.fst houtcome
    have hfinal (h : r' = 0 ∨ r' = -1) : (if r' = 0 then pure 0 else pure (-1) : FatM ℤ) u = .ok (r',u) := by
      rcases h with rfl | rfl
      · rfl
      · rfl
    refine ⟨r',u,hfinal (by rw [hr']; exact hw _ _),?_,?_,hu.blocks.trans ht.blocks,hu.size.trans ht.size⟩
    · simp only [BootSector.fallback]
      rw [if_neg (by rw [← hr]; exact hfail),houtcome]
    · rw [hu.sysbuf,ht.buffered]

/-- Whatever the hint, `fat_mount` gives the verdict of both attempts. -/
theorem fatMount_tried (hE : E.Steady) (hlock : E.lockRefused 0 = false) (hint : ℕ) :
    (fatMount E start volumeSize hint).Returns s (Tried (fun b => BootSector.fallback
      (b.try16 start volumeSize) (b.try32 start volumeSize)) (s.buffered E start) (s.fatfs.stamped E) s) := by
  unfold fatMount
  split
  rename_i first second horder
  split at horder
  · obtain ⟨rfl,rfl⟩ := Prod.mk.inj horder
    exact fallback_tried (fun _ _ => BootSector.try16_readOnly) (fun _ _ => BootSector.try32_result)
      (fatMountFat16_tried hE hlock) fun t => fatMountFat32_tried hE hlock
  · obtain ⟨rfl,rfl⟩ := Prod.mk.inj horder
    simp only [BootSector.fallback_comm]
    exact fallback_tried (fun _ _ => BootSector.try32_readOnly) (fun _ _ => BootSector.try16_result)
      (fatMountFat32_tried hE hlock) fun t => fatMountFat16_tried hE hlock

theorem fatMount_refused (hE : E.Steady) (hlock : E.lockRefused 0 = true) (hint : ℕ) :
    (fatMount E start volumeSize hint).Returns s fun r t =>
      r = -1 ∧ t.fatfs = s.fatfs ∧ t.sysbuf = s.sysbuf := by
  have htwo {first second : FatM ℤ}
      (hfirst : ∀ s, first.Returns s fun r t => r = -1 ∧ t.fatfs = s.fatfs ∧ t.sysbuf = s.sysbuf)
      (hsecond : ∀ s, second.Returns s fun r t => r = -1 ∧ t.fatfs = s.fatfs ∧ t.sysbuf = s.sysbuf) :
      (do
        if (← first) = 0 then pure 0
        else if (← second) = 0 then pure 0
        else pure (-1) : FatM ℤ).Returns s fun r t => r = -1 ∧ t.fatfs = s.fatfs ∧ t.sysbuf = s.sysbuf := by
    refine (hfirst s).bind fun r t ht => ?_
    obtain ⟨rfl,hg,hbuf⟩ := ht
    refine returns_ite (fun h => absurd h (by decide)) fun _ => (hsecond t).bind fun r u hu => ?_
    obtain ⟨rfl,hg',hbuf'⟩ := hu
    exact returns_ite (fun h => absurd h (by decide)) fun _ =>
      returns_pure ⟨rfl,hg'.trans hg,hbuf'.trans hbuf⟩
  unfold fatMount
  split
  rename_i first second horder
  split at horder
  · obtain ⟨rfl,rfl⟩ := Prod.mk.inj horder
    exact htwo (fun _ => attempt_refused hE hlock) fun _ => attempt_refused hE hlock
  · obtain ⟨rfl,rfl⟩ := Prod.mk.inj horder
    exact htwo (fun _ => attempt_refused hE hlock) fun _ => attempt_refused hE hlock

end Attempt

/-! ### The hint -/

/-- `fat_mount` returns the same result and leaves the same geometry and buffer for any two hints. -/
theorem fatMount_hint {E : Env} (hE : E.Steady) (s : FatState) (start volumeSize hint hint' : ℕ) :
    ∃ r t t', fatMount E start volumeSize hint s = .ok (r,t) ∧
      fatMount E start volumeSize hint' s = .ok (r,t') ∧ t'.fatfs = t.fatfs ∧ t'.sysbuf = t.sysbuf := by
  cases hlock : E.lockRefused 0 with
  | true =>
    obtain ⟨r,t,hrun,rfl,hg,hbuf⟩ := @fatMount_refused E start volumeSize s hE hlock hint
    obtain ⟨r',t',hrun',rfl,hg',hbuf'⟩ := @fatMount_refused E start volumeSize s hE hlock hint'
    exact ⟨-1,t,t',hrun,hrun',hg'.trans hg.symm,hbuf'.trans hbuf.symm⟩
  | false =>
    obtain ⟨r,t,hrun,ht⟩ := @fatMount_tried E start volumeSize s hE hlock hint
    obtain ⟨r',t',hrun',ht'⟩ := @fatMount_tried E start volumeSize s hE hlock hint'
    obtain ⟨hr,hg⟩ := Prod.mk.inj (ht'.outcome.trans ht.outcome.symm)
    exact ⟨r,t,t',hrun,by rw [hrun',hr],hg,ht'.sysbuf.trans ht.sysbuf.symm⟩

/-- A device full of zeros is refused with either hint. -/
theorem fatMount_hint_blank : ∃ r t t',
    fatMount (.calm (fun _ => 90) 8) 0 300 6 (.mounted smallFat16 300 fun _ => .zero) = .ok (r,t) ∧
      fatMount (.calm (fun _ => 90) 8) 0 300 11 (.mounted smallFat16 300 fun _ => .zero) = .ok (r,t') ∧
      t'.fatfs = t.fatfs ∧ t'.sysbuf = t.sysbuf :=
  fatMount_hint (env_calm_noFault _ _).steady _ _ _ _ _

/-! ### A failed mount -/

/-- The twelve fields that describe the mounted volume. -/
def FatInfo.geometry (g : FatInfo) : FatInfo := { g with readOnly := 0 }

/-- A `fat_mount` that fails leaves the mounted geometry alone. -/
def MountSafe (E : Env) (start volumeSize hint : ℕ) (s : FatState) : Prop :=
  (fatMount E start volumeSize hint).Returns s fun r t => r = -1 → t.fatfs.geometry = s.fatfs.geometry

namespace BootSector
variable {b : BootSector} {start volumeSize : ℕ} {g : FatInfo}

/-- The last check of `fat_mount_fat16` comes after the assignments. -/
theorem fallback_of_overruns (h : b.Overruns start volumeSize) :
    fallback (b.try16 start volumeSize) (b.try32 start volumeSize) g = (-1,b.geometry16 start g) := by
  obtain ⟨haccepted,hroot⟩ := h
  have hentries : b.rootEntries ≠ 0 := by
    intro hzero
    simp [accepted16,hzero] at haccepted
  have hfirst : b.try16 start volumeSize g = (-1,b.geometry16 start g) := by
    rw [try16,if_neg (by simp [haccepted]),if_pos hroot]
  rw [fallback,hfirst,if_neg (show (-1 : ℤ) ≠ 0 by decide),try32_of_root hentries]

/-- Every other failure comes before them. -/
theorem fallback_failed (h : ¬ b.Overruns start volumeSize)
    (hfail : (fallback (b.try16 start volumeSize) (b.try32 start volumeSize) g).1 = -1) :
    fallback (b.try16 start volumeSize) (b.try32 start volumeSize) g = (-1,g) := by
  unfold fallback at *
  split
  · rename_i hzero
    rw [if_pos hzero,hzero] at hfail
    exact absurd hfail (by decide)
  · rename_i hfirst
    have hg : b.try16 start volumeSize g = (-1,g) := by
      unfold try16 at *
      split
      · rfl
      · rename_i haccepted
        rw [if_neg haccepted] at hfirst
        split
        · rename_i hroot
          exact absurd ⟨by simpa using haccepted,hroot⟩ h
        · rename_i hroot
          rw [if_neg hroot] at hfirst
          exact absurd rfl hfirst
    rw [if_neg hfirst,hg] at hfail
    rw [hg]
    apply try32_failed
    rw [hfail]
    decide

end BootSector

/-- A failed mount leaves the geometry alone unless the boot sector passes every check of `fat_mount_fat16`
but the last and describes another geometry. -/
theorem mountSafe_iff {E : Env} (hE : E.Steady) (s : FatState) (start volumeSize hint : ℕ) :
    MountSafe E start volumeSize hint s ↔
      ¬ (E.lockRefused 0 = false ∧ (s.buffered E start).bootSector.Overruns start volumeSize) ∨
        ((s.buffered E start).bootSector.geometry16 start s.fatfs).geometry = s.fatfs.geometry := by
  cases hlock : E.lockRefused 0 with
  | true =>
    refine iff_of_true ?_ (.inl (by simp))
    exact (fatMount_refused hE hlock hint).mono fun r t ht _ => by rw [ht.2.1]
  | false =>
    have hmount := @fatMount_tried E start volumeSize s hE hlock hint
    by_cases hover : (s.buffered E start).bootSector.Overruns start volumeSize
    · -- the geometry left behind is the one that was rejected
      have hleft : ((s.buffered E start).bootSector.geometry16 start (s.fatfs.stamped E)).geometry =
          ((s.buffered E start).bootSector.geometry16 start s.fatfs).geometry := rfl
      obtain ⟨r,t,hrun,ht⟩ := hmount
      have houtcome := ht.outcome
      rw [BootSector.fallback_of_overruns hover] at houtcome
      obtain ⟨rfl,hg⟩ := Prod.mk.inj houtcome
      constructor
      · intro hsafe
        right
        rw [← hleft,← hg]
        exact hsafe.of_ok hrun rfl
      · rintro (hnot | hsame)
        · exact absurd ⟨rfl,hover⟩ hnot
        · refine ⟨-1,t,hrun,fun _ => ?_⟩
          rw [hg,hleft]
          exact hsame
    · refine iff_of_true ?_ (.inl fun h => hover h.2)
      refine hmount.mono fun r t ht hfail => ?_
      have houtcome := ht.outcome
      have hresult := congrArg Prod.fst houtcome
      rw [BootSector.fallback_failed hover (hresult.symm.trans hfail)] at houtcome
      rw [(Prod.mk.inj houtcome).2]
      rfl

/-- A device full of zeros does no harm. -/
theorem mountSafe_blank : MountSafe (.calm (fun _ => 90) 8) 0 300 6 (.mounted smallFat16 300 fun _ => .zero) :=
  (mountSafe_iff (env_calm_noFault _ _).steady _ _ _ _).2
    (.inl fun h => absurd h.2.1 (by decide +kernel))

/-- A boot sector with a table of a thousand sectors for a partition of a hundred. -/
def longTable : Sector := Sector.ofBytes [0,0,0,0,0,0,0,0,0,0,0,0,2,1,1,0,1,16,0,0,0,0,0xE8,3]

/-- The length of the table that is rejected replaces that of the mounted volume. -/
theorem fatMount_breaks : ¬ MountSafe (.calm (fun _ => 90) 8) 0 100 6
    (.mounted smallFat16 300 fun _ => longTable) := by
  intro h
  have hrun : Prog.test (fatMount (.calm (fun _ => 90) 8) 0 100 6) (.mounted smallFat16 300 fun _ => longTable)
      (fun r t => decide (r = -1 ∧ t.fatfs.sectorsPerFat = 1000)) = true := by
    decide +kernel
  obtain ⟨r,t,hrun,hp⟩ := ok_of_test hrun
  obtain ⟨rfl,hlength⟩ := of_decide_eq_true hp
  have hsame := congrArg FatInfo.sectorsPerFat (h.of_ok hrun rfl)
  change t.fatfs.sectorsPerFat = smallFat16.sectorsPerFat at hsame
  rw [hlength] at hsame
  exact absurd hsame (by decide)

end Gristle
