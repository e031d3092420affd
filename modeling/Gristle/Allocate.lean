import Gristle.Transfer
import Gristle.Volume

/-! Taking a cluster from the table and giving a chain back. -/
namespace Gristle
open Prog

/-! ### The search for a zero entry -/

theorem FatInfo.freeIndex_some {g : FatInfo} {b : Sector} {n j i : ℕ}
    (h : g.freeIndex b n j = some i) : j ≤ i ∧ i < j + n ∧ g.entryAt b (i * g.fatEntryLen) = 0 ∧
      ∀ k, j ≤ k → k < i → g.entryAt b (k * g.fatEntryLen) ≠ 0 := by
  induction n generalizing j with
  | zero => simp [FatInfo.freeIndex] at h
  | succ n ih =>
    rw [FatInfo.freeIndex] at h
    split at h
    · obtain rfl := Option.some.inj h
      exact ⟨Nat.le_refl _,by omega,‹_›,fun k h₁ h₂ => by omega⟩
    · obtain ⟨hj,hi,hzero,hleast⟩ := ih h
      refine ⟨by omega,by omega,hzero,fun k h₁ h₂ => ?_⟩
      rcases Nat.eq_or_lt_of_le h₁ with rfl | h₁
      · assumption
      · exact hleast k h₁ h₂

theorem FatInfo.freeIndex_none {g : FatInfo} {b : Sector} {n j : ℕ} (h : g.freeIndex b n j = none) :
    ∀ k, j ≤ k → k < j + n → g.entryAt b (k * g.fatEntryLen) ≠ 0 := by
  induction n generalizing j with
  | zero => intro k h₁ h₂; omega
  | succ n ih =>
    rw [FatInfo.freeIndex] at h
    split at h
    · simp at h
    · intro k h₁ h₂
      rcases Nat.eq_or_lt_of_le h₁ with rfl | h₁
      · assumption
      · exact ih h k h₁ (by omega)

/-- The cluster `fat_get_free_cluster` finds: the least one with a zero entry. -/
structure FatInfo.LeastFree (g : FatInfo) (B : ℕ → Sector) (k : ℕ) : Prop where
  inTable : k < g.entries
  free : g.entry B k = 0
  least : ∀ c < k, g.entry B c ≠ 0

/-- No entry of the table is zero. -/
def FatInfo.Full (g : FatInfo) (B : ℕ → Sector) : Prop := ∀ c < g.entries, g.entry B c ≠ 0

/-- Where entry `j` of block `m` of the table lies. -/
theorem FatInfo.Table.entry_in_block {g : FatInfo} {size : ℕ} (hg : g.Table size) {m j : ℕ}
    (hm : m < g.sectorsPerFat) (hj : j < g.perBlock) : m * g.perBlock + j < g.entries ∧
      g.entryBlock (m * g.perBlock + j) = g.activeFatStart + m ∧
      g.entryOffset (m * g.perBlock + j) = j * g.fatEntryLen := by
  have hlt : m * g.perBlock + j < g.entries := by
    have h := Nat.mul_le_mul (Nat.succ_le_of_lt hm) (Nat.le_refl g.perBlock)
    rw [Nat.succ_mul] at h
    unfold FatInfo.entries
    omega
  refine ⟨hlt,?_,?_⟩
  · rw [hg.entryBlock_eq hlt,Nat.mul_comm m,Nat.mul_add_div hg.perBlock_pos,Nat.div_eq_of_lt hj,
      Nat.add_zero]
  · rw [hg.entryOffset_eq hlt,Nat.mul_comm m,Nat.mul_add_mod,Nat.mod_eq_of_lt hj]

section Allocate
variable {E : Env} (hE : E.NoFault)
include hE

/-- What the allocator does: it marks the least free cluster, or finds none. -/
def Allocates (s t : FatState) (k : ℕ) : Prop :=
  s.fatfs.LeastFree s.dev.blocks k ∧
      AfterMedium s t (s.fatfs.setEntry s.dev.blocks k s.fatfs.endMark) ∨
    k = 0 ∧ s.fatfs.Full s.dev.blocks ∧ AfterMedium s t s.dev.blocks

omit hE in
theorem Allocates.of_same {s t u v : FatState} {k : ℕ} (h : Allocates t u k)
    (hs : AfterMedium s t s.dev.blocks) (hu : AfterMedium u v u.dev.blocks) : Allocates s v k := by
  have hg := hs.table.fatfs
  have hb := hs.blocks
  unfold Allocates at h ⊢
  rw [hg,hb] at h
  have hjoin {B : ℕ → Sector} (h : AfterMedium t u B) : AfterMedium s v B :=
    (hs.trans h).trans (h.blocks ▸ hu)
  exact h.imp (fun h => ⟨h.1,hjoin h.2⟩) fun h => ⟨h.1,h.2.1,hjoin h.2.2⟩

theorem freeClusterLoop_returns {s : FatState} (hg : s.fatfs.Table s.dev.size) {n m : ℕ}
    (hm : m + n = s.fatfs.sectorsPerFat)
    (hused : ∀ c < m * s.fatfs.perBlock, s.fatfs.entry s.dev.blocks c ≠ 0) :
    (freeClusterLoop E n (s.fatfs.activeFatStart + m)).Returns s fun k t => Allocates s t k := by
  induction n generalizing s m with
  | zero =>
    refine (sysUnlock_returns s).bind fun _ t ht => returns_pure (.inr ⟨rfl,?_,ht.1⟩)
    intro c hc
    refine hused c ?_
    rw [Nat.add_zero] at hm
    rwa [hm]
  | succ n ih =>
    set g := s.fatfs with hgs
    have hrange : g.activeFatStart + m < s.dev.size := by
      have := hg.inside
      omega
    refine (readSysbuf_returns hE hrange).bind fun failed t ht => ?_
    obtain ⟨rfl,ht,hbuf⟩ := ht
    refine returns_ite (by simp) fun _ => returns_fatfs (returns_sysbuf ?_)
    have hgt : t.fatfs = g := ht.table.fatfs
    rw [hgt,hbuf]
    have hat (j : ℕ) (hj : j < g.perBlock) : g.entryAt (s.dev.blocks (g.activeFatStart + m))
        (j * g.fatEntryLen) = g.entry s.dev.blocks (m * g.perBlock + j) := by
      obtain ⟨-,hblock,hoffset⟩ := hg.entry_in_block (show m < g.sectorsPerFat by omega) hj
      rw [FatInfo.entry,hblock,hoffset]
    cases hfind : g.freeIndex (s.dev.blocks (g.activeFatStart + m)) g.perBlock 0 with
    | none =>
      have hnone := FatInfo.freeIndex_none hfind
      have hloop := ih (s := t) (m := m+1) (by rw [hgt,ht.table.device.size]; exact hg)
        (by rw [hgt]; omega) (by
          rw [hgt,ht.blocks]
          intro c hc
          by_cases hlt : c < m * g.perBlock
          · exact hused c hlt
          · obtain ⟨j,rfl⟩ := Nat.exists_eq_add_of_le (Nat.le_of_not_lt hlt)
            rw [Nat.succ_mul] at hc
            rw [← hat j (by omega)]
            exact hnone j (Nat.zero_le j) (by omega))
      rw [hgt] at hloop
      exact hloop.mono fun k u hu => hu.of_same ht (AfterMedium.refl u)
    | some j =>
      obtain ⟨-,hj,hzero,hleast⟩ := FatInfo.freeIndex_some hfind
      rw [Nat.zero_add] at hj
      obtain ⟨hc,hblock,hoffset⟩ := hg.entry_in_block (show m < g.sectorsPerFat by omega) hj
      dsimp only
      refine returns_sysbuf ((setSysbuf_returns _ t).bind fun _ u hu => returns_sysbuf ?_)
      rw [hu.2,hbuf]
      have hsize : u.dev.size = s.dev.size :=
        hu.1.table.device.size.trans ht.table.device.size
      refine (writeBlock_returns hE _ _ (hsize ▸ hrange)).bind fun failed v hv => ?_
      obtain ⟨rfl,hv,-⟩ := hv
      refine returns_ite (by simp) fun _ => ?_
      refine (sysUnlock_returns v).bind fun _ w hw => returns_pure (.inl ?_)
      have hk : u32 ((g.activeFatStart + m - g.activeFatStart) * g.perBlock + j) =
          m * g.perBlock + j := by
        have := hg.width
        rw [Nat.add_sub_cancel_left]
        exact u32_of_lt (by omega)
      rw [hk]
      refine ⟨⟨hc,by rw [← hat j hj,hzero],fun c hlt => ?_⟩,?_⟩
      · by_cases h : c < m * g.perBlock
        · exact hused c h
        · obtain ⟨i,rfl⟩ := Nat.exists_eq_add_of_le (Nat.le_of_not_lt h)
          rw [← hat i (by omega)]
          exact hleast i (Nat.zero_le i) (by omega)
      · refine ⟨((ht.trans (ht.blocks ▸ hu.1)).trans (hv.trans hw.1)).table,?_⟩
        rw [hw.1.blocks,hv.blocks,hu.1.blocks,ht.blocks,FatInfo.setEntry,hblock,hoffset,← hgs,
          FatInfo.markEnd_eq]

/-- `fat_get_free_cluster` without faults; its result is the newest event. -/
theorem fatGetFreeCluster_returns {s : FatState} (hg : s.fatfs.Table s.dev.size) :
    (fatGetFreeCluster E).Returns s fun k t =>
      Allocates s t k ∧ Event.freeCluster k ∈ t.dev.trace := by
  have hn : u32 (s.fatfs.activeFatStart + s.fatfs.sectorsPerFat) - s.fatfs.activeFatStart =
      s.fatfs.sectorsPerFat := by
    have := hg.last
    rw [u32_of_lt (by omega),Nat.add_sub_cancel_left]
  refine returns_fatfs ?_
  rw [hn]
  refine (sysLock_returns hE s).bind fun granted t ht => ?_
  obtain ⟨rfl,ht,-⟩ := ht
  have hgt := ht.table.fatfs
  have hloop := freeClusterLoop_returns hE (s := t) (n := s.fatfs.sectorsPerFat) (m := 0)
    (by rw [hgt,ht.table.device.size]; exact hg) (by rw [hgt,Nat.zero_add]) (by simp)
  rw [hgt,Nat.add_zero] at hloop
  simp only [if_true]
  refine hloop.bind fun k u hu => (log_returns _ u).bind fun _ v hv => returns_pure ⟨?_,?_⟩
  · exact hu.of_same ht hv.1
  · rw [hv.2.2]
    exact List.mem_cons_self

end Allocate

/-! ### Giving a chain back -/

/-- The medium with the entries of these clusters set to zero. -/
def FatInfo.cleared (g : FatInfo) (B : ℕ → Sector) (cs : List ℕ) : ℕ → Sector :=
  cs.foldl (fun B c => g.setEntry B c 0) B

namespace FatInfo.Kind
variable {g : FatInfo} (hg : g.Kind)
include hg

theorem setEntry_zero (B : ℕ → Sector) (c : ℕ) : g.setEntry B c 0 =
    Function.update B (g.entryBlock c) (g.clearEntry (B (g.entryBlock c)) (g.entryOffset c)) := by
  rw [FatInfo.setEntry,hg.clearEntry_eq]

/-- An offset of an entry is never so large that the entry leaves the block. -/
theorem entryOffset_lt (c : ℕ) : g.entryOffset c + g.fatEntryLen ≤ 512 := by
  change u32 (c * g.fatEntryLen) % 512 + g.fatEntryLen ≤ 512
  unfold u32
  rcases hg.entryLen with h | h <;> rw [h] <;> omega

/-- Clearing an entry turns no zero entry into another one. -/
theorem entryAt_clearEntry (b : Sector) (c d : ℕ) (h : g.entryAt b (g.entryOffset d) = 0) :
    g.entryAt (g.clearEntry b (g.entryOffset c)) (g.entryOffset d) = 0 := by
  have hc := hg.entryOffset_lt c
  have hget (off i : ℕ) (hoff : off + g.fatEntryLen ≤ 512) (hi : b.get i = 0) :
      (g.clearEntry b off).get i = 0 := by
    have h16 (b : Sector) (off : ℕ) (hoff : off + 2 ≤ 512) (hi : b.get i = 0) :
        (b.setLe16 off 0).get i = 0 := by
      rw [Sector.get_setLe16 _ _ _ _ (by change off + 1 < 512; omega)]
      split
      · rfl
      · split
        · rfl
        · exact hi
    rw [hg.clearEntry_eq]
    unfold FatInfo.setLink
    rcases hg with ⟨hk,hlen,-⟩ | ⟨hk,hlen,-⟩ <;> rw [hk] <;> rw [hlen] at hoff
    · rw [if_pos rfl]
      exact h16 b off hoff hi
    · rw [if_neg (by decide)]
      exact h16 _ (off+2) (by omega) (h16 b off (by omega) hi)
  have hle16 (b : Sector) (i : ℕ) : b.le16 i = 0 ↔ b.get i = 0 ∧ b.get (i+1) = 0 := by
    simp only [Sector.le16,← UInt8.toNat_inj,UInt8.toNat_zero]
    omega
  have hle32 (b : Sector) (i : ℕ) : b.le32 i = 0 ↔ b.le16 i = 0 ∧ b.le16 (i+2) = 0 := by
    unfold Sector.le32
    omega
  unfold FatInfo.entryAt at h ⊢
  split
  · rw [if_pos ‹_›,hle32,hle16,hle16] at h
    rw [hle32,hle16,hle16]
    exact ⟨⟨hget _ _ hc h.1.1,hget _ _ hc h.1.2⟩,hget _ _ hc h.2.1,hget _ _ hc h.2.2⟩
  · rw [if_neg ‹_›,hle16] at h
    rw [hle16]
    exact ⟨hget _ _ hc h.1,hget _ _ hc h.2⟩

theorem entry_update_clearEntry (B : ℕ → Sector) (c d : ℕ) (h : g.entry B d = 0) :
    g.entry (g.setEntry B c 0) d = 0 := by
  rw [hg.setEntry_zero]
  unfold FatInfo.entry
  by_cases hb : g.entryBlock d = g.entryBlock c
  · rw [hb,Function.update_self]
    refine hg.entryAt_clearEntry _ c d ?_
    rw [← hb]
    exact h
  · rw [Function.update_of_ne hb]
    exact h

end FatInfo.Kind

namespace FatInfo.Table
variable {g : FatInfo} {size : ℕ} (hg : g.Table size)
include hg

theorem entry_cleared (B : ℕ → Sector) {cs : List ℕ} (hcs : ∀ c ∈ cs, c < g.entries) {d : ℕ}
    (hd : d < g.entries) : g.entry (g.cleared B cs) d = if d ∈ cs then 0 else g.entry B d := by
  induction cs generalizing B with
  | nil => rfl
  | cons c cs ih =>
    have hc := hcs c (by simp)
    change g.entry (g.cleared (g.setEntry B c 0) cs) d = _
    rw [ih (g.setEntry B c 0) fun e he => hcs e (by simp [he])]
    by_cases hdc : d = c
    · subst hdc
      simp [hg.entry_setEntry B hc (Nat.two_pow_pos _)]
    · rw [hg.entry_setEntry_of_ne B hc hd hdc]
      simp [hdc]

/-- Outside the table nothing changes. -/
theorem cleared_apply (B : ℕ → Sector) {cs : List ℕ} (hcs : ∀ c ∈ cs, c < g.entries) {b : ℕ}
    (hb : b < g.activeFatStart ∨ g.activeFatStart + g.sectorsPerFat ≤ b) :
    g.cleared B cs b = B b := by
  induction cs generalizing B with
  | nil => rfl
  | cons c cs ih =>
    change g.cleared (g.setEntry B c 0) cs b = B b
    rw [ih _ fun e he => hcs e (by simp [he]),hg.setEntry_apply B (hcs c (by simp)) hb]

/-- The entry of a cluster comes before the last block of any device. -/
theorem entryBlock_size {c : ℕ} (hc : c < g.entries) : g.entryBlock c < size ∧
    g.entryBlock c ≠ maxBlock := by
  have h₁ := (hg.entryBlock_mem hc).2
  have h₂ := hg.inside
  have h₃ := hg.last
  refine ⟨by omega,?_⟩
  change g.entryBlock c ≠ 0xFFFFFFFF
  omega

end FatInfo.Table

/-- The medium as `fat_free_clusters` sees it: `sysbuf` stands for the block `current`. -/
def FatState.cached (s : FatState) (current : ℕ) : ℕ → Sector :=
  if current = maxBlock then s.dev.blocks else Function.update s.dev.blocks current s.sysbuf

section Free
variable {E : Env} (hE : E.NoFault)
include hE

theorem freeClustersLoad_returns {s : FatState} {blk current : ℕ} (hblk : blk < s.dev.size)
    (hmax : blk ≠ maxBlock) (hcur : current = maxBlock ∨ current < s.dev.size) :
    (freeClustersLoad E blk current).Returns s fun failed t => failed = false ∧ SameTable s t ∧
      t.sysbuf = s.cached current blk ∧
        Function.update t.dev.blocks blk t.sysbuf = s.cached current := by
  have hread {u : FatState} {V : ℕ → Sector} (hu : SameTable s u) (hV : u.dev.blocks = V) :
      (readSysbuf E blk).Returns u fun failed t => failed = false ∧ SameTable s t ∧
        t.sysbuf = V blk ∧ Function.update t.dev.blocks blk t.sysbuf = V := by
    refine (readSysbuf_returns hE (hu.device.size ▸ hblk)).mono fun failed t ht => ?_
    obtain ⟨rfl,ht,hbuf⟩ := ht
    rw [hbuf,ht.blocks,hV,Function.update_eq_self]
    exact ⟨rfl,IsTrans.trans _ _ _ hu ht.table,rfl,rfl⟩
  refine returns_ite (fun h => returns_pure ?_) fun h => ?_
  · subst h
    rw [FatState.cached,if_neg hmax,Function.update_self]
    exact ⟨rfl,Std.Refl.refl s,rfl,rfl⟩
  refine returns_ite (fun h => ?_) fun h => returns_sysbuf ?_
  · rw [FatState.cached,if_pos h]
    exact hread (Std.Refl.refl s) rfl
  · rw [FatState.cached,if_neg h]
    refine (writeBlock_returns hE _ _ (hcur.resolve_left h)).bind fun _ u hu => ?_
    exact hread hu.2.1.table hu.2.1.blocks

/-- One pass of the loop on a block of the device: the entry is cleared, and the loop ends or goes on. -/
theorem freeClustersLoop_step {s : FatState} {n cluster current : ℕ} (hg : s.fatfs.Kind)
    (hblk : s.fatfs.entryBlock cluster < s.dev.size) (hmax : s.fatfs.entryBlock cluster ≠ maxBlock)
    (hcur : current = maxBlock ∨ current < s.dev.size) : ∃ u, SameTable s u ∧
      u.cached (s.fatfs.entryBlock cluster) = s.fatfs.setEntry (s.cached current) cluster 0 ∧
      freeClustersLoop E (n+1) cluster current s =
        (if s.fatfs.endClusterMarker ≤ s.fatfs.entry (s.cached current) cluster then do
          let _ ← writeBlock E .fatFreeClusters (s.fatfs.entryBlock cluster) (← sysbuf)
          sysUnlock
          pure 0
        else freeClustersLoop E n (s.fatfs.entry (s.cached current) cluster)
          (s.fatfs.entryBlock cluster)) u := by
  set g := s.fatfs with hgs
  set V := s.cached current with hV
  obtain ⟨failed,t,hrun,rfl,htab,hbuf,hcache⟩ := freeClustersLoad_returns hE hblk hmax hcur
  rw [← hV] at hbuf hcache
  obtain ⟨_,u,hset,hu,hubuf⟩ := setSysbuf_returns (g.clearEntry t.sysbuf (g.entryOffset cluster)) t
  have hunext : g.entryAt t.sysbuf (g.entryOffset cluster) = g.entry V cluster := by
    rw [hbuf,FatInfo.entry]
  refine ⟨u,IsTrans.trans _ _ _ htab hu.table,?_,?_⟩
  · rw [FatState.cached,if_neg hmax,hubuf,hu.blocks,hg.setEntry_zero,← hcache,Function.update_self,
      Function.update_idem]
  · rw [freeClustersLoop,bind_of_ok rfl,bind_of_ok hrun,run_ite,if_neg (by simp),bind_of_ok rfl]
    change (setSysbuf (g.clearEntry t.sysbuf (g.entryOffset cluster)) >>= fun _ => _) t = _
    rw [bind_of_ok hset,hunext]

/-- The last write of the loop makes the medium what the loop has seen. -/
theorem freeClusters_end {u : FatState} {blk : ℕ} (hblk : blk < u.dev.size) (hmax : blk ≠ maxBlock) :
    (do
      let _ ← writeBlock E .fatFreeClusters blk (← sysbuf)
      sysUnlock
      pure 0 : FatM ℤ).Returns u fun r t => r = 0 ∧ AfterMedium u t (u.cached blk) := by
  refine returns_sysbuf ((writeBlock_returns hE _ _ hblk).bind fun _ v hv => ?_)
  refine (sysUnlock_returns v).bind fun _ w hw => returns_pure ⟨rfl,?_⟩
  refine ⟨IsTrans.trans _ _ _ hv.2.1.table hw.1.table,?_⟩
  rw [hw.1.blocks,hv.2.1.blocks,FatState.cached,if_neg hmax]

/-- A chain given back: the entries of its clusters are zero and nothing else is changed. -/
theorem freeClustersLoop_returns {s : FatState} {n cluster current : ℕ} {cs : List ℕ}
    (hg : s.fatfs.Table s.dev.size) (hcur : current = maxBlock ∨ current < s.dev.size)
    (hcs : s.fatfs.Chain (s.cached current) cluster cs) (hn : cs.length ≤ n) :
    (freeClustersLoop E n cluster current).Returns s fun r t =>
      r = 0 ∧ AfterMedium s t (s.fatfs.cleared (s.cached current) cs) := by
  induction n generalizing s cluster current cs with
  | zero =>
    have := hcs.links.length_pos
    omega
  | succ n ih =>
    set g := s.fatfs with hgs
    set V := s.cached current with hV
    have hc : cluster < g.entries := (hcs.inRange _ hcs.links.head_mem).2
    obtain ⟨hblk,hmax⟩ := hg.entryBlock_size hc
    obtain ⟨u,htu,hcached,hstep⟩ := @freeClustersLoop_step E hE s n cluster current hg.kind hblk hmax hcur
    rw [← hV,← hgs] at hcached hstep
    rw [Returns,hstep]
    have hsize : u.dev.size = s.dev.size := htu.device.size
    refine returns_ite (fun hend => ?_) fun hend => ?_
    · have hone : cs = [cluster] := hcs.links.unique (.last (by rw [FatInfo.next,if_pos hend]))
      refine (freeClusters_end hE (hsize ▸ hblk) hmax).mono fun r t ht => ⟨ht.1,?_,?_⟩
      · exact IsTrans.trans _ _ _ htu ht.2.table
      · rw [ht.2.blocks,hcached,hone]
        rfl
    · have hnext : g.next V cluster = some (g.entry V cluster) := by rw [FatInfo.next,if_neg hend]
      obtain ⟨rest,rfl,hrest⟩ : ∃ rest, cs = cluster :: rest ∧
          ChainFrom (g.next V) (g.entry V cluster) rest := by
        cases hlinks : hcs.links with
        | last h => simp [hnext] at h
        | cons h tail =>
          rw [hnext] at h
          exact ⟨_,rfl,Option.some.inj h ▸ tail⟩
      have hnodup := (List.nodup_cons.1 hcs.links.nodup).1
      have hug := htu.fatfs
      have hloop := @ih u (g.entry V cluster) (g.entryBlock cluster) rest
        (by rw [hug,hsize]; exact hg) (.inr (by rw [hsize]; exact hblk)) (by
          rw [hug,hcached]
          refine ⟨hrest.congr fun d hd => ?_,fun d hd => hcs.inRange d (by simp [hd])⟩
          have hdc : d ≠ cluster := by
            rintro rfl
            exact hnodup hd
          have hd' := (hcs.inRange d (by simp [hd])).2
          rw [FatInfo.next,FatInfo.next,hg.entry_setEntry_of_ne V hc hd' hdc]) (by simpa using hn)
      refine hloop.mono fun r v hv => ⟨hv.1,IsTrans.trans _ _ _ htu hv.2.table,?_⟩
      rw [hv.2.blocks,hug,hcached]
      rfl

theorem fatFreeClusters_returns {s : FatState} {cluster : ℕ} {cs : List ℕ}
    (hg : s.fatfs.Table s.dev.size) (hcs : s.fatfs.Chain s.dev.blocks cluster cs)
    (hfuel : cs.length ≤ E.fuel) : (fatFreeClusters E cluster).Returns s fun r t =>
      r = 0 ∧ AfterMedium s t (s.fatfs.cleared s.dev.blocks cs) := by
  refine (sysLock_returns hE s).bind fun granted t ht => ?_
  obtain ⟨rfl,ht,-⟩ := ht
  have hgt := ht.table.fatfs
  have hcached : t.cached maxBlock = s.dev.blocks := by rw [FatState.cached,if_pos rfl,ht.blocks]
  have hloop := @freeClustersLoop_returns E hE t E.fuel cluster maxBlock cs
    (by rw [hgt,ht.table.device.size]; exact hg) (.inl rfl) (by rw [hgt,hcached]; exact hcs) hfuel
  rw [hgt,hcached] at hloop
  simp only [if_true]
  exact hloop.mono fun r u hu => ⟨hu.1,IsTrans.trans _ _ _ ht.table hu.2.table,hu.2.blocks⟩

end Free

end Gristle
