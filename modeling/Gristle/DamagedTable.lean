import Gristle.FreeClusters

/-! Giving a chain back on a damaged table: when the loop ends, and whether it spares the entries of
clusters 0 and 1. -/
namespace Gristle
open Prog

/-! ### Following the entries -/

namespace FatInfo
variable {g : FatInfo}

/-- The entries of two cluster numbers are the same bytes. -/
def SameEntry (g : FatInfo) (c d : ℕ) : Prop :=
  g.entryBlock c = g.entryBlock d ∧ g.entryOffset c = g.entryOffset d

/-- The entry of `c` lies on the device or in the block that is in `sysbuf` already. -/
def Reaches (g : FatInfo) (size current c : ℕ) : Prop :=
  g.entryBlock c < size ∨ g.entryBlock c = current

/-- The entry of `c` is not one of the first two. -/
def Spares (g : FatInfo) (c : ℕ) : Prop := ∀ d < 2, ¬ g.SameEntry c d

/-- From `c`, with block `current` in `sysbuf`, the links of the table lead in `n` steps to an entry
that ends a chain or cannot be read, without passing the first two entries. -/
inductive Unlinks (g : FatInfo) (V : ℕ → Sector) (size : ℕ) : ℕ → ℕ → ℕ → Prop
  | unreadable {current c : ℕ} : ¬ g.Reaches size current c → Unlinks g V size 0 current c
  | last {current c : ℕ} : g.Reaches size current c → g.Spares c →
      g.endClusterMarker ≤ g.entry V c → Unlinks g V size 0 current c
  | link {n current c : ℕ} : g.Reaches size current c → g.Spares c →
      g.entry V c < g.endClusterMarker →
      Unlinks g V size n (g.entryBlock c) (g.entry V c) → Unlinks g V size (n+1) current c

theorem SameEntry.entry {c d : ℕ} (h : g.SameEntry c d) (V : ℕ → Sector) : g.entry V c = g.entry V d := by
  rw [FatInfo.entry,FatInfo.entry,h.1,h.2]

/-- The number of steps depends on the bytes of the entry only. -/
theorem Unlinks.unique {V : ℕ → Sector} {size n m current current' c d : ℕ}
    (h : g.Unlinks V size n current c) (h' : g.Unlinks V size m current' d) (hcd : g.SameEntry c d)
    (hc : g.Reaches size current c) (hd : g.Reaches size current' d) : n = m := by
  induction h generalizing m current' d with
  | unreadable hnot => exact absurd hc hnot
  | last _ _ hend =>
    cases h' with
    | unreadable hnot => exact absurd hd hnot
    | last => rfl
    | link _ _ hlt =>
      rw [hcd.entry V] at hend
      omega
  | @link n current c _ _ hlt hrest ih =>
    cases h' with
    | unreadable hnot => exact absurd hd hnot
    | last _ _ hend =>
      rw [hcd.entry V] at hlt
      omega
    | @link m _ _ _ _ _ hrest' =>
      rw [← hcd.entry V,← hcd.1] at hrest'
      by_cases hr : g.Reaches size (g.entryBlock c) (g.entry V c)
      · rw [ih hrest' ⟨rfl,rfl⟩ hr hr]
      · cases hrest with
        | unreadable =>
          cases hrest' with
          | unreadable => rfl
          | last h => exact absurd h hr
          | link h => exact absurd h hr
        | last h => exact absurd h hr
        | link h => exact absurd h hr

namespace Kind
variable (hg : g.Kind)
include hg

theorem entryOffset_mod (c : ℕ) : g.entryOffset c % g.fatEntryLen = 0 := by
  change u32 (c * g.fatEntryLen) % 512 % g.fatEntryLen = 0
  unfold u32
  rcases hg.entryLen with h | h <;> rw [h] <;> omega

/-- Storing an entry leaves every entry with other bytes alone. -/
theorem entry_setEntry_of_not_same (V : ℕ → Sector) {c d : ℕ} (v : ℕ) (h : ¬ g.SameEntry c d) :
    g.entry (g.setEntry V c v) d = g.entry V d := by
  unfold entry setEntry
  by_cases hb : g.entryBlock d = g.entryBlock c
  · rw [hb,Function.update_self]
    refine hg.entryAt_setLink_of_apart _ (hg.entryOffset_lt c) ?_
    have hne : g.entryOffset c ≠ g.entryOffset d := fun ho => h ⟨hb.symm,ho⟩
    have hc := hg.entryOffset_mod c
    have hd := hg.entryOffset_mod d
    rcases hg.entryLen with hl | hl <;> rw [hl] at hc hd ⊢ <;> omega
  · rw [Function.update_of_ne hb]

theorem entry_setEntry_same (V : ℕ → Sector) {c d : ℕ} (h : g.SameEntry c d) :
    g.entry (g.setEntry V c 0) d = 0 := by
  rw [← h.entry,entry,setEntry,Function.update_self,
    hg.entryAt_setLink _ (hg.entryOffset_lt c) (Nat.two_pow_pos _)]

end Kind

end FatInfo

/-! ### What the loop sees -/

/-- The table `g`, on a device of `size` blocks that are as in `V`, with `sysbuf` in the place of block
`current`. -/
structure FatState.Sees (s : FatState) (g : FatInfo) (size current : ℕ) (V : ℕ → Sector) : Prop where
  fatfs : s.fatfs = g
  device : s.dev.size = size
  place : current = maxBlock ∨ current < size
  view : ∀ b < size, s.cached current b = V b
  scratch : current = maxBlock → s.sysbuf = V maxBlock

theorem readSysbuf_outside (E : Env) {s : FatState} {b : ℕ} (hb : s.dev.size ≤ b) :
    (readSysbuf E b).Returns s fun failed t => failed = true ∧ t.dev.blocks = s.dev.blocks := by
  have h : (Device.blockRead E b).Returns s.dev fun o d => o = none ∧ d.blocks = s.dev.blocks :=
    ⟨_,_,rfl,if_pos (Or.inr hb),rfl⟩
  refine (onDevice_returns h).bind fun o t ht => ?_
  obtain ⟨⟨rfl,hblocks⟩,-⟩ := ht
  exact returns_pure ⟨rfl,hblocks⟩

theorem writeBlock_outside (E : Env) {s : FatState} {b : ℕ} (o : Origin) (data : Sector)
    (hb : s.dev.size ≤ b) :
    (writeBlock E o b data).Returns s fun _ t => t.dev.blocks = s.dev.blocks := by
  have h : (Device.blockWrite E o b data).Returns s.dev fun _ d => d.blocks = s.dev.blocks := by
    rw [Returns,Device.blockWrite,if_pos (Or.inr hb)]
    exact ⟨_,_,rfl,rfl⟩
  exact (onDevice_returns h).mono fun _ _ h => h.1

section Damaged
variable {E : Env} (hE : E.NoFault) {g : FatInfo} {size : ℕ}
include hE

theorem freeClustersLoop_unreadable {s : FatState} {n c current : ℕ} {V : ℕ → Sector}
    (h : s.Sees g size current V) (hc : ¬ g.Reaches size current c) :
    (freeClustersLoop E (n+1) c current).Returns s fun _ t => ∀ b < size, t.dev.blocks b = V b := by
  obtain ⟨rfl,rfl,hplace,hview,-⟩ := h
  have hblk : s.dev.size ≤ s.fatfs.entryBlock c := Nat.le_of_not_lt fun h => hc (.inl h)
  have hload : (freeClustersLoad E (s.fatfs.entryBlock c) current).Returns s fun failed t =>
      failed = true ∧ t.dev.blocks = s.cached current := by
    refine returns_ite (fun h => absurd (.inr h) hc) fun _ => returns_ite (fun hcur => ?_) fun hcur =>
      returns_sysbuf ?_
    · rw [FatState.cached,if_pos hcur]
      exact readSysbuf_outside E hblk
    · rw [FatState.cached,if_neg hcur]
      refine (writeBlock_returns hE _ _ (hplace.resolve_left hcur)).bind fun _ t ht => ?_
      rw [← ht.2.1.blocks]
      exact readSysbuf_outside E (by rw [ht.2.1.table.device.size]; exact hblk)
  refine returns_fatfs (hload.bind fun failed t ht => ?_)
  obtain ⟨rfl,ht⟩ := ht
  refine (sysUnlock_returns t).bind fun _ u hu => returns_pure fun b hb => ?_
  rw [hu.1.blocks,ht]
  exact hview b hb

theorem freeClusters_last {u : FatState} {current : ℕ} {V : ℕ → Sector} (hsize : size ≤ maxBlock)
    (h : u.Sees g size current V) :
    (do
      let _ ← writeBlock E .fatFreeClusters current (← sysbuf)
      sysUnlock
      pure 0 : FatM ℤ).Returns u fun _ t => ∀ b < size, t.dev.blocks b = V b := by
  obtain ⟨-,rfl,hplace,hview,-⟩ := h
  rcases hplace with hmax | hcur
  · subst hmax
    refine returns_sysbuf ((writeBlock_outside E _ _ hsize).bind fun _ v hv => ?_)
    refine (sysUnlock_returns v).bind fun _ w hw => returns_pure fun b hb => ?_
    have hview := hview b hb
    rw [FatState.cached,if_pos rfl] at hview
    rw [hw.1.blocks,hv,hview]
  · have hmax : current ≠ maxBlock := by omega
    refine (freeClusters_end hE hcur hmax).mono fun _ t ht b hb => ?_
    rw [ht.2.blocks]
    exact hview b hb

/-- One pass on an entry the loop gets at: it is cleared, and the loop ends or goes on. -/
theorem freeClustersLoop_pass {s : FatState} {c current : ℕ} {V : ℕ → Sector} (n : ℕ) (hg : g.Kind)
    (hsize : size ≤ maxBlock) (h : s.Sees g size current V) (hc : g.Reaches size current c) :
    ∃ u, u.Sees g size (g.entryBlock c) (g.setEntry V c 0) ∧
      freeClustersLoop E (n+1) c current s =
        (if g.endClusterMarker ≤ g.entry V c then do
          let _ ← writeBlock E .fatFreeClusters (g.entryBlock c) (← sysbuf)
          sysUnlock
          pure 0
        else freeClustersLoop E n (g.entry V c) (g.entryBlock c)) u := by
  obtain ⟨rfl,rfl,hplace,hview,hscratch⟩ := h
  by_cases hblk : s.fatfs.entryBlock c < s.dev.size
  · have hmax : s.fatfs.entryBlock c ≠ maxBlock := by omega
    obtain ⟨u,hsu,hcached,hstep⟩ := @freeClustersLoop_step E hE s n c current hg hblk hmax hplace
    have hentry : s.fatfs.entry (s.cached current) c = s.fatfs.entry V c := by
      rw [FatInfo.entry,FatInfo.entry,hview _ hblk]
    rw [hentry] at hstep
    refine ⟨u,⟨hsu.fatfs,hsu.device.size,.inr hblk,fun b hb => ?_,fun h => absurd h hmax⟩,hstep⟩
    rw [hcached,FatInfo.setEntry,FatInfo.setEntry,hview _ hblk]
    by_cases hbc : b = s.fatfs.entryBlock c
    · rw [hbc,Function.update_self,Function.update_self]
    · rw [Function.update_of_ne hbc,Function.update_of_ne hbc,hview b hb]
  · -- only at the start: `sysbuf` is taken for the block `MAX_BLOCK`
    have hcur : s.fatfs.entryBlock c = current := hc.resolve_left hblk
    have hmax : s.fatfs.entryBlock c = maxBlock := by
      rw [hcur]
      exact hplace.resolve_right (hcur ▸ hblk)
    have hbuf : s.sysbuf = V (s.fatfs.entryBlock c) := by
      rw [hmax]
      exact hscratch (hcur.symm.trans hmax)
    obtain ⟨_,u,hset,hu,hubuf⟩ :=
      setSysbuf_returns (s.fatfs.clearEntry s.sysbuf (s.fatfs.entryOffset c)) s
    have hload : freeClustersLoad E (s.fatfs.entryBlock c) current s = .ok (false,s) := by
      rw [freeClustersLoad,if_pos hcur]
      rfl
    refine ⟨u,⟨hu.table.fatfs,hu.table.device.size,.inl hmax,fun b hb => ?_,fun _ => ?_⟩,?_⟩
    · have hview := hview b hb
      rw [← hcur,hmax,FatState.cached,if_pos rfl] at hview
      rw [hmax,FatState.cached,if_pos rfl,hu.blocks,hview,FatInfo.setEntry,
        Function.update_of_ne (by omega)]
    · rw [hubuf,hg.clearEntry_eq,hbuf,FatInfo.setEntry,← hmax,Function.update_self]
    · rw [freeClustersLoop,bind_of_ok rfl,bind_of_ok hload,run_ite,if_neg (by simp),bind_of_ok rfl]
      change (setSysbuf (s.fatfs.clearEntry s.sysbuf (s.fatfs.entryOffset c)) >>= fun _ => _) s = _
      rw [bind_of_ok hset,hbuf,FatInfo.entry]

/-- What a run of the loop that returns did first. -/
theorem freeClustersLoop_result {s t : FatState} {n c current : ℕ} {V : ℕ → Sector} {r : ℤ}
    (hg : g.Kind) (hsize : size ≤ maxBlock) (h : s.Sees g size current V)
    (hrun : freeClustersLoop E (n+1) c current s = .ok (r,t)) :
    ¬ g.Reaches size current c ∧ (∀ b < size, t.dev.blocks b = V b) ∨
    g.Reaches size current c ∧ g.endClusterMarker ≤ g.entry V c ∧
      (∀ b < size, t.dev.blocks b = g.setEntry V c 0 b) ∨
    g.Reaches size current c ∧ g.entry V c < g.endClusterMarker ∧
      ∃ u, u.Sees g size (g.entryBlock c) (g.setEntry V c 0) ∧
        freeClustersLoop E n (g.entry V c) (g.entryBlock c) u = .ok (r,t) := by
  by_cases hc : g.Reaches size current c
  · obtain ⟨u,hu,hstep⟩ := freeClustersLoop_pass hE n hg hsize h hc
    rw [hrun] at hstep
    split at hstep
    · exact .inr (.inl ⟨hc,‹_›,(freeClusters_last hE hsize hu).of_ok hstep.symm⟩)
    · exact .inr (.inr ⟨hc,Nat.lt_of_not_le ‹_›,u,hu,hstep.symm⟩)
  · exact .inl ⟨hc,(freeClustersLoop_unreadable hE h hc).of_ok hrun⟩

/-! ### Runs of the loop -/

omit hE in
/-- The first two entries lie in the first block of the table. -/
theorem FatInfo.Kind.entry_of_view (hg : g.Kind) {d : ℕ} (hfat : g.entryBlock 0 < size)
    (hd : d < 2) {B V : ℕ → Sector} (h : ∀ b < size, B b = V b) : g.entry B d = g.entry V d := by
  have hblk : g.entryBlock d = g.entryBlock 0 := by
    unfold FatInfo.entryBlock
    have hzero (d : ℕ) (hd : d < 2) : u32 (d * g.fatEntryLen) / blockSize = 0 := by
      change u32 (d * g.fatEntryLen) / 512 = 0
      unfold u32
      rcases hg.entryLen with h | h <;> rw [h] <;> omega
    rw [hzero d hd,hzero 0 (by decide)]
  rw [FatInfo.entry,FatInfo.entry,h _ (by rw [hblk]; exact hfat)]

/-- The entries in which `W` differs from `V` are more than `n` steps from the end of the links. -/
def FatInfo.Behind (g : FatInfo) (V : ℕ → Sector) (size n : ℕ) (W : ℕ → Sector) : Prop :=
  ∀ d, g.entry W d ≠ g.entry V d → ∃ m > n, ∃ current c, g.Unlinks V size m current c ∧
    g.Reaches size current c ∧ g.SameEntry c d

section Links
variable {V W : ℕ → Sector} {n c current k : ℕ}

omit hE in
theorem FatInfo.Behind.entry_eq (h : g.Behind V size n W) (hc : g.Unlinks V size n current c)
    (hr : g.Reaches size current c) : g.entry W c = g.entry V c := by
  by_contra hne
  obtain ⟨m,hm,current',d,hd,hrd,hdc⟩ := h c hne
  have := hd.unique hc hdc hrd hr
  omega

omit hE in
theorem FatInfo.Behind.clear (hg : g.Kind) (h : g.Behind V size (n+1) W)
    (hc : g.Unlinks V size (n+1) current c) (hr : g.Reaches size current c) :
    g.Behind V size n (g.setEntry W c 0) := by
  intro d hd
  by_cases hcd : g.SameEntry c d
  · exact ⟨n+1,Nat.lt_succ_self n,current,c,hc,hr,hcd⟩
  · rw [hg.entry_setEntry_of_not_same W 0 hcd] at hd
    obtain ⟨m,hm,hrest⟩ := h d hd
    exact ⟨m,by omega,hrest⟩

variable (hg : g.Kind) (hsize : size ≤ maxBlock) (hfat : g.entryBlock 0 < size)
include hg hsize hfat

/-- The loop ends where the links end. -/
theorem freeClustersLoop_unlinks (h : g.Unlinks V size n current c) (hW : g.Behind V size n W)
    (hk : n < k) {s : FatState} (hs : s.Sees g size current W) :
    (freeClustersLoop E k c current).Returns s fun _ t =>
      ∀ d < 2, g.entry t.dev.blocks d = g.entry W d := by
  induction h generalizing s W k with
  | unreadable hc =>
    obtain ⟨k,rfl⟩ := Nat.exists_eq_add_of_lt hk
    exact (freeClustersLoop_unreadable hE hs hc).mono fun _ t ht d hd => hg.entry_of_view hfat hd ht
  | last hc hspare hend =>
    obtain ⟨k,rfl⟩ := Nat.exists_eq_add_of_lt hk
    obtain ⟨u,hu,hstep⟩ := freeClustersLoop_pass hE (0+k) hg hsize hs hc
    rw [hW.entry_eq (.last hc hspare hend) hc,if_pos hend] at hstep
    rw [Returns,hstep]
    refine (freeClusters_last hE hsize hu).mono fun _ t ht d hd => ?_
    rw [hg.entry_of_view hfat hd ht,hg.entry_setEntry_of_not_same W 0 (hspare d hd)]
  | @link n current c hc hspare hlt hrest ih =>
    obtain ⟨k,rfl⟩ := Nat.exists_eq_add_of_lt hk
    obtain ⟨u,hu,hstep⟩ := freeClustersLoop_pass hE (n+1+k) hg hsize hs hc
    have hlink := FatInfo.Unlinks.link hc hspare hlt hrest
    rw [hW.entry_eq hlink hc,if_neg (Nat.not_le_of_lt hlt)] at hstep
    rw [Returns,hstep]
    refine (ih (hW.clear hg hlink hc) (by omega) hu).mono fun _ t ht d hd => ?_
    rw [ht d hd,hg.entry_setEntry_of_not_same W 0 (hspare d hd)]

/-- An entry that is zero stays zero. -/
theorem freeClustersLoop_zero {d : ℕ} (hd : d < 2) (hzero : g.entry W d = 0) {s t : FatState} {r : ℤ}
    (hs : s.Sees g size current W) (hrun : freeClustersLoop E k c current s = .ok (r,t)) :
    g.entry t.dev.blocks d = 0 := by
  induction k generalizing s W c current with
  | zero => simp [freeClustersLoop] at hrun
  | succ k ih =>
    have hclear := hg.entry_update_clearEntry W c d hzero
    rcases freeClustersLoop_result hE hg hsize hs hrun with ⟨-,ht⟩ | ⟨-,-,ht⟩ | ⟨-,-,u,hu,hrest⟩
    · rw [hg.entry_of_view hfat hd ht,hzero]
    · rw [hg.entry_of_view hfat hd ht,hclear]
    · exact ih hclear hu hrest

/-- A loop that comes to cluster 0 ends only by destroying its entry. -/
theorem freeClustersLoop_head {s t : FatState} {r : ℤ} (hs : s.Sees g size current W)
    (hrun : freeClustersLoop E k 0 current s = .ok (r,t)) :
    g.entry W 0 ≠ 0 ∧ g.entry t.dev.blocks 0 = 0 := by
  induction k generalizing s W current with
  | zero => simp [freeClustersLoop] at hrun
  | succ k ih =>
    have hclear : g.entry (g.setEntry W 0 0) 0 = 0 := hg.entry_setEntry_same W ⟨rfl,rfl⟩
    have hmark := hg.marker_pos
    rcases freeClustersLoop_result hE hg hsize hs hrun with ⟨hc,-⟩ | ⟨-,hend,ht⟩ | ⟨-,-,u,hu,hrest⟩
    · exact absurd (.inl hfat) hc
    · refine ⟨by omega,?_⟩
      rw [hg.entry_of_view hfat (by decide) ht,hclear]
    · have hzero := freeClustersLoop_zero hE hg hsize hfat (by decide) hclear hu hrest
      refine ⟨fun h => ?_,hzero⟩
      rw [h] at hrest
      exact (ih hu hrest).1 hclear

/-- A loop that returns and keeps the first two entries has followed links that end. -/
theorem unlinks_of_freeClustersLoop {s t : FatState} {r : ℤ} (hs : s.Sees g size current W)
    (hrun : freeClustersLoop E k c current s = .ok (r,t))
    (hkeep : ∀ d < 2, g.entry t.dev.blocks d = g.entry W d)
    (hW : ∀ d, g.entry W d = g.entry V d ∨ g.entry W d = 0) : ∃ n, g.Unlinks V size n current c := by
  induction k generalizing s W c current with
  | zero => simp [freeClustersLoop] at hrun
  | succ k ih =>
    rcases freeClustersLoop_result hE hg hsize hs hrun with ⟨hc,-⟩ | ⟨hc,hend,ht⟩ | ⟨hc,hlt,u,hu,hrest⟩
    · exact ⟨0,.unreadable hc⟩
    · have hmark := hg.marker_pos
      refine ⟨0,.last hc (fun d hd hcd => ?_) ?_⟩
      · have hclear := hkeep d hd
        rw [hg.entry_of_view hfat hd ht,hg.entry_setEntry_same W hcd,← hcd.entry W] at hclear
        omega
      · rcases hW c with h | h
        · rwa [← h]
        · omega
    · have hne : g.entry W c ≠ 0 := by
        intro hzero
        rw [hzero] at hrest
        obtain ⟨hhead,hlost⟩ := freeClustersLoop_head hE hg hsize hfat hu hrest
        rw [hkeep 0 (by decide)] at hlost
        exact hhead (hg.entry_update_clearEntry W c 0 hlost)
      have hspare : g.Spares c := by
        intro d hd hcd
        have hlost := freeClustersLoop_zero hE hg hsize hfat hd (hg.entry_setEntry_same W hcd) hu hrest
        rw [hkeep d hd,← hcd.entry W] at hlost
        exact hne hlost
      have heq : g.entry W c = g.entry V c := (hW c).resolve_right hne
      obtain ⟨n,hn⟩ := ih hu hrest (fun d hd => by
        rw [hkeep d hd,hg.entry_setEntry_of_not_same W 0 (hspare d hd)]) fun d => by
          by_cases hcd : g.SameEntry c d
          · exact .inr (hg.entry_setEntry_same W hcd)
          · rw [hg.entry_setEntry_of_not_same W 0 hcd]
            exact hW d
      rw [heq] at hn hlt
      exact ⟨n+1,.link hc hspare hlt hn⟩

end Links

end Damaged

/-! ### The whole call -/

/-- `fat_free_clusters` returns, given passes enough, and the entries of clusters 0 and 1 are as before. -/
def FreesSafely (E : Env) (s : FatState) (c : ℕ) : Prop :=
  ∃ n, ∀ fuel ≥ n, (fatFreeClusters { E with fuel := fuel } c).Returns s fun _ t =>
    ∀ d < 2, s.fatfs.entry t.dev.blocks d = s.fatfs.entry s.dev.blocks d

theorem sysLock_sees {E : Env} (hE : E.NoFault) {s : FatState} (hsize : s.dev.size ≤ maxBlock) :
    ∃ t, sysLock E s = .ok (true,t) ∧ t.Sees s.fatfs s.dev.size maxBlock
      (Function.update s.dev.blocks maxBlock s.sysbuf) := by
  obtain ⟨_,t,hrun,rfl,ht,hbuf⟩ := sysLock_returns hE s
  refine ⟨t,hrun,ht.table.fatfs,ht.table.device.size,.inl rfl,fun b hb => ?_,fun _ => ?_⟩
  · rw [FatState.cached,if_pos rfl,ht.blocks,Function.update_of_ne (by omega)]
  · rw [hbuf,Function.update_self]

/-- Exactly when the links from `c` end, `fat_free_clusters` does, sparing the entries of clusters 0
and 1. At first `sysbuf` counts as the block `MAX_BLOCK`. -/
theorem fatFreeClusters_safe {E : Env} (hE : E.NoFault) {s : FatState} (c : ℕ) (hg : s.fatfs.Kind)
    (hsize : s.dev.size ≤ maxBlock) (hfat : s.fatfs.activeFatStart < s.dev.size) :
    FreesSafely E s c ↔ ∃ n, s.fatfs.Unlinks (Function.update s.dev.blocks maxBlock s.sysbuf)
      s.dev.size n maxBlock c := by
  have hmax : s.dev.size ≤ 0xFFFFFFFF := hsize
  have hfirst : s.fatfs.entryBlock 0 < s.dev.size := by
    rw [FatInfo.entryBlock,Nat.zero_mul]
    change u32 (0 + s.fatfs.activeFatStart) < _
    rw [Nat.zero_add,u32_of_lt (by omega)]
    exact hfat
  have hfault (fuel : ℕ) : Env.NoFault { E with fuel := fuel } := ⟨hE.read,hE.write,hE.lock⟩
  set V := Function.update s.dev.blocks maxBlock s.sysbuf with hV
  have hhead {d : ℕ} (hd : d < 2) : s.fatfs.entry s.dev.blocks d = s.fatfs.entry V d :=
    hg.entry_of_view hfirst hd fun b hb => by rw [hV,Function.update_of_ne (by omega)]
  constructor
  · rintro ⟨n,h⟩
    obtain ⟨r,t,hrun,hkeep⟩ := h n (Nat.le_refl n)
    obtain ⟨u,hu,hsees⟩ := sysLock_sees (hfault n) hsize
    rw [fatFreeClusters,bind_of_ok hu,if_pos rfl] at hrun
    exact unlinks_of_freeClustersLoop (hfault n) hg hsize hfirst hsees hrun
      (fun d hd => by rw [hkeep d hd,hhead hd]) fun d => .inl rfl
  · rintro ⟨n,h⟩
    refine ⟨n+1,fun fuel hfuel => ?_⟩
    obtain ⟨u,hu,hsees⟩ := sysLock_sees (hfault fuel) hsize
    refine returns_bind_of_ok hu ?_
    rw [if_pos rfl]
    refine (freeClustersLoop_unlinks (hfault fuel) hg hsize hfirst h (fun d hd => absurd rfl hd)
      (show n < fuel by omega) hsees).mono fun _ t ht d hd => ?_
    rw [ht d hd,hhead hd]

/-- The chain that goes from cluster 3 back to cluster 2 ends. -/
theorem fatFreeClusters_safe_backwards :
    FreesSafely (.calm (fun _ => 0) 8) (.mounted smallFat16 300 backwards) 3 := by
  refine (fatFreeClusters_safe ⟨fun _ => rfl,fun _ => rfl,fun _ => rfl⟩ 3 smallFat16_valid.table.kind
    (by decide) (by decide)).2 ⟨1,?_⟩
  have hspare (c : ℕ) (h : ∀ d < 2, smallFat16.entryOffset c ≠ smallFat16.entryOffset d) :
      smallFat16.Spares c := fun d hd hcd => h d hd hcd.2
  refine .link (.inl (by decide)) (hspare 3 (by decide)) ?_ (.last (.inl ?_) (hspare _ ?_) ?_)
  · decide +kernel
  · decide +kernel
  · decide +kernel
  · decide +kernel

/-- A chain that leads from cluster 2 to the free cluster 3. -/
def freeLink : ℕ → Sector
  | 1 => Sector.ofBytes [0xF8,0xFF,0xFF,0xFF,3]
  | _ => Sector.zero

/-- From there the loop goes on to cluster 0 and destroys its entry. -/
theorem fatFreeClusters_freeLink :
    ¬ FreesSafely (.calm (fun _ => 0) 8) (.mounted smallFat16 300 freeLink) 2 := by
  rintro ⟨n,h⟩
  have hE : Env.NoFault { Env.calm (fun _ => 0) 8 with fuel := n } :=
    ⟨fun _ => rfl,fun _ => rfl,fun _ => rfl⟩
  obtain ⟨r,t,hrun,hkeep⟩ := h n (Nat.le_refl n)
  obtain ⟨u,hu,hsees⟩ := sysLock_sees hE (s := .mounted smallFat16 300 freeLink) (by decide)
  rw [fatFreeClusters,bind_of_ok hu,if_pos rfl] at hrun
  have hentry (c : ℕ) (hc : smallFat16.entryBlock c = 1) (b : Sector) :
      smallFat16.entry (Function.update freeLink maxBlock b) c = smallFat16.entry freeLink c := by
    rw [FatInfo.entry,FatInfo.entry,hc,Function.update_of_ne (by decide)]
  have hend (n current c v : ℕ) (V : ℕ → Sector) (h : smallFat16.Unlinks V 300 n current c)
      (hblk : smallFat16.entryBlock c = 1) (hv : smallFat16.entry V c = v) (hlt : v < 0xFFF0) :
      smallFat16.Spares c ∧ ∃ m current', smallFat16.Unlinks V 300 m current' v := by
    subst hv
    cases h with
    | unreadable hc => exact absurd (.inl (by rw [hblk]; decide)) hc
    | last _ _ hend => exact absurd hend (Nat.not_le_of_lt hlt)
    | link _ hspare _ hrest => exact ⟨hspare,_,_,hrest⟩
  have hkeep' (d : ℕ) (hd : d < 2) : smallFat16.entry t.dev.blocks d =
      smallFat16.entry (Function.update freeLink maxBlock (FatState.mounted smallFat16 300 freeLink).sysbuf)
        d := by
    rw [hentry d (by interval_cases d <;> rfl)]
    exact hkeep d hd
  have hsize : 300 ≤ maxBlock := by decide
  obtain ⟨m,hm⟩ := unlinks_of_freeClustersLoop hE smallFat16_valid.table.kind hsize (by decide) hsees hrun
    hkeep' fun d => .inl rfl
  obtain ⟨-,m,current,hm⟩ := hend m _ 2 3 _ hm rfl ((hentry 2 rfl _).trans (by decide +kernel)) (by decide)
  obtain ⟨-,m,current,hm⟩ := hend m _ 3 0 _ hm rfl ((hentry 3 rfl _).trans (by decide +kernel)) (by decide)
  cases hm with
  | unreadable hc => exact hc (.inl (by decide))
  | last _ hspare => exact hspare 0 (by decide) ⟨rfl,rfl⟩
  | link _ hspare => exact hspare 0 (by decide) ⟨rfl,rfl⟩

end Gristle
