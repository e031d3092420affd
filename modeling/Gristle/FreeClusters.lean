import Gristle.Allocate
import Gristle.Quiet

/-! The free clusters of the table: the search for one is exact, giving a chain back frees that chain
and nothing else, and what becomes of it on a damaged table. -/
namespace Gristle
open Prog

/-! ### Single bytes of the table -/

namespace FatInfo
variable {g : FatInfo}

/-- Byte `i` of block `b` belongs to the entry of cluster `c`. -/
def InEntry (g : FatInfo) (c b i : ℕ) : Prop :=
  b = g.entryBlock c ∧ g.entryOffset c ≤ i ∧ i < g.entryOffset c + g.fatEntryLen

theorem Kind.get_setLink (hg : g.Kind) (b : Sector) {off v i : ℕ} (hoff : off + g.fatEntryLen ≤ 512)
    (hi : i < off ∨ off + g.fatEntryLen ≤ i) : (g.setLink b off v).get i = b.get i := by
  unfold setLink
  rcases hg with ⟨h,hlen,-⟩ | ⟨h,hlen,-⟩ <;> rw [h] <;> rw [hlen] at hoff hi
  · rw [if_pos rfl,Sector.get_setLe16 _ _ _ _ (by change off + 1 < 512; omega),if_neg (by omega),
      if_neg (by omega)]
  · rw [if_neg (by decide)]
    exact Sector.get_setLe32_of_ne _ _ _ _ (by change off + 3 < 512; omega) (by omega)

/-- Storing an entry changes the bytes of the entry only. -/
theorem Kind.get_setEntry (hg : g.Kind) (B : ℕ → Sector) {c v b i : ℕ} (h : ¬ g.InEntry c b i) :
    (g.setEntry B c v b).get i = (B b).get i := by
  unfold setEntry
  by_cases hb : b = g.entryBlock c
  · subst hb
    rw [Function.update_self]
    refine hg.get_setLink _ (hg.entryOffset_lt c) ?_
    by_contra hi
    exact h ⟨rfl,by omega,by omega⟩
  · rw [Function.update_of_ne hb]

theorem Kind.get_cleared (hg : g.Kind) (B : ℕ → Sector) {cs : List ℕ} {b i : ℕ}
    (h : ∀ c ∈ cs, ¬ g.InEntry c b i) : (g.cleared B cs b).get i = (B b).get i := by
  induction cs generalizing B with
  | nil => rfl
  | cons c cs ih =>
    change (g.cleared (g.setEntry B c 0) cs b).get i = _
    rw [ih (g.setEntry B c 0) fun d hd => h d (by simp [hd]),hg.get_setEntry B (h c (by simp))]

end FatInfo

/-! ### The search -/

/-- No block was written in between. -/
def Silent (s t : FatState) : Prop := SameMedium s.dev t.dev

instance : Std.Refl Silent := ⟨fun s => Std.Refl.refl (r := SameMedium) s.dev⟩

instance : IsTrans FatState Silent :=
  ⟨fun s t u h h' => IsTrans.trans (r := SameMedium) s.dev t.dev u.dev h h'⟩

theorem onDevice_silent {α : Type} {x : Prog Device α} (hx : Keeps SameMedium x) :
    Keeps Silent (onDevice x) := by
  intro s a t h
  obtain ⟨d,hd,rfl⟩ := onDevice_ok h
  exact hx _ _ _ hd

theorem readSysbuf_silent (E : Env) (b : ℕ) : Keeps Silent (readSysbuf E b) := by
  refine keeps_bind (onDevice_silent (blockRead_sameMedium E b)) fun o => ?_
  cases o with
  | none => exact keeps_pure _
  | some d => exact keeps_bind (keeps_modify fun _ => Std.Refl.refl _) fun _ => keeps_pure _

section Full
variable (E : Env) {s : FatState} (hg : s.fatfs.Table s.dev.size) (hfull : s.fatfs.Full s.dev.blocks)
include hg hfull

theorem freeClusterLoop_exhausted {n m : ℕ} (hm : m + n = s.fatfs.sectorsPerFat) :
    (freeClusterLoop E n (s.fatfs.activeFatStart + m)).Returns s fun k t =>
      (k = 0 ∨ k = 0xFFFFFFFF) ∧ AfterMedium s t s.dev.blocks ∧ Silent s t := by
  induction n generalizing s m with
  | zero =>
    refine ((sysUnlock_returns s).keeps (onDevice_silent sysUnlock_sameMedium)).bind fun _ t ht => ?_
    exact returns_pure ⟨.inl rfl,ht.1.1,ht.2⟩
  | succ n ih =>
    refine ((readSysbuf_total E _ s).keeps (readSysbuf_silent E _)).bind fun failed t ht => ?_
    obtain ⟨⟨ht,hbuf⟩,hsilent⟩ := ht
    refine returns_ite (fun _ => returns_pure ⟨.inr rfl,ht,hsilent⟩) fun hread =>
      returns_fatfs (returns_sysbuf ?_)
    rw [ht.table.fatfs,hbuf (by simpa using hread)]
    cases hfind : s.fatfs.freeIndex (s.dev.blocks (s.fatfs.activeFatStart + m)) s.fatfs.perBlock 0 with
    | none =>
      have hloop := @ih t (by rw [ht.table.fatfs,ht.table.device.size]; exact hg)
        (by rw [ht.table.fatfs,ht.blocks]; exact hfull) (m+1) (by rw [ht.table.fatfs]; omega)
      rw [ht.table.fatfs,ht.blocks] at hloop
      exact hloop.mono fun k u hu => ⟨hu.1,ht.trans hu.2.1,IsTrans.trans _ _ _ hsilent hu.2.2⟩
    | some j =>
      obtain ⟨-,hj,hzero,-⟩ := FatInfo.freeIndex_some hfind
      obtain ⟨hlt,hblock,hoffset⟩ := hg.entry_in_block (show m < s.fatfs.sectorsPerFat by omega)
        (show j < s.fatfs.perBlock by omega)
      refine absurd ?_ (hfull _ hlt)
      rw [FatInfo.entry,hblock,hoffset]
      exact hzero

/-- Without a free cluster the allocator finds none, whatever transfers fail. -/
theorem fatGetFreeCluster_exhausted : (fatGetFreeCluster E).Returns s fun k t =>
    (k = 0 ∨ k = 0xFFFFFFFF) ∧ AfterMedium s t s.dev.blocks ∧ Silent s t := by
  have hn : u32 (s.fatfs.activeFatStart + s.fatfs.sectorsPerFat) - s.fatfs.activeFatStart =
      s.fatfs.sectorsPerFat := by
    rw [u32_of_lt hg.last,Nat.add_sub_cancel_left]
  refine returns_fatfs (((sysLock_total E s).keeps
    (onDevice_silent (sysLock_sameMedium E))).bind fun granted t ht => ?_)
  obtain ⟨ht,hlock⟩ := ht
  have hloop : (if granted then freeClusterLoop E s.fatfs.sectorsPerFat s.fatfs.activeFatStart
      else pure 0).Returns t fun k u => (k = 0 ∨ k = 0xFFFFFFFF) ∧ AfterMedium s u s.dev.blocks ∧
        Silent s u := by
    refine returns_ite (fun _ => ?_) fun _ => returns_pure ⟨.inl rfl,ht,hlock⟩
    have h := @freeClusterLoop_exhausted E t (by rw [ht.table.fatfs,ht.table.device.size]; exact hg)
      (by rw [ht.table.fatfs,ht.blocks]; exact hfull) s.fatfs.sectorsPerFat 0
      (by rw [ht.table.fatfs,Nat.zero_add])
    rw [ht.table.fatfs,ht.blocks,Nat.add_zero] at h
    exact h.mono fun k u hu => ⟨hu.1,ht.trans hu.2.1,IsTrans.trans _ _ _ hlock hu.2.2⟩
  rw [hn]
  refine hloop.bind fun k u hu => ?_
  refine ((log_returns _ u).keeps (onDevice_silent (log_sameMedium rfl))).bind fun _ v hv => ?_
  obtain ⟨⟨hv,-⟩,hlog⟩ := hv
  rw [hu.2.1.blocks] at hv
  exact returns_pure ⟨hu.1,hu.2.1.trans hv,IsTrans.trans _ _ _ hu.2.2 hlog⟩

end Full

/-- Cluster `k` was taken: it was the first free one, its entry ends a chain now, and no other byte of
the medium is different. -/
structure FatInfo.Takes (g : FatInfo) (B : ℕ → Sector) (k : ℕ) (B' : ℕ → Sector) : Prop where
  least : g.LeastFree B k
  marked : g.entry B' k = g.endMark
  ends : g.next B' k = none
  frame : ∀ b i, ¬ g.InEntry k b i → (B' b).get i = (B b).get i

theorem FatInfo.Table.takes {g : FatInfo} {size : ℕ} (hg : g.Table size) {B : ℕ → Sector} {k : ℕ}
    (hk : g.LeastFree B k) : g.Takes B k (g.setEntry B k g.endMark) := by
  have hmarked : g.entry (g.setEntry B k g.endMark) k = g.endMark :=
    hg.entry_setEntry B hk.inTable hg.kind.endMark_lt
  refine ⟨hk,hmarked,?_,fun b i h => hg.kind.get_setEntry B h⟩
  rw [FatInfo.next,hmarked,if_pos hg.kind.marker_le_endMark]

/-- `fat_get_free_cluster` takes the first free cluster, or reports that there is none and writes
nothing. -/
theorem fatGetFreeCluster_exact {E : Env} (hE : E.NoFault) {s : FatState}
    (hg : s.fatfs.Table s.dev.size) (hzero : s.fatfs.entry s.dev.blocks 0 ≠ 0) :
    (fatGetFreeCluster E).Returns s fun k t => SameTable s t ∧
      (k = 0 ∧ SameMedium s.dev t.dev ↔ s.fatfs.Full s.dev.blocks) ∧
      (¬ s.fatfs.Full s.dev.blocks → k ≠ 0 ∧ s.fatfs.Takes s.dev.blocks k t.dev.blocks) := by
  obtain ⟨k,t,hrun,halloc,-⟩ := fatGetFreeCluster_returns hE hg
  refine ⟨k,t,hrun,?_⟩
  rcases halloc with ⟨hk,ht⟩ | ⟨rfl,hfull,ht⟩
  · have hk₀ : k ≠ 0 := by
      rintro rfl
      exact hzero hk.free
    have hnot : ¬ s.fatfs.Full s.dev.blocks := fun h => h k hk.inTable hk.free
    refine ⟨ht.table,⟨fun h => absurd h.1 hk₀,fun h => absurd h hnot⟩,fun _ => ⟨hk₀,?_⟩⟩
    rw [ht.blocks]
    exact hg.takes hk
  · obtain ⟨k',t',hrun',-,-,hsilent⟩ := fatGetFreeCluster_exhausted E hg hfull
    obtain ⟨rfl,rfl⟩ := Prod.mk.inj (Except.ok.inj (hrun.symm.trans hrun'))
    exact ⟨ht.table,⟨fun _ => hfull,fun _ => ⟨rfl,hsilent⟩⟩,fun h => absurd hfull h⟩

/-- On the volume with one file the search finds cluster 3. -/
theorem fatGetFreeCluster_three : (fatGetFreeCluster (.calm (fun _ => 0) 8)).Returns
    (.mounted smallFat16 300 oneFile) fun k t => k = 3 ∧ smallFat16.Takes oneFile 3 t.dev.blocks := by
  have hfree : smallFat16.LeastFree oneFile 3 :=
    ⟨by decide,by decide +kernel,by decide +kernel⟩
  refine (fatGetFreeCluster_exact ⟨fun _ => rfl,fun _ => rfl,fun _ => rfl⟩ smallFat16_valid.table
    (by decide +kernel)).mono fun k t ht => ?_
  obtain ⟨-,ht⟩ := ht.2.2 fun h => h 3 hfree.inTable hfree.free
  obtain rfl : k = 3 := by
    rcases Nat.lt_trichotomy k 3 with h | h | h
    · exact absurd ht.least.free (hfree.least k h)
    · exact h
    · exact absurd hfree.free (ht.least.least 3 h)
  exact ⟨rfl,ht⟩

/-! ### Giving a chain back -/

/-- `fat_free_clusters` clears the entries of the chain, in whatever order it visits the blocks of the
table, and no other byte of the medium. -/
theorem fatFreeClusters_exact {E : Env} (hE : E.NoFault) {s : FatState} {c : ℕ} {cs : List ℕ}
    (hg : s.fatfs.Table s.dev.size) (hcs : s.fatfs.Chain s.dev.blocks c cs) (hfuel : cs.length ≤ E.fuel) :
    (fatFreeClusters E c).Returns s fun r t => r = 0 ∧ SameTable s t ∧
      (∀ d < s.fatfs.entries, s.fatfs.entry t.dev.blocks d =
        if d ∈ cs then 0 else s.fatfs.entry s.dev.blocks d) ∧
      ∀ b i, (∀ d ∈ cs, ¬ s.fatfs.InEntry d b i) → (t.dev.blocks b).get i = (s.dev.blocks b).get i := by
  refine (fatFreeClusters_returns hE hg hcs hfuel).mono fun r t ht => ⟨ht.1,ht.2.table,?_,?_⟩
  · intro d hd
    rw [ht.2.blocks,hg.entry_cleared _ (fun c hc => (hcs.inRange c hc).2) hd]
  · intro b i h
    rw [ht.2.blocks,hg.kind.get_cleared _ h]

/-- A small volume whose only chain goes from cluster 3 back to cluster 2. -/
def backwards : ℕ → Sector
  | 1 => Sector.ofBytes [0xF8,0xFF,0xFF,0xFF,0xF8,0xFF,2,0,0xF8,0xFF]
  | _ => Sector.zero

theorem fatFreeClusters_backwards : (fatFreeClusters (.calm (fun _ => 0) 8) 3).Returns
    (.mounted smallFat16 300 backwards) fun r t => r = 0 ∧ smallFat16.entry t.dev.blocks 2 = 0 ∧
      smallFat16.entry t.dev.blocks 3 = 0 ∧ smallFat16.entry t.dev.blocks 4 = 0xFFF8 := by
  have hchain : smallFat16.Chain backwards 3 [3,2] := by
    refine ⟨.cons (b := 2) ?_ (.last ?_),by decide⟩
    · decide +kernel
    · decide +kernel
  refine (fatFreeClusters_exact ⟨fun _ => rfl,fun _ => rfl,fun _ => rfl⟩ smallFat16_valid.table hchain
    (by decide)).mono fun r t ht => ?_
  obtain ⟨hr,-,hentry,-⟩ := ht
  have h (d : ℕ) (hd : d < 256) : smallFat16.entry t.dev.blocks d =
    if d ∈ [3,2] then 0 else smallFat16.entry backwards d := hentry d hd
  refine ⟨hr,h 2 (by decide),h 3 (by decide),(h 4 (by decide)).trans ?_⟩
  decide +kernel

end Gristle
