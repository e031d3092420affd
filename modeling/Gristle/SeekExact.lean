import Gristle.Careful
import Gristle.Seek
import Gristle.WriteEffect

/-! `fat_lseek` whatever transfers fail and wherever the chain of the file ends: when its answer is true,
and when it leaves the descriptor where it was. -/
namespace Gristle
open Prog

/-! ### Clusters that the links of the table lead to -/

namespace FatInfo
variable {g : FatInfo} {B B' B'' : ℕ → Sector} {a c d n : ℕ}

/-- `n` links of the table lead from cluster `a` to cluster `c`. -/
inductive Leads (g : FatInfo) (B : ℕ → Sector) (a : ℕ) : ℕ → ℕ → Prop
  | start (inRange : g.InRange a) : Leads g B a 0 a
  | link {n c d : ℕ} (before : Leads g B a n c) (next : g.next B c = some d) (inRange : g.InRange d) :
      Leads g B a (n+1) d

/-- The number of a cluster that is not taken for the end of a chain. -/
def Linkable (g : FatInfo) (c : ℕ) : Prop := g.InRange c ∧ c < g.endClusterMarker

/-- The links between clusters are as before; there may be more of them. -/
def Relinks (g : FatInfo) (B B' : ℕ → Sector) : Prop :=
  ∀ c d, g.InRange c → g.InRange d → g.next B c = some d → g.next B' c = some d

theorem Relinks.refl (g : FatInfo) (B : ℕ → Sector) : g.Relinks B B := fun _ _ _ _ h => h

theorem Relinks.trans (h : g.Relinks B B') (h' : g.Relinks B' B'') : g.Relinks B B'' :=
  fun c d hc hd hnext => h' c d hc hd (h c d hc hd hnext)

theorem Leads.inRange (h : g.Leads B a n c) : g.InRange c := by
  cases h with
  | start inRange => exact inRange
  | link _ _ inRange => exact inRange

theorem Leads.start_inRange (h : g.Leads B a n c) : g.InRange a := by
  induction h with
  | start inRange => exact inRange
  | link _ _ _ ih => exact ih

theorem Leads.mono (h : g.Leads B a n c) (hB : g.Relinks B B') : g.Leads B' a n c := by
  induction h with
  | start inRange => exact .start inRange
  | link before next inRange ih => exact .link ih (hB _ _ before.inRange inRange next) inRange

/-- A link is neither free nor the end of a chain. -/
theorem entry_of_next (h : g.next B c = some d) (hd : g.InRange d) :
    g.entry B c ≠ 0 ∧ g.entry B c < g.endClusterMarker ∧ g.entry B c = d := by
  rw [next] at h
  split at h
  · simp at h
  · have heq := Option.some.inj h
    have h₂ := hd.1
    exact ⟨by omega,by omega,heq⟩

theorem next_congr (h : g.entry B' c = g.entry B c) : g.next B' c = g.next B c := by
  rw [next,next,h]

/-- Entries that are neither free nor the end of a chain are as before. -/
theorem Relinks.of_entries (h : ∀ c < g.entries, g.entry B c ≠ 0 → g.entry B c < g.endClusterMarker →
    g.entry B' c = g.entry B c) : g.Relinks B B' := by
  intro c d hc hd hnext
  obtain ⟨hne,hlt,-⟩ := entry_of_next hnext hd
  rw [next_congr (h c hc.2 hne hlt)]
  exact hnext

variable {size k : ℕ} (hg : g.Valid size)
include hg

/-- Blocks outside the table hold no links. -/
theorem Valid.entry_outside {b : ℕ} (hb : g.Outside b) (h : ∀ x, x ≠ b → B' x = B x) (hc : c < g.entries) :
    g.entry B' c = g.entry B c :=
  hg.table.entry_congr hc fun x hlo hhi => h x fun heq => by
    unfold FatInfo.Outside at hb
    omega

theorem Valid.relinks_marked (hk : g.LeastFree B k) : g.Relinks B (g.setEntry B k g.endMark) := by
  refine .of_entries fun c hc hne _ => hg.table.entry_setEntry_of_ne B hk.inTable hc ?_
  rintro rfl
  exact hne hk.free

/-- A new link behind the end of a chain. -/
theorem Valid.relinks_linked (hk : g.LeastFree B k) (hc : c < g.entries) (hend : g.endClusterMarker ≤ g.entry B c) :
    g.Relinks B (g.linked B c k) := by
  refine .of_entries fun d hd hne hlt => hg.entry_linked B hc hk.inTable hd ?_ ?_
  · rintro rfl
    omega
  · rintro rfl
    exact hne hk.free

end FatInfo

/-! ### The steps of a seek -/

/-- What a step leaves of the descriptor and the table, whatever failed in it. -/
structure Onward (fd : Fd) (s t : FatState) : Prop where
  but : SameBut fd s t
  still : (t.fileNum fd).still = (s.fileNum fd).still
  links : s.fatfs.Relinks s.dev.blocks t.dev.blocks
  reserved : s.fatfs.Reserved s.dev.blocks → s.fatfs.Reserved t.dev.blocks

theorem Onward.refl (fd : Fd) (s : FatState) : Onward fd s s :=
  ⟨Std.Refl.refl _,rfl,FatInfo.Relinks.refl _ _,id⟩

theorem Onward.trans {fd : Fd} {s t u : FatState} (h : Onward fd s t) (h' : Onward fd t u) : Onward fd s u := by
  have hlinks := h'.links
  have hreserved := h'.reserved
  rw [h.but.fatfs] at hlinks hreserved
  exact ⟨IsTrans.trans _ _ _ h.but h'.but,h'.still.trans h.still,h.links.trans hlinks,hreserved ∘ h.reserved⟩

/-- A step that leaves the entries of the table alone. -/
theorem Onward.of_entries {fd : Fd} {s t : FatState} {B : ℕ → Sector} {f : FileS} (h : After fd s t B f)
    (hf : f.still = (s.fileNum fd).still) (hg : s.fatfs.Valid s.dev.size)
    (hB : ∀ c < s.fatfs.entries, s.fatfs.entry B c = s.fatfs.entry s.dev.blocks c) : Onward fd s t where
  but := h.but
  still := by rw [h.file,hf]
  links := by
    rw [h.blocks]
    exact .of_entries fun c hc _ _ => hB c hc
  reserved hr := by
    have := hg.entries_ge
    rw [h.blocks]
    exact ⟨by rw [hB 0 (by omega)]; exact hr.zero,by rw [hB 1 (by omega)]; exact hr.one⟩

/-- A buffer without changes holds its sector. -/
def FileS.Held (B : ℕ → Sector) (f : FileS) : Prop := f.flags.dirty = false → f.Loaded B

/-- The descriptor stands where it stood. -/
structure FileS.SamePlace (f f' : FileS) : Prop where
  sector : f'.sector = f.sector
  cluster : f'.cluster = f.cluster
  left : f'.sectorsLeft = f.sectorsLeft
  cursor : f'.cursor = f.cursor
  fileSector : f'.fileSector = f.fileSector

theorem FileS.SamePlace.trans {f f' f'' : FileS} (h : f.SamePlace f') (h' : f'.SamePlace f'') : f.SamePlace f'' :=
  ⟨h'.sector.trans h.sector,h'.cluster.trans h.cluster,h'.left.trans h.left,h'.cursor.trans h.cursor,
    h'.fileSector.trans h.fileSector⟩

section Steps
variable {E : Env} {fd : Fd} {s : FatState} (hg : s.fatfs.Valid s.dev.size)
include hg

/-- A flush that fails leaves the changes in the buffer. -/
theorem fatFlush_onward {ffi : Fd → FatM ℤ}
    (hplace : (s.fileNum fd).flags.dirty = true → s.fatfs.dataStart ≤ (s.fileNum fd).sector) :
    (fatFlushWith ffi E fd).Returns s fun r t => Onward fd s t ∧
      t.fileNum fd = { s.fileNum fd with flags.dirty := (t.fileNum fd).flags.dirty } ∧
      (r = 0 → (t.fileNum fd).flags.dirty = false) ∧
      ((t.fileNum fd).flags.dirty = true → (s.fileNum fd).flags.dirty = true) ∧
      ((s.fileNum fd).Held s.dev.blocks → (t.fileNum fd).Held t.dev.blocks) := by
  cases hd : (s.fileNum fd).flags.dirty with
  | false =>
    refine ⟨0,s,fatFlushWith_clean hd,Onward.refl fd s,?_,fun _ => hd,fun h => ?_,id⟩
    · rfl
    · rw [hd] at h
      exact h
  | true =>
    have hsector := hplace hd
    have hne : (s.fileNum fd).sector ≠ 0 := by
      have := hg.dataStart_pos
      omega
    refine (fatFlushWith_every E fd hne).mono fun r t ht => ?_
    rcases ht with ⟨hr,ht⟩ | ⟨hr,ht⟩
    · have hdt : (t.fileNum fd).flags.dirty = true := by rw [ht.file,hd]
      refine ⟨.of_entries ht rfl hg fun _ _ => rfl,?_,fun h => absurd h hr,fun _ => rfl,fun _ h => ?_⟩
      · rw [ht.file]
      · rw [hdt] at h
        simp at h
    · have hdt : (t.fileNum fd).flags.dirty = false := by rw [ht.file]; rfl
      refine ⟨.of_entries ht rfl hg fun c hc => hg.entry_flushed hc hsector,?_,fun _ => hdt,fun _ => rfl,fun _ _ => ?_⟩
      · rw [ht.file]
        rfl
      · rw [ht.blocks,ht.file,FileS.flushed,hd,if_pos rfl]
        exact (Function.update_self (s.fileNum fd).sector (s.fileNum fd).buffer s.dev.blocks).symm

variable (hfuel : 0 < E.fuel) (hreserved : s.fatfs.Reserved s.dev.blocks)
  (hcluster : s.fatfs.InRange (s.fileNum fd).cluster) (hentry : (s.fileNum fd).entrySector ≠ 0)
  (hout : s.fatfs.Outside (s.fileNum fd).entrySector)
include hfuel hreserved hcluster hentry hout

/-- What `fat_next_cluster` reports as the number of a cluster is a link of the table, old or new. -/
def NextCluster (fd : Fd) (s : FatState) (p : ℤ × ℤ) (t : FatState) : Prop :=
  Onward fd s t ∧ (s.fileNum fd).SamePlace (t.fileNum fd) ∧
    ((t.fileNum fd).flags.dirty = true → (s.fileNum fd).flags.dirty = true) ∧
    ∀ c : ℕ, p.1 = c → s.fatfs.Linkable c →
      (t.fileNum fd).flags.dirty = false ∧ s.fatfs.next t.dev.blocks (s.fileNum fd).cluster = some c

/-- The part of `fat_next_cluster` behind its flush. -/
theorem extendChain_onward (hclean : (s.fileNum fd).flags.dirty = false)
    (hend : s.fatfs.endClusterMarker ≤ s.fatfs.entry s.dev.blocks (s.fileNum fd).cluster) :
    (extendChain (fatFlushFileinfo E) E fd).Returns s (NextCluster fd s) := by
  refine (extendChain_every E fd hfuel hg hclean hentry hreserved.zero).mono fun p t ht => ?_
  have hentries := hg.entries_ge
  rcases ht with ⟨hp,⟨buf,ht⟩,hB⟩ | ⟨k,hp,hk,⟨buf,mark,ht⟩,hB⟩
  · have hlinks : s.fatfs.Relinks s.dev.blocks t.dev.blocks ∧ s.fatfs.Reserved t.dev.blocks := by
      rcases hB with hB | ⟨k,hk,hB⟩
      · rw [hB]
        exact ⟨.refl _ _,hreserved⟩
      · have hkr := (hk.inRange hreserved).1
        rw [hB]
        refine ⟨hg.relinks_marked hk,?_,?_⟩
        · rw [hg.table.entry_setEntry_of_ne _ hk.inTable (by omega) (by omega)]
          exact hreserved.zero
        · rw [hg.table.entry_setEntry_of_ne _ hk.inTable (by omega) (by omega)]
          exact hreserved.one
    refine ⟨⟨ht.but,by rw [ht.file]; rfl,hlinks.1,fun _ => hlinks.2⟩,by rw [ht.file]; exact ⟨rfl,rfl,rfl,rfl,rfl⟩,
      fun h => by rw [ht.file] at h; exact h,fun c hc => ?_⟩
    rw [hp] at hc
    omega
  · have hkr := hk.inRange hreserved
    have hcr := hcluster.1
    have hentry' (c : ℕ) (hc : c < s.fatfs.entries) : s.fatfs.entry t.dev.blocks c =
        s.fatfs.entry (s.fatfs.linked s.dev.blocks (s.fileNum fd).cluster k) c := hg.entry_outside hout hB hc
    have hkept (c : ℕ) (hc : c < 2) : s.fatfs.entry t.dev.blocks c = s.fatfs.entry s.dev.blocks c := by
      rw [hentry' c (by omega),hg.entry_linked _ hcluster.2 hkr.2 (by omega) (by omega) (by have := hkr.1; omega)]
    refine ⟨⟨ht.but,by rw [ht.file]; rfl,?_,fun hr => ⟨by rw [hkept 0 (by omega)]; exact hr.zero,
      by rw [hkept 1 (by omega)]; exact hr.one⟩⟩,by rw [ht.file]; exact ⟨rfl,rfl,rfl,rfl,rfl⟩,
      fun h => by rw [ht.file] at h; exact h,fun c hc hcl => ⟨by rw [ht.file]; exact hclean,?_⟩⟩
    · exact (hg.relinks_linked hk hcluster.2 hend).trans (.of_entries fun c hc _ _ => hentry' c hc)
    · obtain rfl : k = c := by
        rw [hp] at hc
        exact_mod_cast hc
      have hval : s.fatfs.entry t.dev.blocks (s.fileNum fd).cluster = k := by
        rw [hentry' _ hcluster.2,FatInfo.linked,hg.table.entry_setEntry _ hcluster.2 (hg.cluster_lt hkr.2)]
      rw [FatInfo.next,hval,if_neg (Nat.not_le_of_lt hcl.2)]

omit hfuel hreserved hcluster hentry hout in
theorem NextCluster.failed {t : FatState} {buf : Sector} {e : ℕ} {n : ℤ}
    (ht : After fd s t s.dev.blocks { s.fileNum fd with buffer := buf, error := e }) :
    NextCluster fd s (-1,n) t := by
  refine ⟨.of_entries ht rfl hg fun _ _ => rfl,by rw [ht.file]; exact ⟨rfl,rfl,rfl,rfl,rfl⟩,
    fun h => by rw [ht.file] at h; exact h,fun c hc => ?_⟩
  have hc : (-1 : ℤ) = c := hc
  omega

/-- `fat_next_cluster` with nothing to write back. -/
theorem fatNextCluster_clean (hclean : (s.fileNum fd).flags.dirty = false) :
    (fatNextCluster E fd).Returns s (NextCluster fd s) := by
  have hone : (s.fileNum fd).cluster ≠ 1 := by
    have := hcluster.1
    omega
  refine returns_bind_of_ok (fatFlushWith_clean hclean) (returns_ite (by simp) fun _ => ?_)
  refine returns_fatfs (returns_file (returns_ite (fun h => absurd h hone) fun _ => ?_))
  refine (readBuffer_every E fd _ s).bind fun failed t ht => ?_
  obtain ⟨buf,ht,hbuf⟩ := ht
  have hfailed {u : FatState} {buf : Sector} {e : ℕ} {n : ℤ}
      (hu : After fd s u s.dev.blocks { s.fileNum fd with buffer := buf, error := e }) : NextCluster fd s (-1,n) u :=
    NextCluster.failed hg hu
  refine returns_ite (fun _ => returns_pure (hfailed ht)) fun hread => returns_file ?_
  rw [hbuf (Bool.eq_false_iff.2 hread)] at ht
  rw [ht.file]
  dsimp only
  rw [entryAt_block]
  refine returns_ite (fun _ => ?_) fun htwo => returns_ite (fun hend => returns_ite (fun _ => ?_) fun _ => ?_) fun hlt => ?_
  · refine (updateFile_returns fd _ t).bind fun _ u hu => returns_pure ?_
    rw [ht.blocks,ht.file] at hu
    exact hfailed (ht.trans hu)
  · have hrun := @extendChain_onward E fd t (by rw [ht.fatfs,ht.size]; exact hg) hfuel
      (by rw [ht.fatfs,ht.blocks]; exact hreserved) (by rw [ht.fatfs,ht.file]; exact hcluster)
      (by rw [ht.file]; exact hentry) (by rw [ht.fatfs,ht.file]; exact hout) (by rw [ht.file]; exact hclean)
      (by rw [ht.fatfs,ht.blocks,ht.file]; exact hend)
    refine hrun.mono fun p u hu => ?_
    have hst : Onward fd s t := .of_entries ht rfl hg fun _ _ => rfl
    obtain ⟨hu,hplace,hdirty,hnext⟩ := hu
    rw [ht.fatfs,ht.file] at hnext
    rw [ht.file] at hplace hdirty
    exact ⟨hst.trans hu,⟨hplace.sector,hplace.cluster,hplace.left,hplace.cursor,hplace.fileSector⟩,hdirty,hnext⟩
  · refine (updateFile_returns fd _ t).bind fun _ u hu => returns_pure ?_
    rw [ht.blocks,ht.file] at hu
    exact hfailed (ht.trans hu)
  · refine returns_pure ⟨.of_entries ht rfl hg fun _ _ => rfl,by rw [ht.file]; exact ⟨rfl,rfl,rfl,rfl,rfl⟩,
      fun h => by rw [ht.file] at h; exact h,fun c hc _ => ⟨by rw [ht.file]; exact hclean,?_⟩⟩
    have hval : i32 (s.fatfs.entry s.dev.blocks (s.fileNum fd).cluster) = (c : ℤ) := hc
    have hmark := hg.table.kind.marker_lt
    rw [i32_of_lt (by omega)] at hval
    rw [ht.blocks,FatInfo.next,if_neg hlt]
    exact congrArg some (by exact_mod_cast hval)

/-- `fat_next_cluster`, whatever fails in it. -/
theorem fatNextCluster_onward
    (hplace : (s.fileNum fd).flags.dirty = true → s.fatfs.dataStart ≤ (s.fileNum fd).sector) :
    (fatNextCluster E fd).Returns s (NextCluster fd s) := by
  obtain ⟨r,t,hrun,ht,hfile,hr,hdirty,-⟩ := @fatFlush_onward E fd s hg (fatFlushFileinfo E) hplace
  have hat : (s.fileNum fd).SamePlace (t.fileNum fd) := by
    rw [hfile]
    exact ⟨rfl,rfl,rfl,rfl,rfl⟩
  by_cases hzero : r = 0
  · -- once the buffer is clean a flush does nothing
    have hclean := hr hzero
    have hagain : fatNextCluster E fd s = fatNextCluster E fd t := by
      rw [fatNextCluster,fatNextClusterWith,bind_of_ok hrun,bind_of_ok (fatFlushWith_clean hclean),hzero]
    have hnext := @fatNextCluster_clean E fd t (by rw [ht.but.fatfs,ht.but.size]; exact hg) hfuel
      (by rw [ht.but.fatfs]; exact ht.reserved hreserved) (by rw [ht.but.fatfs,hat.cluster]; exact hcluster)
      (by rw [hfile]; exact hentry) (by rw [ht.but.fatfs,hfile]; exact hout) hclean
    rw [Returns,hagain]
    refine hnext.mono fun p u hu => ?_
    obtain ⟨hu,hplace',hd,hnext⟩ := hu
    rw [ht.but.fatfs,hat.cluster] at hnext
    exact ⟨ht.trans hu,hat.trans hplace',fun h => hdirty (hd h),hnext⟩
  · refine ⟨(-1,eIo),t,?_,ht,hat,hdirty,fun c hc => ?_⟩
    · rw [fatNextCluster,fatNextClusterWith,bind_of_ok hrun,run_ite,if_pos hzero]
      rfl
    · have hc : (-1 : ℤ) = c := hc
      omega

end Steps

/-! ### Where the descriptor comes to -/

/-- The links of the table lead from the first cluster to the cluster of the descriptor, and its sector is
the one of its position there. -/
structure FileS.Placed (g : FatInfo) (B : ℕ → Sector) (f : FileS) : Prop where
  leads : g.Leads B f.fullFirstCluster (f.fileSector / g.sectorsPerCluster) f.cluster
  sector : f.sector = g.clusterSector f.cluster (f.fileSector % g.sectorsPerCluster)
  left : f.sectorsLeft = g.sectorsPerCluster - 1 - f.fileSector % g.sectorsPerCluster

/-- The descriptor of a file that has an entry. -/
structure FileS.Entered (g : FatInfo) (f : FileS) : Prop where
  entry : f.entrySector ≠ 0
  outside : g.Outside f.entrySector

theorem FileS.Entered.of_still {g : FatInfo} {f f' : FileS} (h : f.Entered g) (hf : f'.still = f.still) : f'.Entered g := by
  have hsector := FileS.field_of_still FileS.entrySector (fun _ => rfl) hf
  exact ⟨by rw [hsector]; exact h.entry,by rw [hsector]; exact h.outside⟩

/-- The walk finds a cluster in each of `n` steps, and then `P` holds. -/
def WalkSucceeds (E : Env) (fd : Fd) (P : FatState → Prop) : ℕ → FatState → Prop
  | 0, s => P s
  | n+1, s => (fatNextCluster E fd).Every s fun p t => ∃ c : ℕ, p.1 = c ∧ s.fatfs.Linkable c ∧
      WalkSucceeds E fd P n (t.setFile fd { t.fileNum fd with cluster := c })

section Walk
variable {E : Env} (hfuel : 0 < E.fuel) {fd : Fd} {s : FatState}
include hfuel

/-- A walk that succeeds follows the links. -/
theorem walkClusters_leads {P : FatState → Prop} {a i n : ℕ} {e : ℤ} (hg : s.fatfs.Valid s.dev.size)
    (hreserved : s.fatfs.Reserved s.dev.blocks) (hentered : (s.fileNum fd).Entered s.fatfs)
    (hplace : (s.fileNum fd).flags.dirty = true → s.fatfs.dataStart ≤ (s.fileNum fd).sector)
    (hleads : s.fatfs.Leads s.dev.blocks a i (s.fileNum fd).cluster) (hw : WalkSucceeds E fd P n s) :
    (walkClusters E fd n e).Returns s fun _ t => Onward fd s t ∧ P t ∧
      s.fatfs.Leads t.dev.blocks a (i+n) (t.fileNum fd).cluster := by
  induction n generalizing s i e with
  | zero => exact returns_pure ⟨Onward.refl fd s,hw,hleads⟩
  | succ n ih =>
    obtain ⟨p,t,hrun,ht,hat,hdirty,hnext⟩ := fatNextCluster_onward hg hfuel hreserved hleads.inRange hentered.entry
      hentered.outside hplace
    obtain ⟨c,hpc,hcl,hrest⟩ := hw p t hrun
    obtain ⟨hclean,hlink⟩ := hnext c hpc hcl
    have hle := hg.entries_le
    have hlt := hcl.1.2
    have hset := updateFile_after fd (fun f => { f with cluster := c }) t
    set u := t.setFile fd { t.fileNum fd with cluster := c }
    have hgt : t.fatfs.Valid t.dev.size := by
      rw [ht.but.fatfs,ht.but.size]
      exact hg
    have htu : Onward fd t u := .of_entries hset rfl hgt fun _ _ => rfl
    have hsu := ht.trans htu
    have hgu := hsu.but.fatfs
    have hcluster : (u.fileNum fd).cluster = c := by rw [hset.file]
    have hdirtyu : (u.fileNum fd).flags.dirty = false := by
      rw [hset.file]
      exact hclean
    have hblocks : u.dev.blocks = t.dev.blocks := hset.blocks
    have hrec := @ih u (i+1) p.2 (by rw [hgu,hsu.but.size]; exact hg) (by rw [hgu]; exact hsu.reserved hreserved)
      (by rw [hgu]; exact hentered.of_still hsu.still) (by rw [hdirtyu]; simp)
      (by rw [hgu,hblocks,hcluster]; exact .link (hleads.mono ht.links) hlink hcl.1) hrest
    refine returns_bind_of_ok hrun ?_
    have hstep : updateFile fd (fun f => { f with cluster := u32OfInt p.1 }) t = .ok ((),u) := by
      rw [hpc,u32OfInt_natCast (by omega)]
      rfl
    refine returns_bind_of_ok hstep (hrec.mono fun r v hv => ?_)
    obtain ⟨hv,hP,hleads'⟩ := hv
    rw [hgu,Nat.add_assoc,Nat.add_comm 1 n] at hleads'
    exact ⟨hsu.trans hv,hP,hleads'⟩

end Walk

/-! ### The next sector -/

theorem FatInfo.Valid.sector_mod (g : FatInfo) {q : ℕ} (h : q % g.sectorsPerCluster + 1 < g.sectorsPerCluster) :
    (q + 1) / g.sectorsPerCluster = q / g.sectorsPerCluster ∧
      (q + 1) % g.sectorsPerCluster = q % g.sectorsPerCluster + 1 := by
  have hq := Nat.div_add_mod q g.sectorsPerCluster
  have hadd : q + 1 = g.sectorsPerCluster * (q / g.sectorsPerCluster) + (q % g.sectorsPerCluster + 1) := by omega
  constructor
  · rw [hadd,Nat.mul_add_div (by omega),Nat.div_eq_of_lt h,Nat.add_zero]
  · rw [hadd,Nat.mul_add_mod,Nat.mod_eq_of_lt h]

theorem FatInfo.Valid.sector_turn (g : FatInfo) {q : ℕ} (h : q % g.sectorsPerCluster + 1 = g.sectorsPerCluster) :
    (q + 1) / g.sectorsPerCluster = q / g.sectorsPerCluster + 1 ∧ (q + 1) % g.sectorsPerCluster = 0 := by
  have hq := Nat.div_add_mod q g.sectorsPerCluster
  have hpos : 0 < g.sectorsPerCluster := by omega
  have hadd : q + 1 = g.sectorsPerCluster * (q / g.sectorsPerCluster + 1) := by
    rw [Nat.mul_add,Nat.mul_one]
    omega
  constructor
  · rw [hadd,Nat.mul_div_cancel_left _ hpos]
  · rw [hadd,Nat.mul_mod_right]

/-- The descriptor has turned to the next sector, in a cluster that can be linked if it is another one. -/
def Turned (g : FatInfo) (f f' : FileS) : Prop :=
  f'.fileSector = f.fileSector + 1 ∧ (f.sectorsLeft = 0 → g.Linkable f'.cluster)

/-- What `fat_next_sector` leaves, whatever fails in it. -/
structure NextSector (fd : Fd) (s : FatState) (failed : Bool) (t : FatState) : Prop where
  onward : Onward fd s t
  place : (t.fileNum fd).flags.dirty = true → s.fatfs.dataStart ≤ (t.fileNum fd).sector
  turned : Turned s.fatfs (s.fileNum fd) (t.fileNum fd) → (t.fileNum fd).Placed s.fatfs t.dev.blocks ∧
    (t.fileNum fd).cursor = 0 ∧ (t.fileNum fd).flags.dirty = false
  loaded : failed = false → (t.fileNum fd).Loaded t.dev.blocks

section NextSector
variable {E : Env} (hfuel : 0 < E.fuel) {fd : Fd} {s : FatState} (hg : s.fatfs.Valid s.dev.size)
  (hplaced : (s.fileNum fd).Placed s.fatfs s.dev.blocks)
include hg hplaced

omit hg in
theorem FileS.Placed.dataStart_le : s.fatfs.dataStart ≤ (s.fileNum fd).sector := by
  rw [hplaced.sector]
  exact FatInfo.Valid.dataStart_le _ _

omit hg in
/-- A step that has come no further. -/
theorem NextSector.stuck {t : FatState} (ht : Onward fd s t) (hat : (s.fileNum fd).SamePlace (t.fileNum fd)) :
    NextSector fd s true t where
  onward := ht
  place _ := by
    rw [hat.sector]
    exact hplaced.dataStart_le
  turned h := by
    have := h.1
    rw [hat.fileSector] at this
    omega
  loaded := by simp

/-- Within a cluster. -/
theorem fatNextSector_within (hclean : (s.fileNum fd).flags.dirty = false) (hleft : 0 < (s.fileNum fd).sectorsLeft)
    (hsmall : (s.fileNum fd).fileSector + 1 < 2^32) : (fatNextSector E fd).Returns s (NextSector fd s) := by
  refine returns_bind_of_ok (fatFlushWith_clean hclean) (returns_ite (by simp) fun _ => returns_file ?_)
  rw [if_pos hleft]
  refine (updateFile_returns fd _ s).bind fun _ t ht => returns_file ?_
  rw [u32_of_lt hsmall] at ht
  rw [ht.file]
  refine (readBuffer_every E fd _ t).mono fun failed u hu => ?_
  obtain ⟨buf,hu,hbuf⟩ := hu
  rw [ht.blocks,ht.file] at hu
  rw [ht.blocks] at hbuf
  have hsu := ht.trans hu
  have hcr := hplaced.leads.inRange
  rw [hplaced.left] at hleft
  have hmod : (s.fileNum fd).fileSector % s.fatfs.sectorsPerCluster + 1 < s.fatfs.sectorsPerCluster := by omega
  obtain ⟨hdiv,hnext⟩ := FatInfo.Valid.sector_mod s.fatfs hmod
  have hsector : u32 ((s.fileNum fd).sector + 1) = s.fatfs.clusterSector (s.fileNum fd).cluster
      ((s.fileNum fd).fileSector % s.fatfs.sectorsPerCluster + 1) := by
    have hlt := hg.clusterSector_lt hcr hmod
    have hsize := hg.size
    rw [hplaced.sector]
    exact u32_of_lt (by unfold FatInfo.clusterSector at *; omega)
  have hdirty : (u.fileNum fd).flags.dirty = false := by
    rw [hsu.file]
    exact hclean
  refine ⟨.of_entries hsu rfl hg fun _ _ => rfl,by rw [hdirty]; simp,fun _ => ⟨?_,by rw [hsu.file],hdirty⟩,fun hread => ?_⟩
  · rw [hsu.file,hsu.blocks]
    refine ⟨?_,?_,?_⟩
    · change s.fatfs.Leads s.dev.blocks _ (((s.fileNum fd).fileSector + 1) / _) _
      rw [hdiv]
      exact hplaced.leads
    · change u32 ((s.fileNum fd).sector + 1) = s.fatfs.clusterSector _ (((s.fileNum fd).fileSector + 1) % _)
      rw [hsector,hnext]
    · change (s.fileNum fd).sectorsLeft - 1 = _ - 1 - ((s.fileNum fd).fileSector + 1) % _
      rw [hnext,hplaced.left]
      omega
  · rw [hsu.file,hsu.blocks]
    exact hbuf hread

/-- Into the next cluster. -/
theorem fatNextSector_across (hfuel : 0 < E.fuel) (hreserved : s.fatfs.Reserved s.dev.blocks)
    (hentered : (s.fileNum fd).Entered s.fatfs) (hclean : (s.fileNum fd).flags.dirty = false)
    (hleft : (s.fileNum fd).sectorsLeft = 0) :
    (fatNextSector E fd).Returns s (NextSector fd s) := by
  have hcr := hplaced.leads.inRange
  refine returns_bind_of_ok (fatFlushWith_clean hclean) (returns_ite (by simp) fun _ => returns_file ?_)
  rw [if_neg (by omega)]
  refine (fatNextCluster_onward hg hfuel hreserved hcr hentered.entry hentered.outside (by rw [hclean]; simp)).bind
    fun p t ht => ?_
  obtain ⟨ht,hat,hdirty,hnext⟩ := ht
  refine returns_ite (fun hp => ?_) fun _ => returns_pure (NextSector.stuck hplaced ht hat)
  refine (updateFile_returns fd _ t).bind fun _ u hu => ?_
  have hgt := ht.but.fatfs
  have hut : u.fatfs = s.fatfs := hu.fatfs.trans hgt
  have hus : (u.fileNum fd).still = (t.fileNum fd).still := by
    rw [hu.file]
    rfl
  refine (fatSelectCluster_every E fd p.1.toNat u).mono fun failed v hv => ?_
  obtain ⟨buf,hv,hbuf⟩ := hv
  rw [hut,hu.blocks] at hv hbuf
  have htv := hu.trans hv
  have hvalid : t.fatfs.Valid t.dev.size := by
    rw [hgt,ht.but.size]
    exact hg
  have hstill : (FileS.select s.fatfs p.1.toNat (u.fileNum fd)).still = (t.fileNum fd).still :=
    (FileS.still_select _ _ _).trans hus
  have honward := ht.trans (.of_entries htv hstill hvalid fun _ _ => rfl)
  have hfile : v.fileNum fd = { (u.fileNum fd).select s.fatfs p.1.toNat with buffer := buf } := hv.file
  have hflags : (v.fileNum fd).flags.dirty = false := by
    rw [hfile]
    change ((u.fileNum fd).select s.fatfs p.1.toNat).flags.dirty = false
    rw [FileS.flags_select,hu.file]
    exact Bool.eq_false_iff.2 fun h => by simp [hclean] at hdirty; simp [hdirty] at h
  refine ⟨honward,by rw [hflags]; simp,fun h => ?_,fun hread => ?_⟩
  · have hcluster : (v.fileNum fd).cluster = p.1.toNat := by
      rw [hfile]
      unfold FileS.select
      split
      · exact (‹p.1.toNat = 1›).symm
      · rfl
    have hcl := h.2 hleft
    rw [hcluster] at hcl
    obtain ⟨-,hlink⟩ := hnext p.1.toNat (by omega) hcl
    have hone : p.1.toNat ≠ 1 := by
      have := hcl.1.1
      omega
    have hselect : v.fileNum fd = { u.fileNum fd with
        sector := s.fatfs.firstSector p.1.toNat
        sectorsLeft := u8 (s.fatfs.sectorsPerCluster + 2^8 - 1)
        cluster := p.1.toNat, cursor := 0, buffer := buf } := by
      rw [hfile,FileS.select,if_neg hone]
    have hpos := hg.spc_pos
    have hle := hg.spc_le
    have hmodlt := Nat.mod_lt (s.fileNum fd).fileSector hpos
    rw [hplaced.left] at hleft
    obtain ⟨hdiv,hmod⟩ := FatInfo.Valid.sector_turn s.fatfs (q := (s.fileNum fd).fileSector) (by omega)
    have hfirst := FileS.field_of_still FileS.fullFirstCluster (fun _ => rfl) honward.still
    refine ⟨⟨?_,?_,?_⟩,by rw [hselect],hflags⟩
    · rw [h.1,hdiv,hcluster,hfirst,htv.blocks]
      exact .link (hplaced.leads.mono ht.links) hlink hcl.1
    · rw [h.1,hmod,hcluster,← hg.firstSector_eq hcl.1,hselect]
    · rw [h.1,hmod,hselect]
      change u8 (s.fatfs.sectorsPerCluster + 2^8 - 1) = _
      unfold u8
      omega
  · change (v.fileNum fd).buffer = _
    rw [htv.blocks,hfile]
    exact hbuf hread

/-- `fat_next_sector`, whatever fails in it. -/
theorem fatNextSector_onward (hfuel : 0 < E.fuel) (hreserved : s.fatfs.Reserved s.dev.blocks)
    (hentered : (s.fileNum fd).Entered s.fatfs) (hsmall : (s.fileNum fd).fileSector + 1 < 2^32) :
    (fatNextSector E fd).Returns s (NextSector fd s) := by
  obtain ⟨r,t,hrun,ht,hfile,hr,hdirty,-⟩ := @fatFlush_onward E fd s hg (fatFlushFileinfo E)
    fun _ => hplaced.dataStart_le
  have hat : (s.fileNum fd).SamePlace (t.fileNum fd) := by
    rw [hfile]
    exact ⟨rfl,rfl,rfl,rfl,rfl⟩
  by_cases hzero : r = 0
  · have hclean := hr hzero
    have hagain : fatNextSector E fd s = fatNextSector E fd t := by
      rw [fatNextSector,fatNextSectorWith,bind_of_ok hrun,bind_of_ok (fatFlushWith_clean hclean),hzero]
    have hgt := ht.but.fatfs
    have hplaced' : (t.fileNum fd).Placed t.fatfs t.dev.blocks := by
      rw [hgt,hfile]
      exact ⟨hplaced.leads.mono ht.links,hplaced.sector,hplaced.left⟩
    have hvalid : t.fatfs.Valid t.dev.size := by
      rw [hgt,ht.but.size]
      exact hg
    have hnext : (fatNextSector E fd).Returns t (NextSector fd t) := by
      by_cases hleft : 0 < (t.fileNum fd).sectorsLeft
      · exact fatNextSector_within hvalid hplaced' hclean hleft (by rw [hat.fileSector]; exact hsmall)
      · exact fatNextSector_across hvalid hplaced' hfuel (by rw [hgt]; exact ht.reserved hreserved)
          (by rw [hgt]; exact hentered.of_still ht.still) hclean (by omega)
    rw [Returns,hagain]
    refine hnext.mono fun failed u hu => ⟨ht.trans hu.onward,by rw [← hgt]; exact hu.place,fun h => ?_,hu.loaded⟩
    rw [← hgt]
    refine hu.turned ⟨by rw [hat.fileSector]; exact h.1,fun hl => ?_⟩
    rw [hgt]
    exact h.2 (by rw [← hat.left]; exact hl)
  · refine ⟨true,t,?_,NextSector.stuck hplaced ht hat⟩
    rw [fatNextSector,fatNextSectorWith,bind_of_ok hrun,run_ite,if_pos hzero]
    rfl

end NextSector

/-! ### The seek -/

/-- The descriptor stands at its position and its buffer holds the sector there, unless the file is empty and
nothing was written to it. -/
def FileS.Seated (g : FatInfo) (B : ℕ → Sector) (f : FileS) : Prop :=
  f.size = 0 ∧ f.flags.dirty = false ∧ f.offset = 0 ∨
    f.Placed g B ∧ f.Held B ∧ f.Entered g ∧ f.cursor ≤ 512

/-- The answer `ptr-1` means that the descriptor has not moved to byte `p`; it is where it was. Any other
answer is `p`, and the buffer holds the sector of this byte. -/
structure LseekExact (fd : Fd) (ptr : ℤ) (p : ℕ) (s t : FatState) (r : ℤ) : Prop where
  failure : r = ptr - 1 ↔ (t.fileNum fd).offset ≠ p
  stayed : r = ptr - 1 → (t.fileNum fd).offset = (s.fileNum fd).offset ∧
    (t.fileNum fd).Seated t.fatfs t.dev.blocks
  moved : r ≠ ptr - 1 → r = p ∧ (t.fileNum fd).cursor < 512 ∧ (t.fileNum fd).Seated t.fatfs t.dev.blocks

/-- The calls on the way of a seek to byte `p` succeed: in the same sector that of `fat_next_sector` which a
used up sector makes necessary, elsewhere in the same cluster that of `block_read` as well, if
`fat_next_sector` has found the sector, and otherwise each `fat_next_cluster` and the `block_read`. -/
def SeekSucceeds (E : Env) (fd : Fd) (p : ℕ) (s : FatState) : Prop :=
  (fatFlush E fd).Every s fun _ t => (turnSector E fd).Every t fun failed u =>
    let o := (s.fileNum fd).offset
    let turned := (s.fileNum fd).cursor = 512 → Turned s.fatfs (s.fileNum fd) (u.fileNum fd)
    if o / 512 = p / 512 then failed = false ∧ turned
    else if p / 512 / s.fatfs.sectorsPerCluster = o / 512 / s.fatfs.sectorsPerCluster then
      turned ∧ E.readFails u.dev.tick = false
    else WalkSucceeds E fd (fun v => E.readFails v.dev.tick = false) (p / 512 / s.fatfs.sectorsPerCluster)
      (u.setFile fd { u.fileNum fd with cluster := (u.fileNum fd).fullFirstCluster })

/-- The descriptor has moved to byte `p`. -/
structure Sought (g : FatInfo) (B : ℕ → Sector) (p : ℕ) (f : FileS) : Prop where
  offset : f.offset = p
  cursor : f.cursor < 512
  seated : f.Seated g B

section Seek
variable {E : Env} {fd : Fd} {s : FatState}

theorem readBuffer_reads {b : ℕ} (h : E.readFails s.dev.tick = false) (hb : b < s.dev.size) :
    (readBuffer E fd b).Returns s fun failed t => failed = false ∧
      After fd s t s.dev.blocks { s.fileNum fd with buffer := s.dev.blocks b } := by
  have hread : (Device.blockRead E b).Returns s.dev fun o e => o = some (s.dev.blocks b) ∧ e.blocks = s.dev.blocks :=
    ⟨_,_,rfl,if_neg (by simp [h,hb]),rfl⟩
  obtain ⟨failed,t,ht,hf⟩ : (readBuffer E fd b).Returns s fun failed _ => failed = false := by
    refine (onDevice_returns hread).bind fun o t ho => ?_
    obtain ⟨⟨rfl,-⟩,-⟩ := ho
    exact (updateFile_returns fd _ t).bind fun _ _ _ => returns_pure rfl
  exact ⟨failed,t,ht,hf,((readBuffer_result ht).resolve_left fun h => by simp [hf] at h).2⟩

/-- The number that stands for a failure is no target. -/
theorem FileS.target_ne {f : FileS} {ptr : ℤ} {dir : Whence} (hsize : f.size < 2^31) (hoff : f.offset < 2^31) :
    (f.target ptr dir : ℤ) ≠ ptr - 1 := by
  have hbase (b : ℕ) (hb : b < 2^31) : (u32OfInt (b + ptr) : ℤ) ≠ ptr - 1 := by
    unfold u32OfInt
    omega
  cases dir with
  | set =>
    have := hbase 0 (by decide)
    simpa [target] using this
  | cur =>
    have := hbase f.offset hoff
    simpa [target,offset] using this
  | end_ => exact hbase f.size hsize

variable {ptr : ℤ} {o p : ℕ}

/-- In the same sector. -/
theorem seekRest_sector {g : FatInfo} (hsame : o / 512 = p / 512) (hf : (s.fileNum fd).Seated g s.dev.blocks)
    (hsector : (s.fileNum fd).fileSector = p / 512)
    (hp : p ≤ (s.fileNum fd).size) : (seekRest E g fd ptr o p).Returns s fun r t => r.1 = i32 p ∧
      Sought g t.dev.blocks p (t.fileNum fd) := by
  refine returns_ite (fun _ => ?_) fun h => absurd hsame h
  refine (updateFile_returns fd _ s).bind fun _ t ht => returns_pure ⟨rfl,?_⟩
  have hmod : p % 512 < 512 := Nat.mod_lt _ (by decide)
  have hoffset : (s.fileNum fd).fileSector * 512 + p % 512 = p := by
    rw [hsector]
    exact Nat.div_add_mod' p 512
  rw [ht.blocks,ht.file]
  refine ⟨hoffset,hmod,?_⟩
  rcases hf with ⟨hzero,hclean,-⟩ | ⟨hplaced,hheld,hentered,-⟩
  · refine .inl ⟨hzero,hclean,hoffset.trans ?_⟩
    omega
  · exact .inr ⟨⟨hplaced.leads,hplaced.sector,hplaced.left⟩,hheld,hentered.of_still rfl,hmod.le⟩

/-- Some sectors forward or back in the same cluster. -/
theorem seekRest_cluster (hg : s.fatfs.Valid s.dev.size) (hother : o / 512 ≠ p / 512)
    (hsame : p / 512 / s.fatfs.sectorsPerCluster = o / 512 / s.fatfs.sectorsPerCluster)
    (hf : (s.fileNum fd).Placed s.fatfs s.dev.blocks) (hentered : (s.fileNum fd).Entered s.fatfs)
    (hsector : (s.fileNum fd).fileSector = o / 512) (ho : o < 2^31) (hp : p < 2^31)
    (hread : E.readFails s.dev.tick = false) :
    (seekRest E s.fatfs fd ptr o p).Returns s fun r t => r.1 = i32 p ∧
      Sought s.fatfs t.dev.blocks p (t.fileNum fd) := by
  have hcr := hf.leads.inRange
  have hpos := hg.spc_pos
  have hspc := hg.spc_le
  have hsize := hg.size
  have h₁ := Nat.div_add_mod (p / 512) s.fatfs.sectorsPerCluster
  have h₂ := Nat.div_add_mod (o / 512) s.fatfs.sectorsPerCluster
  have h₃ := Nat.mod_lt (p / 512) hpos
  have h₄ := Nat.mod_lt (o / 512) hpos
  rw [hsame] at h₁
  have hlt := hg.clusterSector_lt hcr h₃
  have hsec : u32 ((s.fileNum fd).sector + p / 512 + 2^32 - o / 512) =
      s.fatfs.clusterSector (s.fileNum fd).cluster (p / 512 % s.fatfs.sectorsPerCluster) := by
    rw [hf.sector,hsector]
    unfold FatInfo.clusterSector u32 at *
    omega
  have hleft : u8 ((s.fileNum fd).sectorsLeft + o / 512 + 2^32 - p / 512) =
      s.fatfs.sectorsPerCluster - 1 - p / 512 % s.fatfs.sectorsPerCluster := by
    rw [hf.left,hsector]
    unfold u8
    omega
  change Returns (if o / 512 = p / 512 then _ else _) _ _
  refine returns_ite (fun h => absurd h hother) fun _ => ?_
  rw [FatInfo.cluster_of_byte,FatInfo.cluster_of_byte]
  refine returns_ite (fun _ => ?_) fun h => absurd hsame h
  set f : FileS := { s.fileNum fd with
    fileSector := p / 512
    sector := u32 ((s.fileNum fd).sector + p / 512 + 2^32 - o / 512)
    sectorsLeft := u8 ((s.fileNum fd).sectorsLeft + o / 512 + 2^32 - p / 512)
    cursor := p % 512 } with hdef
  have hset : After fd s (s.setFile fd f) s.dev.blocks f := updateFile_after fd (fun _ => f) s
  refine Returns.bind (Q := fun _ t => t = s.setFile fd f) ⟨(),_,rfl,rfl⟩ fun _ t ht => ?_
  subst ht
  refine returns_file ?_
  have hfsec : ((s.setFile fd f).fileNum fd).sector =
      s.fatfs.clusterSector (s.fileNum fd).cluster (p / 512 % s.fatfs.sectorsPerCluster) := by
    rw [hset.file]
    exact hsec
  rw [hfsec]
  refine (readBuffer_reads (s := s.setFile fd f) hread hlt).bind fun failed t ht => ?_
  obtain ⟨rfl,ht⟩ := ht
  rw [hset.blocks,hset.file] at ht
  have hst := hset.trans ht
  refine returns_ite (by simp) fun _ => returns_pure ⟨rfl,?_⟩
  rw [hst.blocks,hst.file]
  refine ⟨Nat.div_add_mod' p 512,Nat.mod_lt _ (by decide),.inr ⟨⟨?_,hsec,hleft⟩,fun _ => ?_,hentered.of_still rfl,?_⟩⟩
  · change s.fatfs.Leads s.dev.blocks _ (p / 512 / _) _
    rw [hsame,← hsector]
    exact hf.leads
  · change s.dev.blocks _ = s.dev.blocks f.sector
    rw [hdef,← hsec]
  · exact (Nat.mod_lt _ (by decide)).le

/-- From the first cluster on. -/
theorem seekChain_walk (hfuel : 0 < E.fuel) (hg : s.fatfs.Valid s.dev.size)
    (hreserved : s.fatfs.Reserved s.dev.blocks) (hentered : (s.fileNum fd).Entered s.fatfs)
    (hplace : (s.fileNum fd).flags.dirty = true → s.fatfs.dataStart ≤ (s.fileNum fd).sector)
    (hfirst : s.fatfs.InRange (s.fileNum fd).fullFirstCluster)
    (hw : WalkSucceeds E fd (fun v => E.readFails v.dev.tick = false) (p / 512 / s.fatfs.sectorsPerCluster)
      (s.setFile fd { s.fileNum fd with cluster := (s.fileNum fd).fullFirstCluster })) :
    (seekChain E fd ptr p).Returns s fun r t => r.1 = i32 p ∧
      Sought s.fatfs t.dev.blocks p (t.fileNum fd) := by
  have hset := updateFile_after fd (fun f => { f with cluster := f.fullFirstCluster }) s
  set u := s.setFile fd { s.fileNum fd with cluster := (s.fileNum fd).fullFirstCluster }
  have hsu : Onward fd s u := .of_entries hset rfl hg fun _ _ => rfl
  have hgu := hset.fatfs
  refine returns_fatfs (Returns.bind (Q := fun _ t => t = u) ⟨(),_,rfl,rfl⟩ fun _ t ht => ?_)
  subst ht
  rw [FatInfo.cluster_of_byte,FatInfo.sector_in_cluster]
  have hwalk := @walkClusters_leads E hfuel fd u _ (s.fileNum fd).fullFirstCluster 0 _ 0
    (by rw [hgu,hset.size]; exact hg) (by rw [hgu,hset.blocks]; exact hreserved)
    (by rw [hgu]; exact hentered.of_still hsu.still) (by rw [hgu,hset.file]; exact hplace)
    (by rw [hgu,hset.blocks,hset.file]; exact .start hfirst) hw
  refine hwalk.bind fun e t ht => ?_
  obtain ⟨hut,hread,hleads⟩ := ht
  rw [hgu,Nat.zero_add] at hleads
  have hst := hsu.trans hut
  have hpos := hg.spc_pos
  have hmod := Nat.mod_lt (p / 512) hpos
  have hcr := hleads.inRange
  have hsec : u32 ((t.fileNum fd).cluster * s.fatfs.sectorsPerCluster + s.fatfs.cluster0 +
      p / 512 % s.fatfs.sectorsPerCluster) =
        s.fatfs.clusterSector (t.fileNum fd).cluster (p / 512 % s.fatfs.sectorsPerCluster) := by
    have hlt := hg.clusterSector_lt hcr hmod
    have hsize := hg.size
    have hstart := hg.firstSector_eq hcr
    unfold FatInfo.firstSector at hstart
    unfold FatInfo.clusterSector u32 at *
    omega
  set f : FileS := { t.fileNum fd with
    fileSector := p / 512
    cursor := p % 512
    sector := u32 ((t.fileNum fd).cluster * s.fatfs.sectorsPerCluster + s.fatfs.cluster0 +
      p / 512 % s.fatfs.sectorsPerCluster)
    sectorsLeft := u8 (s.fatfs.sectorsPerCluster + 2^8 - p / 512 % s.fatfs.sectorsPerCluster - 1) } with hdef
  have hmove : After fd t (t.setFile fd f) t.dev.blocks f := updateFile_after fd (fun _ => f) t
  refine Returns.bind (Q := fun _ t' => t' = t.setFile fd f) ⟨(),_,rfl,rfl⟩ fun _ t' ht' => ?_
  subst ht'
  refine returns_file ?_
  have hfsec : ((t.setFile fd f).fileNum fd).sector =
      s.fatfs.clusterSector (t.fileNum fd).cluster (p / 512 % s.fatfs.sectorsPerCluster) := by
    rw [hmove.file]
    exact hsec
  rw [hfsec]
  have hlt : s.fatfs.clusterSector (t.fileNum fd).cluster (p / 512 % s.fatfs.sectorsPerCluster) < t.dev.size := by
    rw [hst.but.size]
    exact hg.clusterSector_lt hcr hmod
  refine (readBuffer_reads (s := t.setFile fd f) hread hlt).bind fun failed v hv => ?_
  obtain ⟨rfl,hv⟩ := hv
  rw [hmove.blocks,hmove.file] at hv
  have htv := hmove.trans hv
  refine returns_ite (by simp) fun _ => returns_pure ⟨rfl,?_⟩
  rw [htv.blocks,htv.file]
  refine ⟨Nat.div_add_mod' p 512,Nat.mod_lt _ (by decide),.inr ⟨⟨?_,hsec,hg.seek_left _⟩,fun _ => ?_,
    hentered.of_still hst.still,(Nat.mod_lt _ (by decide)).le⟩⟩
  · have hff := FileS.field_of_still FileS.fullFirstCluster (fun _ => rfl) hst.still
    change s.fatfs.Leads t.dev.blocks (t.fileNum fd).fullFirstCluster _ _
    rw [hff]
    exact hleads
  · change t.dev.blocks _ = t.dev.blocks f.sector
    rw [hdef,← hsec]

/-- The sector that a used up sector makes way for. -/
theorem turnSector_onward (hfuel : 0 < E.fuel) (hg : s.fatfs.Valid s.dev.size)
    (hreserved : s.fatfs.Reserved s.dev.blocks) (hplaced : (s.fileNum fd).Placed s.fatfs s.dev.blocks)
    (hheld : (s.fileNum fd).Held s.dev.blocks) (hentered : (s.fileNum fd).Entered s.fatfs)
    (hcursor : (s.fileNum fd).cursor ≤ 512) (hsmall : (s.fileNum fd).offset < 2^31) :
    (turnSector E fd).Returns s fun failed t => Onward fd s t ∧
      ((t.fileNum fd).flags.dirty = true → s.fatfs.dataStart ≤ (t.fileNum fd).sector) ∧
      (((s.fileNum fd).cursor = 512 → Turned s.fatfs (s.fileNum fd) (t.fileNum fd)) →
        (t.fileNum fd).Placed s.fatfs t.dev.blocks ∧ (t.fileNum fd).fileSector = (s.fileNum fd).offset / 512 ∧
        (t.fileNum fd).cursor ≤ 512 ∧ (failed = false → (t.fileNum fd).Held t.dev.blocks)) := by
  unfold FileS.offset at *
  refine returns_file (returns_ite (fun hend => ?_) fun hin => ?_)
  · change (s.fileNum fd).cursor = 512 at hend
    refine (fatNextSector_onward hg hplaced hfuel hreserved hentered (by omega)).mono fun failed t ht =>
      ⟨ht.onward,ht.place,fun h => ?_⟩
    have hturn := h hend
    obtain ⟨hplaced',hzero,hclean⟩ := ht.turned hturn
    refine ⟨hplaced',?_,by omega,fun hread _ => ht.loaded hread⟩
    rw [hturn.1]
    omega
  · change (s.fileNum fd).cursor ≠ 512 at hin
    refine returns_pure ⟨Onward.refl fd s,fun _ => hplaced.dataStart_le,fun _ => ⟨hplaced,?_,hcursor,fun _ => hheld⟩⟩
    omega

/-- The seek behind its checks. -/
theorem seekRest_sought (hfuel : 0 < E.fuel) {t : FatState} {failed : Bool} (hg : t.fatfs.Valid t.dev.size)
    (hreserved : t.fatfs.Reserved t.dev.blocks) (hentered : (t.fileNum fd).Entered t.fatfs)
    (hplace : (t.fileNum fd).flags.dirty = true → t.fatfs.dataStart ≤ (t.fileNum fd).sector)
    (hfirst : t.fatfs.InRange (t.fileNum fd).fullFirstCluster) (ho : o < 2^31) (hp : p < 2^31)
    (hsize : p ≤ (t.fileNum fd).size) {turned : Prop}
    (hturned : turned → (t.fileNum fd).Placed t.fatfs t.dev.blocks ∧ (t.fileNum fd).fileSector = o / 512 ∧
      (t.fileNum fd).cursor ≤ 512 ∧ (failed = false → (t.fileNum fd).Held t.dev.blocks))
    (hcond : if o / 512 = p / 512 then failed = false ∧ turned
      else if p / 512 / t.fatfs.sectorsPerCluster = o / 512 / t.fatfs.sectorsPerCluster then
        turned ∧ E.readFails t.dev.tick = false
      else WalkSucceeds E fd (fun v => E.readFails v.dev.tick = false) (p / 512 / t.fatfs.sectorsPerCluster)
        (t.setFile fd { t.fileNum fd with cluster := (t.fileNum fd).fullFirstCluster })) :
    (seekRest E t.fatfs fd ptr o p).Returns t fun r u => r.1 = i32 p ∧
      Sought t.fatfs u.dev.blocks p (u.fileNum fd) := by
  split at hcond
  · rename_i hsame
    obtain ⟨hread,hturn⟩ := hcond
    obtain ⟨hplaced,hsector,hcursor,hheld⟩ := hturned hturn
    exact seekRest_sector hsame (.inr ⟨hplaced,hheld hread,hentered,hcursor⟩) (hsector.trans hsame) hsize
  rename_i hother
  split at hcond
  · rename_i hsame
    obtain ⟨hplaced,hsector,-,-⟩ := hturned hcond.1
    exact seekRest_cluster hg hother hsame hplaced hentered hsector ho hp hcond.2
  · rename_i hfar
    refine returns_ite (fun h => absurd h hother) fun _ => ?_
    rw [FatInfo.cluster_of_byte,FatInfo.cluster_of_byte]
    exact returns_ite (fun h => absurd h hfar) fun _ =>
      seekChain_walk hfuel hg hreserved hentered hplace hfirst hcond

end Seek

/-- The state of a descriptor of a regular file. -/
structure FatState.SeeksFile (s : FatState) (fd : Fd) : Prop where
  volume : s.fatfs.Valid s.dev.size
  reserved : s.fatfs.Reserved s.dev.blocks
  open_ : (s.fileNum fd).flags.open_ = true
  regular : (s.fileNum fd).isSubdir = false
  size_lt : (s.fileNum fd).size < 2^31
  inside : (s.fileNum fd).offset ≤ (s.fileNum fd).size
  seated : (s.fileNum fd).Seated s.fatfs s.dev.blocks

section Exact
variable {E : Env} {fd : Fd} {s t : FatState} {ptr : ℤ} {dir : Whence} {p : ℕ}

theorem FileS.target_congr {f : FileS} {d : Bool} : ({ f with flags.dirty := d } : FileS).target ptr dir = f.target ptr dir := by
  cases dir <;> rfl

/-- A target that is reached is reported. -/
theorem LseekExact.of_sought {r : ℤ} (hs : s.SeeksFile fd) (ht : p ≤ (s.fileNum fd).size)
    (htarget : p = (s.fileNum fd).target ptr dir) (hr : r = i32 p)
    (h : Sought t.fatfs t.dev.blocks p (t.fileNum fd)) : LseekExact fd ptr p s t r := by
  have hsize := hs.size_lt
  have hinside := hs.inside
  have hval : r = p := by
    rw [hr]
    exact i32_of_lt (by omega)
  have hne : r ≠ ptr - 1 := by
    rw [hval,htarget]
    exact FileS.target_ne hsize (by omega)
  exact ⟨iff_of_false hne (not_not.2 h.offset),fun h => absurd h hne,fun _ => ⟨hval,h.cursor,h.seated⟩⟩

/-- A target beyond the end is refused, and the descriptor stays where it is. -/
theorem LseekExact.of_refused (hs : s.SeeksFile fd) (ht : (s.fileNum fd).size < p)
    (hoffset : (t.fileNum fd).offset = (s.fileNum fd).offset)
    (hseated : (t.fileNum fd).Seated t.fatfs t.dev.blocks) : LseekExact fd ptr p s t (ptr - 1) := by
  have hinside := hs.inside
  refine ⟨iff_of_true rfl ?_,fun _ => ⟨hoffset,hseated⟩,fun h => absurd rfl h⟩
  omega

/-- A descriptor stays seated when its buffer is written back. -/
theorem FileS.Seated.flushed (hs : (s.fileNum fd).Seated s.fatfs s.dev.blocks) (ht : Onward fd s t)
    (hfile : t.fileNum fd = { s.fileNum fd with flags.dirty := (t.fileNum fd).flags.dirty })
    (hdirty : (t.fileNum fd).flags.dirty = true → (s.fileNum fd).flags.dirty = true)
    (hheld : (s.fileNum fd).Held s.dev.blocks → (t.fileNum fd).Held t.dev.blocks) :
    (t.fileNum fd).Seated t.fatfs t.dev.blocks := by
  have hg := ht.but.fatfs
  rcases hs with ⟨hsize,hclean,hoffset⟩ | ⟨hplaced,hheld',hentered,hcursor⟩
  · refine .inl ⟨?_,?_,?_⟩
    · rw [hfile]
      exact hsize
    · exact Bool.eq_false_iff.2 fun h => by simp [hclean] at hdirty; simp [hdirty] at h
    · rw [hfile]
      exact hoffset
  · refine .inr ⟨?_,hheld hheld',?_,?_⟩
    · rw [hg,hfile]
      exact ⟨hplaced.leads.mono ht.links,hplaced.sector,hplaced.left⟩
    · rw [hg]
      exact hentered.of_still ht.still
    · rw [hfile]
      exact hcursor

end Exact

/-- A volume with the file `/AB.TXT` of two full clusters. -/
def twoFullClusters : ℕ → Sector
  | 1 => Sector.ofBytes [0xF8,0xFF,0xFF,0xFF,3,0,0xFF,0xFF]
  | 2 => Sector.ofBytes [0x41,0x42,0x20,0x20,0x20,0x20,0x20,0x20,0x54,0x58,0x54,0x20,
      0,0,0,0,0,0,0,0,0,0,0,0,0,0,2,0,0,4,0,0]
  | _ => Sector.zero

/-- The file is open for reading, at its first byte. -/
def FatState.atFirstByte : FatState := (FatState.mounted smallFat16 300 twoFullClusters).setFile 0
  { FileS.closed with
    flags := { Flags.none with open_ := true, read := true }
    filename := fun k => (twoFullClusters 2).get k, extension := fun k => (twoFullClusters 2).get (8 + k)
    attributes := 0x20
    sector := 3, cluster := 2, size := 1024, fullFirstCluster := 2
    entrySector := 2, parentCluster := 1 }

theorem atFirstByte_seeksFile : FatState.atFirstByte.SeeksFile 0 where
  volume := smallFat16_valid
  reserved := ⟨by decide +kernel,by decide +kernel⟩
  open_ := rfl
  regular := by decide
  size_lt := by decide
  inside := by decide
  seated := .inr ⟨⟨.start ⟨by decide,by decide⟩,by decide,by decide⟩,fun _ => rfl,⟨by decide,.inr (by decide)⟩,
    by decide⟩

end Gristle
