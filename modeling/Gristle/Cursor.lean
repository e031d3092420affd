import Mathlib.Data.List.GetD
import Gristle.Allocate
import Gristle.ReadOnly

/-! The sector under a descriptor, without faults: how it is flushed, how it moves along the chain
of its file, and how the chain grows when the descriptor may write. -/
namespace Gristle
open Prog

/-! ### The parts of a descriptor -/

/-- The part of a descriptor that moving along a chain leaves alone. -/
def FileS.still (f : FileS) : FileS :=
  { f with
    buffer := .zero, sector := 0, cluster := 0, sectorsLeft := 0, cursor := 0, error := 0
    fileSector := 0, flags.dirty := false, flags.fsDirty := false }

/-- What depends on this part only is the same when this part is. -/
theorem FileS.field_of_still {α : Type} {f f' : FileS} (u : FileS → α) (hu : ∀ f, u f.still = u f)
    (h : f'.still = f.still) : u f' = u f := by rw [← hu f',h,hu f]

/-- The descriptor with a clean buffer. -/
def FileS.clean (f : FileS) : FileS := { f with flags.dirty := false }

theorem FileS.clean_of_clean {f : FileS} (h : f.flags.dirty = false) : f.clean = f := by
  obtain ⟨⟨_,_,_,_,d,_⟩,_⟩ := f
  obtain rfl : d = false := h
  rfl

/-- The medium once the buffer of a descriptor was written. -/
def FileS.flushed (f : FileS) (B : ℕ → Sector) : ℕ → Sector :=
  if f.flags.dirty then Function.update B f.sector f.buffer else B

theorem FileS.flushed_of_clean {f : FileS} (h : f.flags.dirty = false) (B : ℕ → Sector) :
    f.flushed B = B := by rw [flushed,h]; rfl

/-- Sector `q` of the file with the chain `cs`. -/
def FatInfo.sectorAt (g : FatInfo) (cs : List ℕ) (q : ℕ) : ℕ :=
  g.clusterSector (cs.getD (q / g.sectorsPerCluster) 0) (q % g.sectorsPerCluster)

/-- The number of sectors of a chain. -/
def FatInfo.span (g : FatInfo) (cs : List ℕ) : ℕ := cs.length * g.sectorsPerCluster

/-- The descriptor stands on sector `q` of the chain `cs`. -/
structure FileS.At (g : FatInfo) (cs : List ℕ) (q : ℕ) (f : FileS) : Prop where
  inside : q < g.span cs
  cluster : f.cluster = cs.getD (q / g.sectorsPerCluster) 0
  sector : f.sector = g.sectorAt cs q
  left : f.sectorsLeft = g.sectorsPerCluster - 1 - q % g.sectorsPerCluster

/-- The buffer holds the sector under the descriptor. -/
def FileS.Loaded (B : ℕ → Sector) (f : FileS) : Prop := f.buffer = B f.sector

section Valid
variable {g : FatInfo} {size : ℕ} (hg : g.Valid size)
include hg

theorem FatInfo.Valid.index_lt {cs : List ℕ} {q : ℕ} (hq : q < g.span cs) :
    q / g.sectorsPerCluster < cs.length :=
  Nat.div_lt_of_lt_mul (by rwa [FatInfo.span,Nat.mul_comm] at hq)

theorem FatInfo.Valid.getD_mem {cs : List ℕ} {q : ℕ} (hq : q < g.span cs) :
    cs.getD (q / g.sectorsPerCluster) 0 ∈ cs := by
  rw [List.getD_eq_getElem _ _ (hg.index_lt hq)]
  exact List.getElem_mem _

theorem FatInfo.Valid.sectorAt_lt {cs : List ℕ} (hcs : ∀ c ∈ cs, g.InRange c) {q : ℕ}
    (hq : q < g.span cs) : g.dataStart ≤ g.sectorAt cs q ∧ g.sectorAt cs q < size :=
  ⟨FatInfo.Valid.dataStart_le _ _,
    hg.clusterSector_lt (hcs _ (hg.getD_mem hq)) (Nat.mod_lt _ hg.spc_pos)⟩

/-- Different positions of a chain are different sectors. -/
theorem FatInfo.Valid.sectorAt_inj {cs : List ℕ} (hcs : ∀ c ∈ cs, g.InRange c) (hnd : cs.Nodup)
    {p q : ℕ} (hp : p < g.span cs) (hq : q < g.span cs)
    (h : g.sectorAt cs p = g.sectorAt cs q) : p = q := by
  obtain ⟨hc,hj⟩ := hg.clusterSector_inj (hcs _ (hg.getD_mem hp)) (hcs _ (hg.getD_mem hq))
    (Nat.mod_lt _ hg.spc_pos) (Nat.mod_lt _ hg.spc_pos) h
  rw [List.getD_eq_getElem _ _ (hg.index_lt hp),List.getD_eq_getElem _ _ (hg.index_lt hq)] at hc
  have hi := (List.Nodup.getElem_inj_iff hnd).1 hc
  rw [← Nat.div_add_mod p g.sectorsPerCluster,← Nat.div_add_mod q g.sectorsPerCluster,hi,hj]

omit hg in
theorem FatInfo.span_append (cs ds : List ℕ) : g.span (cs ++ ds) = g.span cs + g.span ds := by
  simp [FatInfo.span,Nat.add_mul]

theorem FatInfo.Valid.sectorAt_append {cs ds : List ℕ} {q : ℕ} (hq : q < g.span cs) :
    g.sectorAt (cs ++ ds) q = g.sectorAt cs q := by
  have h := hg.index_lt hq
  rw [FatInfo.sectorAt,FatInfo.sectorAt,List.getD_append _ _ _ _ h]

/-- The first sector of the cluster with index `i`. -/
theorem FatInfo.Valid.select_at {cs : List ℕ} (hcs : ∀ c ∈ cs, g.InRange c) {i : ℕ}
    (hi : i < cs.length) (f : FileS) :
    (f.select g cs[i]).At g cs (i * g.sectorsPerCluster) ∧ (f.select g cs[i]).cursor = 0 := by
  have hspc := hg.spc_pos
  have hr := hcs _ (List.getElem_mem hi)
  have hne : cs[i] ≠ 1 := by have := hr.1; omega
  rw [FileS.select,if_neg hne]
  refine ⟨⟨?_,?_,?_,?_⟩,rfl⟩
  · exact Nat.mul_lt_mul_of_pos_right hi hspc
  · change cs[i] = _
    rw [Nat.mul_div_cancel _ hspc,List.getD_eq_getElem _ _ hi]
  · change g.firstSector cs[i] = _
    rw [hg.firstSector_eq hr,FatInfo.sectorAt,Nat.mul_div_cancel _ hspc,Nat.mul_mod_left,
      List.getD_eq_getElem _ _ hi]
  · change u8 (g.sectorsPerCluster + 2^8 - 1) = _
    have := hg.spc_le
    rw [Nat.mul_mod_left]
    unfold u8
    omega

/-- The neighbouring positions of one cluster. -/
theorem FatInfo.Valid.sectorAt_succ {cs : List ℕ} {q : ℕ}
    (hq : 0 < g.sectorsPerCluster - 1 - q % g.sectorsPerCluster) :
    (q+1) / g.sectorsPerCluster = q / g.sectorsPerCluster ∧
      (q+1) % g.sectorsPerCluster = q % g.sectorsPerCluster + 1 ∧
      g.sectorAt cs (q+1) = g.sectorAt cs q + 1 := by
  have hlt : q % g.sectorsPerCluster + 1 < g.sectorsPerCluster := by omega
  have hsplit := Nat.div_add_mod q g.sectorsPerCluster
  have hdiv : (q+1) / g.sectorsPerCluster = q / g.sectorsPerCluster := by
    conv_lhs => rw [← hsplit,Nat.add_assoc]
    rw [Nat.mul_add_div hg.spc_pos,Nat.div_eq_of_lt hlt,Nat.add_zero]
  have hmod : (q+1) % g.sectorsPerCluster = q % g.sectorsPerCluster + 1 := by
    conv_lhs => rw [← hsplit,Nat.add_assoc]
    rw [Nat.mul_add_mod,Nat.mod_eq_of_lt hlt]
  refine ⟨hdiv,hmod,?_⟩
  rw [FatInfo.sectorAt,FatInfo.sectorAt,hdiv,hmod]
  rfl

/-- Behind the last sector of a cluster begins the next one. -/
theorem FatInfo.Valid.position_succ {q : ℕ}
    (hq : g.sectorsPerCluster - 1 - q % g.sectorsPerCluster = 0) :
    q + 1 = (q / g.sectorsPerCluster + 1) * g.sectorsPerCluster := by
  have hsplit := Nat.div_add_mod q g.sectorsPerCluster
  have hmod := Nat.mod_lt q hg.spc_pos
  rw [Nat.succ_mul,Nat.mul_comm]
  omega

end Valid

/-! ### Flushing the buffer and choosing a cluster -/

section NoFault
variable {E : Env} (hE : E.NoFault)
include hE

/-- The flush of a buffer that has a sector. -/
theorem fatFlushWith_returns {ffi : Fd → FatM ℤ} {fd : Fd} {s : FatState}
    (h₀ : (s.fileNum fd).sector ≠ 0) (hlt : (s.fileNum fd).sector < s.dev.size) :
    (fatFlushWith ffi E fd).Returns s fun r t => r = 0 ∧
      After fd s t ((s.fileNum fd).flushed s.dev.blocks) (s.fileNum fd).clean := by
  cases hd : (s.fileNum fd).flags.dirty with
  | false =>
    rw [FileS.flushed_of_clean hd,FileS.clean_of_clean hd]
    exact ⟨0,s,fatFlushWith_clean hd,rfl,After.refl s⟩
  | true =>
    refine returns_file ?_
    simp only [hd,if_true,if_neg h₀]
    refine (writeBlock_returns hE _ _ hlt).bind fun failed t ht => ?_
    obtain ⟨rfl,ht,-⟩ := ht
    refine returns_ite (by simp) fun _ => (updateFile_returns fd _ t).bind fun _ u hu => ?_
    refine returns_pure ⟨rfl,?_⟩
    rw [FileS.flushed,hd,if_pos rfl]
    have ha := ht.after fd
    rw [ha.blocks,ha.file] at hu
    exact ha.trans hu

theorem fatSelectCluster_returns {fd : Fd} {s : FatState} {c : ℕ}
    (hlt : ((s.fileNum fd).select s.fatfs c).sector < s.dev.size) :
    (fatSelectCluster E fd c).Returns s fun failed t => failed = false ∧
      After fd s t s.dev.blocks { (s.fileNum fd).select s.fatfs c with
        buffer := s.dev.blocks ((s.fileNum fd).select s.fatfs c).sector } := by
  refine returns_fatfs ((updateFile_returns fd _ s).bind fun _ t ht => returns_file ?_)
  rw [ht.file]
  refine (readBuffer_returns hE (ht.size ▸ hlt)).mono fun failed u hu => ⟨hu.1,?_⟩
  have hu := hu.2
  rw [ht.blocks,ht.file] at hu
  exact ht.trans hu

/-! ### The entry of a descriptor -/

/-- `fat_flush_fileinfo` of a descriptor that has an entry. -/
theorem fatFlushFileinfo_existing {fd : Fd} {s : FatState} (hfuel : 0 < E.fuel)
    (hskip : ¬ (s.fileNum fd).SkipsFlush s.fatfs)
    (hplaced : (s.fileNum fd).flags.dirty = false ∨ (s.fileNum fd).sector ≠ 0)
    (hentry : (s.fileNum fd).entrySector ≠ 0) (hlt : (s.fileNum fd).entrySector < s.dev.size)
    (hsector : (s.fileNum fd).sector < s.dev.size) :
    (fatFlushFileinfo E fd).Returns s fun r t => r = 0 ∧ ∃ reserved,
      After fd s t ((s.fileNum fd).storedOn E reserved ((s.fileNum fd).flushed s.dev.blocks))
        { (s.fileNum fd).clean with
          buffer := (s.fileNum fd).storedOn E reserved ((s.fileNum fd).flushed s.dev.blocks)
            (s.fileNum fd).sector
          flags.fsDirty := false } := by
  obtain ⟨n,hn⟩ := Nat.exists_eq_succ_of_ne_zero hfuel.ne'
  rw [fatFlushFileinfo,hn]
  simp only [FileS.SkipsFlush,not_or] at hskip
  refine returns_file (returns_fatfs ?_)
  simp only [if_neg hskip.1,if_neg hskip.2.1,if_neg hskip.2.2]
  refine (junk_returns E s).bind fun junk t ht => ?_
  have hat := ht.after fd
  have hflush : (fatFlushWith (fatFlushFileinfoAux E n) E fd).Returns t fun r u => r = 0 ∧
      After fd s u ((s.fileNum fd).flushed s.dev.blocks) (s.fileNum fd).clean := by
    rcases hplaced with hclean | h₀
    · rw [FileS.flushed_of_clean hclean,FileS.clean_of_clean hclean]
      exact ⟨0,t,fatFlushWith_clean (by rw [hat.file]; exact hclean),rfl,hat⟩
    · have hrun := @fatFlushWith_returns E hE (fatFlushFileinfoAux E n) fd t (by rw [hat.file]; exact h₀)
        (by rw [hat.file,hat.size]; exact hsector)
      rw [hat.file,hat.blocks] at hrun
      exact hrun.mono fun r u hu => ⟨hu.1,hat.trans hu.2⟩
  refine hflush.bind fun r u hu => ?_
  obtain ⟨rfl,hau⟩ := hu
  refine returns_ite (by simp) fun _ => ?_
  have hlocate : locateEntry (fatFlushFileinfoAux E n) E fd u = readBuffer E fd
      (u.fileNum fd).entrySector u := locateEntry_of_entry (by rw [hau.file]; exact hentry)
  have hread := @readBuffer_returns E hE fd u (u.fileNum fd).entrySector
    (by rw [hau.file,hau.size]; exact hlt)
  rw [Returns,← hlocate,hau.blocks,hau.file] at hread
  refine Returns.bind hread fun failed v hv => ?_
  obtain ⟨rfl,hv⟩ := hv
  refine returns_ite (by simp) fun _ => (updateFile_returns fd _ v).bind fun _ w hw => ?_
  rw [hv.file,hv.blocks] at hw
  refine returns_file ?_
  rw [hw.file]
  have hsize : w.dev.size = s.dev.size := hw.size.trans (hv.size.trans hau.size)
  refine (writeBlock_returns hE _ _ (hsize ▸ hlt)).bind fun failed x hx => ?_
  obtain ⟨rfl,hx,-⟩ := hx
  have hax := hx.after fd
  rw [hw.blocks,hw.file] at hax
  refine returns_ite (by simp) fun _ => ?_
  refine (readBuffer_returns hE (hax.size ▸ hsize ▸ hsector)).bind fun failed y hy => ?_
  obtain ⟨rfl,hy⟩ := hy
  rw [hax.blocks,hax.file] at hy
  refine returns_ite (by simp) fun _ => (updateFile_returns fd _ y).bind fun _ z hz => ?_
  rw [hy.blocks,hy.file] at hz
  exact returns_pure ⟨rfl,junk 12,hau.trans (hv.trans (hw.trans (hax.trans (hy.trans hz))))⟩

/-- `fat_flush_fileinfo` of a descriptor that has an entry and a clean buffer. -/
theorem fatFlushFileinfo_returns {fd : Fd} {s : FatState} (hfuel : 0 < E.fuel)
    (hskip : ¬ (s.fileNum fd).SkipsFlush s.fatfs) (hclean : (s.fileNum fd).flags.dirty = false)
    (hentry : (s.fileNum fd).entrySector ≠ 0) (hlt : (s.fileNum fd).entrySector < s.dev.size)
    (hsector : (s.fileNum fd).sector < s.dev.size) :
    (fatFlushFileinfo E fd).Returns s fun r t => r = 0 ∧ ∃ reserved,
      After fd s t ((s.fileNum fd).storedOn E reserved s.dev.blocks)
        { s.fileNum fd with
          buffer := (s.fileNum fd).storedOn E reserved s.dev.blocks (s.fileNum fd).sector
          flags.fsDirty := false } := by
  have h := fatFlushFileinfo_existing hE hfuel hskip (.inl hclean) hentry hlt hsector
  rw [FileS.flushed_of_clean hclean,FileS.clean_of_clean hclean] at h
  exact h

/-! ### The next cluster -/

omit hE in
/-- The entry of a cluster as `fat_next_cluster` reads it. -/
theorem entryAt_block (g : FatInfo) (B : ℕ → Sector) (c : ℕ) :
    g.entryAt (B (g.entryBlock c)) (g.entryOffset c) = g.entry B c := rfl

omit hE in
/-- `fat_next_cluster` of a clean descriptor, after its flush. -/
theorem fatNextClusterWith_clean {ffi : Fd → FatM ℤ} {fd : Fd} {s : FatState}
    {Q : ℤ × ℤ → FatState → Prop} (hclean : (s.fileNum fd).flags.dirty = false)
    (hg : s.fatfs.Valid s.dev.size) (hc : s.fatfs.InRange (s.fileNum fd).cluster)
    (hE : E.NoFault)
    (h : ∀ t, After fd s t s.dev.blocks { s.fileNum fd with
        buffer := s.dev.blocks (s.fatfs.entryBlock (s.fileNum fd).cluster) } →
      Returns (if s.fatfs.entry s.dev.blocks (s.fileNum fd).cluster < 2 then do
          updateFile fd fun f => { f with error := fatErrorCluster }
          pure (-1,eIo)
        else if s.fatfs.endClusterMarker ≤ s.fatfs.entry s.dev.blocks (s.fileNum fd).cluster then
          if (s.fileNum fd).flags.write then extendChain ffi E fd
          else do
            updateFile fd fun f => { f with error := fatEndOfFile }
            pure (-1,0)
        else pure (i32 (s.fatfs.entry s.dev.blocks (s.fileNum fd).cluster),0)) t Q) :
    (fatNextClusterWith ffi E fd).Returns s Q := by
  refine returns_bind_of_ok (fatFlushWith_clean hclean) ?_
  refine returns_ite (by simp) fun _ => returns_fatfs (returns_file ?_)
  refine returns_ite (fun h₁ => ?_) fun _ => ?_
  · have := hc.1
    omega
  refine (readBuffer_returns hE (hg.table.entryBlock_size hc.2).1).bind fun failed t ht => ?_
  obtain ⟨rfl,ht⟩ := ht
  refine returns_ite (by simp) fun _ => returns_file ?_
  have ht' := h t ht
  rw [ht.file]
  exact ht'

/-- Inside a chain the entry is the next cluster. -/
theorem fatNextClusterWith_inside {ffi : Fd → FatM ℤ} {fd : Fd} {s : FatState} {d : ℕ}
    (hclean : (s.fileNum fd).flags.dirty = false) (hg : s.fatfs.Valid s.dev.size)
    (hc : s.fatfs.InRange (s.fileNum fd).cluster)
    (hd : s.fatfs.next s.dev.blocks (s.fileNum fd).cluster = some d) (hrange : s.fatfs.InRange d) :
    (fatNextClusterWith ffi E fd).Returns s fun p t => p = ((d : ℤ),0) ∧
      After fd s t s.dev.blocks { s.fileNum fd with
        buffer := s.dev.blocks (s.fatfs.entryBlock (s.fileNum fd).cluster) } := by
  refine fatNextClusterWith_clean hclean hg hc hE fun t ht => ?_
  unfold FatInfo.next at hd
  split at hd
  · simp at hd
  · obtain rfl := Option.some.inj hd
    have h₂ := hrange.1
    have hlt := hrange.2
    have hle := hg.entries_le
    refine returns_ite (fun h => absurd h (by omega)) fun _ => ?_
    refine returns_ite (fun h => absurd h ‹_›) fun _ => returns_pure ⟨?_,ht⟩
    rw [i32_of_lt (by omega)]

/-- At the end of a chain a descriptor that may not write stays. -/
theorem fatNextClusterWith_end {ffi : Fd → FatM ℤ} {fd : Fd} {s : FatState}
    (hclean : (s.fileNum fd).flags.dirty = false) (hg : s.fatfs.Valid s.dev.size)
    (hc : s.fatfs.InRange (s.fileNum fd).cluster)
    (hd : s.fatfs.next s.dev.blocks (s.fileNum fd).cluster = none)
    (hwrite : (s.fileNum fd).flags.write = false) :
    (fatNextClusterWith ffi E fd).Returns s fun p t => p = (-1,0) ∧
      After fd s t s.dev.blocks { s.fileNum fd with
        buffer := s.dev.blocks (s.fatfs.entryBlock (s.fileNum fd).cluster)
        error := fatEndOfFile } := by
  refine fatNextClusterWith_clean hclean hg hc hE fun t ht => ?_
  unfold FatInfo.next at hd
  split at hd
  · have hm := hg.table.kind.marker_pos
    refine returns_ite (fun h => absurd h (by omega)) fun _ => returns_ite (fun _ => ?_) (by simp [*])
    rw [if_neg (by simp [hwrite])]
    refine (updateFile_returns fd _ t).bind fun _ u hu => returns_pure ⟨rfl,?_⟩
    rw [ht.blocks,ht.file] at hu
    exact ht.trans hu
  · simp at hd

omit hE in
/-- The medium with cluster `k` linked behind cluster `c`. -/
def FatInfo.linked (g : FatInfo) (B : ℕ → Sector) (c k : ℕ) : ℕ → Sector :=
  g.setEntry (g.setEntry B k g.endMark) c k

/-- At the end of a chain a descriptor that may write gets a new cluster, if there is one. -/
theorem fatNextCluster_extend {fd : Fd} {s : FatState} (hfuel : 0 < E.fuel)
    (hclean : (s.fileNum fd).flags.dirty = false) (hg : s.fatfs.Valid s.dev.size)
    (hc : s.fatfs.InRange (s.fileNum fd).cluster)
    (hd : s.fatfs.next s.dev.blocks (s.fileNum fd).cluster = none)
    (hwrite : (s.fileNum fd).flags.write = true)
    (hreserved : s.fatfs.entry s.dev.blocks 0 ≠ 0)
    (hskip : ¬ (s.fileNum fd).SkipsFlush s.fatfs)
    (hentry : (s.fileNum fd).entrySector ≠ 0) (hlt : (s.fileNum fd).entrySector < s.dev.size)
    (hsector : (s.fileNum fd).sector < s.dev.size) :
    (fatNextCluster E fd).Returns s fun p t =>
      (∃ k reserved, s.fatfs.LeastFree s.dev.blocks k ∧ p = ((k : ℤ),0) ∧
        After fd s t ((s.fileNum fd).storedOn E reserved
          (s.fatfs.linked s.dev.blocks (s.fileNum fd).cluster k)) { s.fileNum fd with
            buffer := (s.fileNum fd).storedOn E reserved
              (s.fatfs.linked s.dev.blocks (s.fileNum fd).cluster k) (s.fileNum fd).sector
            flags.fsDirty := false }) ∨
      s.fatfs.Full s.dev.blocks ∧ p = (-1,eNospc) ∧ Event.freeCluster 0 ∈ t.dev.trace ∧
        After fd s t s.dev.blocks { s.fileNum fd with
          buffer := s.dev.blocks (s.fatfs.entryBlock (s.fileNum fd).cluster) } := by
  refine fatNextClusterWith_clean hclean hg hc hE fun t ht => ?_
  unfold FatInfo.next at hd
  split at hd
  swap
  · simp at hd
  have hm := hg.table.kind.marker_pos
  refine returns_ite (fun h => absurd h (by omega)) fun _ => returns_ite (fun _ => ?_) (by simp [*])
  rw [if_pos hwrite]
  have htg : t.fatfs.Valid t.dev.size := by rw [ht.fatfs,ht.size]; exact hg
  refine (fatGetFreeCluster_returns hE htg.table).bind fun k u hu => ?_
  obtain ⟨hu,hevent⟩ := hu
  unfold Allocates at hu
  rw [ht.fatfs,ht.blocks] at hu
  rcases hu with ⟨hk,hu⟩ | ⟨rfl,hfull,hu⟩
  swap
  · refine returns_ite (fun _ => returns_pure (.inr ⟨hfull,rfl,hevent,?_⟩)) (by simp)
    have := hu.after fd
    rw [ht.file] at this
    exact ht.trans this
  have hk₀ : k ≠ 0 := by
    rintro rfl
    exact hreserved hk.free
  have hkle := hg.entries_le
  have hklt := hk.inTable
  refine returns_ite (fun h => absurd h hk₀) fun _ => returns_ite (fun h => absurd h (by omega)) fun _ => ?_
  have hau := hu.after fd
  rw [ht.file] at hau
  have hsu := ht.trans hau
  refine returns_fatfs (returns_file ?_)
  rw [hsu.fatfs,hsu.file]
  have hblock := hg.table.entryBlock_size hc.2
  refine (readBuffer_returns hE (hsu.size ▸ hblock.1)).bind fun failed v hv => ?_
  obtain ⟨rfl,hv⟩ := hv
  rw [hsu.blocks,hsu.file] at hv
  refine returns_ite (by simp) fun _ => (updateFile_returns fd _ v).bind fun _ w hw => ?_
  rw [hv.blocks,hv.file] at hw
  have hsw := hsu.trans (hv.trans hw)
  refine returns_file ?_
  rw [hw.file]
  refine (writeBlock_returns hE _ _ (hsw.size ▸ hblock.1)).bind fun failed x hx => ?_
  obtain ⟨rfl,hx,-⟩ := hx
  have hx := hx.after fd
  rw [hw.blocks,hw.file] at hx
  have hsx := hsw.trans hx
  refine returns_ite (by simp) fun _ => ?_
  have hx' : x.dev.blocks = s.fatfs.linked s.dev.blocks (s.fileNum fd).cluster k := hx.blocks
  have hflush := @fatFlushFileinfo_returns E hE fd x hfuel
    (by rw [hsx.file,hsx.fatfs]; exact hskip) (by rw [hsx.file]; exact hclean)
    (by rw [hsx.file]; exact hentry) (by rw [hsx.file,hsx.size]; exact hlt)
    (by rw [hsx.file,hsx.size]; exact hsector)
  refine hflush.bind fun r y hy => ?_
  obtain ⟨rfl,reserved,hy⟩ := hy
  rw [hx',hsx.file] at hy
  refine returns_pure (.inl ⟨k,reserved,hk,?_,hsx.trans hy⟩)
  rw [i32_of_lt (by omega)]

/-! ### The next sector -/

/-- The descriptor `f` has moved to the start of sector `q` of the chain `cs` and read it. -/
structure Arrived (g : FatInfo) (cs : List ℕ) (q : ℕ) (B : ℕ → Sector) (f f' : FileS) : Prop where
  at_ : f'.At g cs q
  cursor : f'.cursor = 0
  loaded : f'.Loaded B
  clean : f'.flags.dirty = false
  fileSector : f'.fileSector = u32 (f.fileSector + 1)
  still : f'.still = f.still

omit hE in
/-- The entries of the table do not notice a write to a sector of a cluster. -/
theorem FatInfo.Valid.entry_update {g : FatInfo} {size : ℕ} (hg : g.Valid size) {B : ℕ → Sector}
    {b c : ℕ} {data : Sector} (hc : c < g.entries) (hb : g.dataStart ≤ b) :
    g.entry (Function.update B b data) c = g.entry B c := by
  have h := hg.table_le
  exact hg.table.entry_congr hc fun b' _ h' => Function.update_of_ne (by omega) _ _

omit hE in
theorem FatInfo.Valid.entry_flushed {g : FatInfo} {size : ℕ} (hg : g.Valid size) {B : ℕ → Sector}
    {c : ℕ} {f : FileS} (hc : c < g.entries) (hb : g.dataStart ≤ f.sector) :
    g.entry (f.flushed B) c = g.entry B c := by
  unfold FileS.flushed
  split
  · exact hg.entry_update hc hb
  · rfl

omit hE in
/-- A chain stays when the entries of its clusters do. -/
theorem FatInfo.Chain.congr {g : FatInfo} {B B' : ℕ → Sector} {a : ℕ} {cs : List ℕ} (h : g.Chain B a cs)
    (he : ∀ c ∈ cs, g.entry B' c = g.entry B c) : g.Chain B' a cs :=
  ⟨h.links.congr fun c hc => by rw [FatInfo.next,FatInfo.next,he c hc],h.inRange⟩

omit hE in
theorem FatInfo.Valid.chain_flushed {g : FatInfo} {size : ℕ} (hg : g.Valid size) {B : ℕ → Sector}
    {a : ℕ} {cs : List ℕ} {f : FileS} (h : g.Chain B a cs) (hb : g.dataStart ≤ f.sector) :
    g.Chain (f.flushed B) a cs :=
  h.congr fun c hc => hg.entry_flushed (h.inRange c hc).2 hb

omit hE in
theorem FileS.At.dataStart_le {g : FatInfo} {cs : List ℕ} {q : ℕ} {f : FileS} (h : f.At g cs q) :
    g.dataStart ≤ f.sector := h.sector ▸ FatInfo.Valid.dataStart_le _ _

omit hE in
theorem FileS.At.sector_lt {g : FatInfo} {size : ℕ} (hg : g.Valid size) {cs : List ℕ} {q : ℕ}
    {f : FileS} (h : f.At g cs q) (hcs : ∀ c ∈ cs, g.InRange c) : f.sector < size :=
  h.sector ▸ (hg.sectorAt_lt hcs h.inside).2

omit hE in
theorem FatInfo.Valid.dataStart_pos {g : FatInfo} {size : ℕ} (hg : g.Valid size) : 0 < g.dataStart :=
  Nat.lt_of_lt_of_le (Nat.add_pos_left hg.fatPos _) hg.table_le

omit hE in
theorem FileS.At.getElem {g : FatInfo} {size : ℕ} (hg : g.Valid size) {cs : List ℕ} {q : ℕ}
    {f : FileS} (h : f.At g cs q) : ∃ hi : q / g.sectorsPerCluster < cs.length,
      f.cluster = cs[q / g.sectorsPerCluster] :=
  ⟨hg.index_lt h.inside,by rw [h.cluster,List.getD_eq_getElem _ _ (hg.index_lt h.inside)]⟩

omit hE in
theorem FileS.At.inRange {g : FatInfo} {size : ℕ} (hg : g.Valid size) {cs : List ℕ} {q : ℕ}
    {f : FileS} (h : f.At g cs q) (hcs : ∀ c ∈ cs, g.InRange c) : g.InRange f.cluster := by
  rw [h.cluster]
  exact hcs _ (hg.getD_mem h.inside)

omit hE in
theorem FileS.At.sector_ne {g : FatInfo} {size : ℕ} (hg : g.Valid size) {cs : List ℕ} {q : ℕ}
    {f : FileS} (h : f.At g cs q) : f.sector ≠ 0 := by
  have := h.dataStart_le
  have := hg.dataStart_pos
  omega

omit hE in
/-- The last sector of a chain is the last one of a cluster without a successor. -/
theorem FileS.At.at_end {g : FatInfo} {size : ℕ} (hg : g.Valid size) {cs : List ℕ} {q : ℕ}
    {f : FileS} (h : f.At g cs q) {B : ℕ → Sector} {a : ℕ} (hcs : g.Chain B a cs)
    (hq : q + 1 = g.span cs) : f.sectorsLeft = 0 ∧ g.next B f.cluster = none := by
  have hspc := hg.spc_pos
  have hmod := Nat.mod_lt q hspc
  have hsplit := Nat.div_add_mod q g.sectorsPerCluster
  obtain ⟨hi,hcluster⟩ := h.getElem hg
  have hlast : q / g.sectorsPerCluster + 1 = cs.length := by
    by_contra hne
    have hm := Nat.mul_le_mul (show q / g.sectorsPerCluster + 2 ≤ cs.length by omega)
      (Nat.le_refl g.sectorsPerCluster)
    rw [Nat.add_mul,Nat.mul_comm (q / g.sectorsPerCluster)] at hm
    unfold FatInfo.span at hq
    omega
  rw [hcluster]
  refine ⟨?_,hcs.links.next_last hi hlast⟩
  rw [FatInfo.span,← hlast,Nat.succ_mul,Nat.mul_comm] at hq
  rw [h.left]
  omega

omit hE in
/-- The entries 0 and 1 of the table, which belong to no cluster, are not zero. -/
structure FatInfo.Reserved (g : FatInfo) (B : ℕ → Sector) : Prop where
  zero : g.entry B 0 ≠ 0
  one : g.entry B 1 ≠ 0

omit hE in
theorem FatInfo.Reserved.flushed {g : FatInfo} {size : ℕ} {B : ℕ → Sector} (h : g.Reserved B)
    (hg : g.Valid size) {f : FileS} (hf : g.dataStart ≤ f.sector) : g.Reserved (f.flushed B) := by
  have := hg.entries_ge
  constructor
  · rw [hg.entry_flushed (by omega) hf]
    exact h.zero
  · rw [hg.entry_flushed (by omega) hf]
    exact h.one

omit hE in
theorem FatInfo.LeastFree.inRange {g : FatInfo} {B : ℕ → Sector} {k : ℕ} (h : g.LeastFree B k)
    (hr : g.Reserved B) : g.InRange k := by
  refine ⟨?_,h.inTable⟩
  rcases k with _ | _ | k
  · exact absurd h.free hr.zero
  · exact absurd h.free hr.one
  · omega

omit hE in
/-- The descriptor of a file with clusters of its own and an entry behind the table. -/
structure FileS.HasEntry (g : FatInfo) (size : ℕ) (f : FileS) : Prop where
  notRoot : f.fullFirstCluster ≠ g.rootCluster
  cluster : f.fullFirstCluster ≠ 0
  behind : g.activeFatStart + g.sectorsPerFat ≤ f.entrySector
  sector_lt : f.entrySector < size
  number : f.entryNumber < 16

omit hE in
theorem FileS.HasEntry.sector_ne {g : FatInfo} {size : ℕ} {f : FileS} (h : f.HasEntry g size)
    (hg : g.Valid size) : f.entrySector ≠ 0 := by
  have := h.behind
  have := hg.fatPos
  omega

omit hE in
theorem FileS.HasEntry.not_skip {g : FatInfo} {size : ℕ} {f : FileS} (h : f.HasEntry g size)
    (hg : g.Valid size) : ¬ f.SkipsFlush g := by
  rintro (h' | ⟨h',-⟩ | h')
  · exact h.notRoot h'
  · exact h.sector_ne hg h'
  · exact h.cluster h'

omit hE in
theorem FileS.HasEntry.congr {g : FatInfo} {size : ℕ} {f f' : FileS} (h : f.HasEntry g size)
    (hs : f'.still = f.still) : f'.HasEntry g size := by
  have h₁ := FileS.field_of_still FileS.fullFirstCluster (fun _ => rfl) hs
  have h₂ := FileS.field_of_still FileS.entrySector (fun _ => rfl) hs
  have h₃ := FileS.field_of_still FileS.entryNumber (fun _ => rfl) hs
  exact ⟨h₁ ▸ h.notRoot,h₁ ▸ h.cluster,h₂ ▸ h.behind,h₂ ▸ h.sector_lt,h₃ ▸ h.number⟩

/-- Choosing the cluster with index `i` of a chain. -/
theorem fatSelectCluster_at {fd : Fd} {s : FatState} {cs : List ℕ} {i : ℕ}
    (hg : s.fatfs.Valid s.dev.size) (hcs : ∀ c ∈ cs, s.fatfs.InRange c) (hi : i < cs.length) :
    (fatSelectCluster E fd cs[i]).Returns s fun failed t => failed = false ∧
      After fd s t s.dev.blocks (t.fileNum fd) ∧
      (t.fileNum fd).At s.fatfs cs (i * s.fatfs.sectorsPerCluster) ∧
      (t.fileNum fd).cursor = 0 ∧ (t.fileNum fd).Loaded s.dev.blocks ∧
      (t.fileNum fd).flags = (s.fileNum fd).flags ∧
      (t.fileNum fd).fileSector = (s.fileNum fd).fileSector ∧
      (t.fileNum fd).still = (s.fileNum fd).still := by
  obtain ⟨hat,hcursor⟩ := hg.select_at hcs hi (s.fileNum fd)
  refine (fatSelectCluster_returns hE (hat.sector_lt hg hcs)).mono fun failed t ht => ?_
  obtain ⟨hfailed,ht⟩ := ht
  have hne : cs[i] ≠ 1 := by
    have := (hcs _ (List.getElem_mem hi)).1
    omega
  refine ⟨hfailed,⟨ht.but,ht.blocks,rfl⟩,?_⟩
  rw [ht.file]
  refine ⟨⟨hat.inside,hat.cluster,hat.sector,hat.left⟩,hcursor,rfl,?_⟩
  rw [FileS.select,if_neg hne]
  exact ⟨rfl,rfl,rfl⟩

/-- A descriptor that is not at the end of its chain moves to the next sector. -/
theorem fatNextSectorWith_inside {ffi : Fd → FatM ℤ} {fd : Fd} {s : FatState} {a q : ℕ} {cs : List ℕ}
    (hg : s.fatfs.Valid s.dev.size) (hcs : s.fatfs.Chain s.dev.blocks a cs)
    (hat : (s.fileNum fd).At s.fatfs cs q) (hq : q + 1 < s.fatfs.span cs) :
    (fatNextSectorWith ffi E fd).Returns s fun failed t => failed = false ∧
      After fd s t ((s.fileNum fd).flushed s.dev.blocks) (t.fileNum fd) ∧
      Arrived s.fatfs cs (q+1) ((s.fileNum fd).flushed s.dev.blocks) (s.fileNum fd) (t.fileNum fd) ∧
      (t.fileNum fd).flags.fsDirty = (s.fileNum fd).flags.fsDirty := by
  set g := s.fatfs with hgs
  set f := s.fileNum fd with hf
  set B := f.flushed s.dev.blocks with hB
  have hlow := hat.dataStart_le
  have hpos := hg.dataStart_pos
  have hlt := hat.sector_lt hg hcs.inRange
  have hchain : g.Chain B a cs := hg.chain_flushed hcs hlow
  have hne : f.sector ≠ 0 := by omega
  refine (fatFlushWith_returns hE hne hlt).bind fun r t ht => ?_
  obtain ⟨rfl,ht⟩ := ht
  refine returns_ite (by simp) fun _ => returns_file ?_
  rw [ht.file]
  refine returns_ite (fun hleft => ?_) fun hleft => ?_
  · have hleft' : 0 < g.sectorsPerCluster - 1 - q % g.sectorsPerCluster := hat.left ▸ hleft
    obtain ⟨hdiv,hmod,hnext⟩ := @FatInfo.Valid.sectorAt_succ g _ hg cs q hleft'
    have hlt' := (hg.sectorAt_lt hcs.inRange hq).2
    have hle := hg.size
    have hsec : u32 (f.sector + 1) = g.sectorAt cs (q+1) := by
      rw [hnext,hat.sector]
      exact u32_of_lt (by omega)
    refine (updateFile_returns fd _ t).bind fun _ u hu => returns_file ?_
    rw [ht.blocks,ht.file] at hu
    have hsu := ht.trans hu
    rw [hu.file]
    refine (readBuffer_returns hE (by rw [hsu.size]; exact hsec ▸ hlt')).mono fun failed v hv => ?_
    obtain ⟨hfailed,hv⟩ := hv
    rw [hsu.blocks,hsu.file] at hv
    refine ⟨hfailed,⟨(hsu.trans hv).but,hv.blocks,rfl⟩,?_⟩
    rw [hv.file]
    refine ⟨⟨⟨hq,?_,hsec,?_⟩,rfl,rfl,rfl,rfl,rfl⟩,rfl⟩
    · rw [hdiv]
      exact hat.cluster
    · change f.sectorsLeft - 1 = _
      rw [hat.left,hmod]
      omega
  · have hleft' : g.sectorsPerCluster - 1 - q % g.sectorsPerCluster = 0 := by
      rw [← hat.left]
      exact Nat.eq_zero_of_not_pos hleft
    have hposition := hg.position_succ hleft'
    obtain ⟨hi,hcluster⟩ := hat.getElem hg
    have hi' : q / g.sectorsPerCluster + 1 < cs.length := by
      rw [hposition,FatInfo.span] at hq
      exact Nat.lt_of_mul_lt_mul_right hq
    have htg : t.fatfs = g := ht.fatfs
    have hnext := @fatNextClusterWith_inside E hE ffi fd t cs[q / g.sectorsPerCluster + 1]
      (by rw [ht.file]; rfl) (by rw [htg,ht.size]; exact hg)
      (by rw [htg,ht.file]; exact hat.inRange hg hcs.inRange)
      (by
        rw [htg,ht.file,ht.blocks]
        change g.next B f.cluster = _
        rw [hcluster]
        exact hchain.links.next_getElem hi')
      (by rw [htg]; exact hcs.inRange _ (List.getElem_mem hi'))
    refine hnext.bind fun p u hu => ?_
    obtain ⟨rfl,hu⟩ := hu
    rw [ht.blocks,ht.file] at hu
    have hsu := ht.trans hu
    refine returns_ite (fun _ => ?_)
      fun h => absurd (Int.lt_of_lt_of_le (by decide) (Int.natCast_nonneg _)) h
    refine (updateFile_returns fd _ u).bind fun _ v hv => ?_
    rw [hu.blocks,hu.file] at hv
    have hsv := hsu.trans hv
    have hselect := @fatSelectCluster_at E hE fd v cs (q / g.sectorsPerCluster + 1)
      (by rw [hsv.fatfs,hsv.size]; exact hg) (by rw [hsv.fatfs]; exact hcs.inRange) hi'
    rw [Int.toNat_natCast]
    refine hselect.mono fun failed w hw => ?_
    obtain ⟨hfailed,hw,hwat,hcursor,hloaded,hflags,hsector,hstill⟩ := hw
    rw [hsv.blocks] at hw hloaded
    rw [hsv.fatfs,← hgs,← hposition] at hwat
    rw [hsv.file] at hflags hsector hstill
    refine ⟨hfailed,hsv.trans hw,⟨hwat,hcursor,hloaded,?_,hsector,hstill⟩,?_⟩
    · rw [hflags]
      rfl
    · rw [hflags]
      rfl

/-- Behind the end of its chain a descriptor that may not write finds nothing. -/
theorem fatNextSectorWith_end {ffi : Fd → FatM ℤ} {fd : Fd} {s : FatState} {a q : ℕ} {cs : List ℕ}
    (hg : s.fatfs.Valid s.dev.size) (hcs : s.fatfs.Chain s.dev.blocks a cs)
    (hat : (s.fileNum fd).At s.fatfs cs q) (hq : q + 1 = s.fatfs.span cs)
    (hwrite : (s.fileNum fd).flags.write = false) :
    (fatNextSectorWith ffi E fd).Returns s fun failed t => failed = true ∧
      After fd s t ((s.fileNum fd).flushed s.dev.blocks) { (s.fileNum fd).clean with
        buffer := (s.fileNum fd).flushed s.dev.blocks (s.fatfs.entryBlock (s.fileNum fd).cluster)
        error := fatEndOfFile } := by
  obtain ⟨hleft,hnone⟩ := hat.at_end hg (hg.chain_flushed hcs hat.dataStart_le) hq
  have hne : (s.fileNum fd).sector ≠ 0 := hat.sector_ne hg
  refine (fatFlushWith_returns hE hne (hat.sector_lt hg hcs.inRange)).bind fun r t ht => ?_
  obtain ⟨rfl,ht⟩ := ht
  refine returns_ite (by simp) fun _ => returns_file ?_
  rw [ht.file]
  refine returns_ite (fun h => absurd hleft (Nat.ne_of_gt h)) fun _ => ?_
  have hnext := @fatNextClusterWith_end E hE ffi fd t (by rw [ht.file]; rfl)
    (by rw [ht.fatfs,ht.size]; exact hg)
    (by rw [ht.fatfs,ht.file]; exact hat.inRange hg hcs.inRange)
    (by rw [ht.fatfs,ht.file,ht.blocks]; exact hnone) (by rw [ht.file]; exact hwrite)
  refine hnext.bind fun p u hu => ?_
  obtain ⟨rfl,hu⟩ := hu
  rw [ht.blocks,ht.file,ht.fatfs] at hu
  exact returns_ite (fun h => absurd h (by decide)) fun _ => returns_pure ⟨rfl,ht.trans hu⟩

/-- Behind the end of its chain a descriptor that may write gets a new cluster, if there is one. -/
theorem fatNextSector_extend {fd : Fd} {s : FatState} {a q : ℕ} {cs : List ℕ} (hfuel : 0 < E.fuel)
    (hg : s.fatfs.Valid s.dev.size) (hreserved : s.fatfs.Reserved s.dev.blocks)
    (hcs : s.fatfs.Chain s.dev.blocks a cs) (hat : (s.fileNum fd).At s.fatfs cs q)
    (hq : q + 1 = s.fatfs.span cs) (hwrite : (s.fileNum fd).flags.write = true)
    (hentry : (s.fileNum fd).HasEntry s.fatfs s.dev.size) :
    (fatNextSector E fd).Returns s fun failed t =>
      (∃ k reserved, s.fatfs.LeastFree ((s.fileNum fd).flushed s.dev.blocks) k ∧ failed = false ∧
        After fd s t ((s.fileNum fd).storedOn E reserved (s.fatfs.linked
          ((s.fileNum fd).flushed s.dev.blocks) (s.fileNum fd).cluster k)) (t.fileNum fd) ∧
        Arrived s.fatfs (cs ++ [k]) (q+1) t.dev.blocks (s.fileNum fd) (t.fileNum fd) ∧
        (t.fileNum fd).flags.fsDirty = false) ∨
      s.fatfs.Full ((s.fileNum fd).flushed s.dev.blocks) ∧ failed = true ∧
        Event.freeCluster 0 ∈ t.dev.trace ∧
        After fd s t ((s.fileNum fd).flushed s.dev.blocks) { (s.fileNum fd).clean with
          buffer := (s.fileNum fd).flushed s.dev.blocks
            (s.fatfs.entryBlock (s.fileNum fd).cluster) } := by
  have hlow := hat.dataStart_le
  obtain ⟨hleft,hnone⟩ := hat.at_end hg (hg.chain_flushed hcs hlow) hq
  have hne : (s.fileNum fd).sector ≠ 0 := hat.sector_ne hg
  have hlt := hat.sector_lt hg hcs.inRange
  refine (fatFlushWith_returns hE hne hlt).bind fun r t ht => ?_
  obtain ⟨rfl,ht⟩ := ht
  refine returns_ite (by simp) fun _ => returns_file ?_
  rw [ht.file]
  refine returns_ite (fun h => absurd hleft (Nat.ne_of_gt h)) fun _ => ?_
  have hreserved' := hreserved.flushed hg hlow
  have hnext := @fatNextCluster_extend E hE fd t hfuel (by rw [ht.file]; rfl)
    (by rw [ht.fatfs,ht.size]; exact hg)
    (by rw [ht.fatfs,ht.file]; exact hat.inRange hg hcs.inRange)
    (by rw [ht.fatfs,ht.file,ht.blocks]; exact hnone) (by rw [ht.file]; exact hwrite)
    (by rw [ht.fatfs,ht.blocks]; exact hreserved'.zero)
    (by rw [ht.fatfs,ht.file]; exact hentry.not_skip hg) (by rw [ht.file]; exact hentry.sector_ne hg)
    (by rw [ht.file,ht.size]; exact hentry.sector_lt) (by rw [ht.file,ht.size]; exact hlt)
  refine Returns.bind hnext fun p u hu => ?_
  rw [ht.fatfs,ht.file,ht.blocks] at hu
  rcases hu with ⟨k,reserved,hk,rfl,hu⟩ | ⟨hfull,rfl,hevent,hu⟩
  swap
  · refine returns_ite (fun h => absurd h (by decide)) fun _ => returns_pure (.inr ?_)
    exact ⟨hfull,rfl,hevent,ht.trans hu⟩
  have hsu := ht.trans hu
  refine returns_ite (fun _ => ?_)
    fun h => absurd (Int.lt_of_lt_of_le (by decide) (Int.natCast_nonneg _)) h
  refine (updateFile_returns fd _ u).bind fun _ v hv => ?_
  rw [hu.blocks,hu.file] at hv
  have hsv := hsu.trans hv
  have hcs' : ∀ c ∈ cs ++ [k], s.fatfs.InRange c := by
    intro c hc
    rcases List.mem_append.1 hc with hc | hc
    · exact hcs.inRange c hc
    · obtain rfl := List.mem_singleton.1 hc
      exact hk.inRange hreserved'
  have hi : cs.length < (cs ++ [k]).length := by simp
  have hselect := @fatSelectCluster_at E hE fd v (cs ++ [k]) cs.length
    (by rw [hsv.fatfs,hsv.size]; exact hg) (by rw [hsv.fatfs]; exact hcs') hi
  rw [List.getElem_concat_length rfl] at hselect
  rw [Int.toNat_natCast]
  refine hselect.mono fun failed w hw => .inl ⟨k,reserved,hk,?_⟩
  obtain ⟨hfailed,hw,hwat,hcursor,hloaded,hflags,hsector,hstill⟩ := hw
  rw [hsv.blocks] at hw hloaded
  rw [hsv.fatfs] at hwat
  rw [hsv.file] at hflags hsector hstill
  have hposition : cs.length * s.fatfs.sectorsPerCluster = q + 1 := hq.symm
  rw [hposition] at hwat
  refine ⟨hfailed,hsv.trans hw,⟨hwat,hcursor,?_,?_,hsector,hstill⟩,?_⟩
  · rw [hw.blocks]
    exact hloaded
  · rw [hflags]
    rfl
  · rw [hflags]

end NoFault

end Gristle
