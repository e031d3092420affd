import Gristle.Buffered
import Gristle.Growth

/-! Moving on to the next sector whatever transfers fail and wherever the volume becomes full: the
descriptor stays in its chain, which may have grown, and nothing that belongs to the chain, or to any
other chain one cares about, changes on the way. -/
namespace Gristle
open Prog

/-! ### Transfers and flushes -/

section Total
variable (E : Env) (fd : Fd)

theorem readBuffer_every (b : ℕ) (s : FatState) : (readBuffer E fd b).Returns s fun failed t =>
    ∃ buf, After fd s t s.dev.blocks { s.fileNum fd with buffer := buf } ∧
      (failed = false → buf = s.dev.blocks b) := by
  have h : (readBuffer E fd b).Returns s fun _ _ => True := by
    refine (onDevice_returns (blockRead_total E b s.dev)).bind fun o t _ => ?_
    cases o with
    | none => exact returns_pure trivial
    | some data => exact (updateFile_returns fd _ t).bind fun _ _ _ => returns_pure trivial
  obtain ⟨failed,t,ht,-⟩ := h
  refine ⟨failed,t,ht,?_⟩
  rcases readBuffer_result ht with ⟨rfl,h⟩ | ⟨rfl,h⟩
  · exact ⟨_,h,by simp⟩
  · exact ⟨_,h,fun _ => rfl⟩

theorem writeBlock_every (o : Origin) (b : ℕ) (data : Sector) (s : FatState) :
    (writeBlock E o b data).Returns s fun failed t =>
      failed = true ∧ AfterMedium s t s.dev.blocks ∨
        failed = false ∧ AfterMedium s t (Function.update s.dev.blocks b data) := by
  have h : (Device.blockWrite E o b data).Returns s.dev fun failed d =>
      failed = true ∧ d.blocks = s.dev.blocks ∨
        failed = false ∧ d.blocks = Function.update s.dev.blocks b data := by
    rw [Returns,Device.blockWrite]
    split
    · exact ⟨_,_,rfl,.inl ⟨rfl,rfl⟩⟩
    · exact ⟨_,_,rfl,.inr ⟨rfl,rfl⟩⟩
  refine ((onDevice_returns h).keeps (writeBlock_sameTable E o b data)).mono fun failed t h => ?_
  obtain ⟨⟨h,-⟩,htab⟩ := h
  exact h.imp (fun h => ⟨h.1,htab,h.2⟩) fun h => ⟨h.1,htab,h.2⟩

/-- A buffer that has a sector is written there, or nothing changes. -/
theorem fatFlushWith_every {ffi : Fd → FatM ℤ} {s : FatState} (h₀ : (s.fileNum fd).sector ≠ 0) :
    (fatFlushWith ffi E fd).Returns s fun r t =>
      r ≠ 0 ∧ After fd s t s.dev.blocks (s.fileNum fd) ∨
        r = 0 ∧ After fd s t ((s.fileNum fd).flushed s.dev.blocks) (s.fileNum fd).clean := by
  cases hd : (s.fileNum fd).flags.dirty with
  | false =>
    rw [FileS.flushed_of_clean hd,FileS.clean_of_clean hd]
    exact ⟨0,s,fatFlushWith_clean hd,.inr ⟨rfl,After.refl s⟩⟩
  | true =>
    refine returns_file ?_
    simp only [hd,if_true,if_neg h₀]
    refine (writeBlock_every E _ _ _ s).bind fun failed t ht => ?_
    rcases ht with ⟨rfl,ht⟩ | ⟨rfl,ht⟩
    · exact returns_ite (fun _ => returns_pure (.inl ⟨by decide,ht.after fd⟩)) (by simp)
    · refine returns_ite (by simp) fun _ => (updateFile_returns fd _ t).bind fun _ u hu => ?_
      have ha := ht.after fd
      rw [ha.blocks,ha.file] at hu
      rw [FileS.flushed,hd,if_pos rfl]
      exact returns_pure (.inr ⟨rfl,ha.trans hu⟩)

theorem fatSelectCluster_every (c : ℕ) (s : FatState) : (fatSelectCluster E fd c).Returns s fun failed t =>
    ∃ buf, After fd s t s.dev.blocks { (s.fileNum fd).select s.fatfs c with buffer := buf } ∧
      (failed = false → buf = s.dev.blocks ((s.fileNum fd).select s.fatfs c).sector) := by
  have h : (fatSelectCluster E fd c).Returns s fun _ _ => True :=
    returns_fatfs ((updateFile_returns fd _ s).bind fun _ t _ =>
      returns_file ((readBuffer_every E fd _ t).mono fun _ _ _ => trivial))
  obtain ⟨failed,t,ht,-⟩ := h
  exact ⟨failed,t,ht,fatSelectCluster_result ht⟩

/-- The search for a free cluster took the least one, or it changed nothing and reports an error. -/
def TriesCluster (s t : FatState) (k : ℕ) : Prop :=
  (k = 0 ∨ k = 0xFFFFFFFF) ∧ AfterMedium s t s.dev.blocks ∨
    s.fatfs.LeastFree s.dev.blocks k ∧
      AfterMedium s t (s.fatfs.setEntry s.dev.blocks k s.fatfs.endMark)

theorem TriesCluster.of_same {s t u v : FatState} {k : ℕ} (h : TriesCluster t u k)
    (hs : AfterMedium s t s.dev.blocks) (hu : AfterMedium u v u.dev.blocks) : TriesCluster s v k := by
  unfold TriesCluster at h ⊢
  rw [hs.table.fatfs,hs.blocks] at h
  exact h.imp (fun h => ⟨h.1,hs.trans (h.2.trans (h.2.blocks ▸ hu))⟩)
    fun h => ⟨h.1,hs.trans (h.2.trans (h.2.blocks ▸ hu))⟩

theorem freeClusterLoop_every {n m : ℕ} {s : FatState} (hg : s.fatfs.Table s.dev.size)
    (hm : m + n = s.fatfs.sectorsPerFat)
    (hused : ∀ c < m * s.fatfs.perBlock, s.fatfs.entry s.dev.blocks c ≠ 0) :
    (freeClusterLoop E n (s.fatfs.activeFatStart + m)).Returns s fun k t => TriesCluster s t k := by
  induction n generalizing s m with
  | zero => exact (sysUnlock_returns s).bind fun _ t ht => returns_pure (.inl ⟨.inl rfl,ht.1⟩)
  | succ n ih =>
    set g := s.fatfs with hgs
    refine (readSysbuf_total E _ s).bind fun failed t ht => ?_
    obtain ⟨ht,hbuf⟩ := ht
    refine returns_ite (fun _ => returns_pure (.inl ⟨.inr rfl,ht⟩)) fun hread => ?_
    have hbuf := hbuf (Bool.eq_false_iff.2 hread)
    refine returns_fatfs (returns_sysbuf ?_)
    have hgt : t.fatfs = g := ht.table.fatfs
    rw [hgt,hbuf]
    have hat (j : ℕ) (hj : j < g.perBlock) : g.entryAt (s.dev.blocks (g.activeFatStart + m))
        (j * g.fatEntryLen) = g.entry s.dev.blocks (m * g.perBlock + j) := by
      obtain ⟨-,hblock,hoffset⟩ := hg.entry_in_block (show m < g.sectorsPerFat by omega) hj
      rw [FatInfo.entry,hblock,hoffset]
    cases hfind : g.freeIndex (s.dev.blocks (g.activeFatStart + m)) g.perBlock 0 with
    | none =>
      have hnone := FatInfo.freeIndex_none hfind
      have hloop := ih (s := t) (m := m+1) (by rw [hgt,ht.table.device.size]; exact hg)
        (by rw [hgt]; omega) (by
          rw [hgt,ht.blocks]
          intro c hc
          by_cases hlt : c < m * g.perBlock
          · exact hused c hlt
          · obtain ⟨j,rfl⟩ := Nat.exists_eq_add_of_le (Nat.le_of_not_lt hlt)
            rw [Nat.succ_mul] at hc
            rw [← hat j (by omega)]
            exact hnone j (Nat.zero_le j) (by omega))
      rw [hgt] at hloop
      exact hloop.mono fun k u hu => hu.of_same ht (AfterMedium.refl u)
    | some j =>
      obtain ⟨-,hj,hzero,hleast⟩ := FatInfo.freeIndex_some hfind
      rw [Nat.zero_add] at hj
      obtain ⟨hc,hblock,hoffset⟩ := hg.entry_in_block (show m < g.sectorsPerFat by omega) hj
      dsimp only
      refine returns_sysbuf ((setSysbuf_returns _ t).bind fun _ u hu => returns_sysbuf ?_)
      rw [hu.2,hbuf]
      have hsu := ht.trans (ht.blocks ▸ hu.1)
      refine (writeBlock_every E _ _ _ u).bind fun failed v hv => ?_
      rw [hsu.blocks] at hv
      rcases hv with ⟨rfl,hv⟩ | ⟨rfl,hv⟩
      · refine returns_ite (fun _ => ?_) (by simp)
        refine (sysUnlock_returns v).bind fun _ w hw => returns_pure (.inl ⟨.inr rfl,?_⟩)
        exact hsu.trans (hv.trans (hv.blocks ▸ hw.1))
      refine returns_ite (by simp) fun _ => ?_
      refine (sysUnlock_returns v).bind fun _ w hw => returns_pure (.inr ?_)
      have hk : u32 ((g.activeFatStart + m - g.activeFatStart) * g.perBlock + j) =
          m * g.perBlock + j := by
        have := hg.width
        rw [Nat.add_sub_cancel_left]
        exact u32_of_lt (by omega)
      rw [hk]
      refine ⟨⟨hc,by rw [← hat j hj,hzero],fun c hlt => ?_⟩,?_⟩
      · by_cases h : c < m * g.perBlock
        · exact hused c h
        · obtain ⟨i,rfl⟩ := Nat.exists_eq_add_of_le (Nat.le_of_not_lt h)
          rw [← hat i (by omega)]
          exact hleast i (Nat.zero_le i) (by omega)
      · have hsw := hsu.trans (hv.trans (hv.blocks ▸ hw.1))
        rwa [FatInfo.markEnd_eq,← hoffset,← hblock] at hsw

theorem fatGetFreeCluster_every {s : FatState} (hg : s.fatfs.Table s.dev.size) :
    (fatGetFreeCluster E).Returns s fun k t => TriesCluster s t k := by
  have hn : u32 (s.fatfs.activeFatStart + s.fatfs.sectorsPerFat) - s.fatfs.activeFatStart =
      s.fatfs.sectorsPerFat := by
    have := hg.last
    rw [u32_of_lt (by omega),Nat.add_sub_cancel_left]
  refine returns_fatfs ?_
  rw [hn]
  refine (sysLock_total E s).bind fun granted t ht => ?_
  have hgt := ht.table.fatfs
  have hfound : (if granted = true then freeClusterLoop E s.fatfs.sectorsPerFat s.fatfs.activeFatStart
      else pure 0).Returns t fun k u => TriesCluster t u k := by
    refine returns_ite (fun _ => ?_) fun _ => returns_pure (.inl ⟨.inl rfl,AfterMedium.refl t⟩)
    have hloop := @freeClusterLoop_every E s.fatfs.sectorsPerFat 0 t
      (by rw [hgt,ht.table.device.size]; exact hg) (by rw [hgt,Nat.zero_add]) (by simp)
    rwa [hgt,Nat.add_zero] at hloop
  exact hfound.bind fun k u hu => (log_returns _ u).bind fun _ v hv => returns_pure (hu.of_same ht hv.1)

/-- The flush of an entry that has its slot touches the block of the slot only, whatever fails. -/
theorem fatFlushFileinfo_every {s : FatState} (hfuel : 0 < E.fuel) (hclean : (s.fileNum fd).flags.dirty = false)
    (hentry : (s.fileNum fd).entrySector ≠ 0) : (fatFlushFileinfo E fd).Returns s fun _ t =>
      ∃ buf mark, After fd s t t.dev.blocks { s.fileNum fd with buffer := buf, flags.fsDirty := mark } ∧
        ∀ b, b ≠ (s.fileNum fd).entrySector → t.dev.blocks b = s.dev.blocks b := by
  obtain ⟨n,hn⟩ := Nat.exists_eq_succ_of_ne_zero hfuel.ne'
  rw [fatFlushFileinfo,hn]
  have hsame {t : FatState} {buf : Sector} (ht : After fd s t s.dev.blocks { s.fileNum fd with buffer := buf }) :
      ∃ buf mark, After fd s t t.dev.blocks { s.fileNum fd with buffer := buf, flags.fsDirty := mark } ∧
        ∀ b, b ≠ (s.fileNum fd).entrySector → t.dev.blocks b = s.dev.blocks b :=
    ⟨buf,_,⟨ht.but,rfl,ht.file⟩,fun b _ => by rw [ht.blocks]⟩
  refine returns_file (returns_fatfs ?_)
  refine returns_ite (fun _ => returns_pure (hsame (After.refl s))) fun _ => ?_
  refine returns_ite (fun _ => returns_pure (hsame (After.refl s))) fun _ => ?_
  refine returns_ite (fun _ => returns_pure (hsame (After.refl s))) fun _ => ?_
  refine (junk_returns E s).bind fun junk t ht => ?_
  have ht := ht.after fd
  have htclean : (t.fileNum fd).flags.dirty = false := by rw [ht.file]; exact hclean
  refine returns_bind_of_ok (fatFlushWith_clean htclean) (returns_ite (by simp) fun _ => ?_)
  have hlocate : locateEntry (fatFlushFileinfoAux E n) E fd t = readBuffer E fd (t.fileNum fd).entrySector t :=
    locateEntry_of_entry (by rw [ht.file]; exact hentry)
  have hread := readBuffer_every E fd (t.fileNum fd).entrySector t
  rw [Returns,← hlocate] at hread
  refine Returns.bind hread fun failed u hu => ?_
  obtain ⟨buf,hu,-⟩ := hu
  rw [ht.blocks,ht.file] at hu
  have hsu := ht.trans hu
  refine returns_ite (fun _ => returns_pure (hsame hsu)) fun _ => ?_
  refine (updateFile_returns fd _ u).bind fun _ v hv => returns_file ?_
  rw [hsu.blocks,hsu.file] at hv
  have hsv := hsu.trans hv
  rw [hsv.file]
  refine (writeBlock_every E _ _ _ v).bind fun failed w hw => ?_
  rcases hw with ⟨rfl,hw⟩ | ⟨rfl,hw⟩
  · have hw := hw.after fd
    rw [hsv.blocks,hsv.file] at hw
    exact returns_ite (fun _ => returns_pure (hsame (hsv.trans hw))) (by simp)
  refine returns_ite (by simp) fun _ => ?_
  have hw := hw.after fd
  rw [hsv.blocks,hsv.file] at hw
  have hsw := hsv.trans hw
  have hstored {t : FatState} {buf : Sector} {mark : Bool} {B : ℕ → Sector}
      (ht : After fd s t B { s.fileNum fd with buffer := buf, flags.fsDirty := mark }) (hB : B = w.dev.blocks) :
      ∃ buf mark, After fd s t t.dev.blocks { s.fileNum fd with buffer := buf, flags.fsDirty := mark } ∧
        ∀ b, b ≠ (s.fileNum fd).entrySector → t.dev.blocks b = s.dev.blocks b :=
    ⟨buf,mark,⟨ht.but,rfl,ht.file⟩,fun b hb => by rw [ht.blocks,hB,hsw.blocks,Function.update_of_ne hb]⟩
  refine (readBuffer_every E fd _ w).bind fun failed x hx => ?_
  obtain ⟨buf',hx,-⟩ := hx
  rw [hsw.file] at hx
  have hsx := hsw.trans hx
  refine returns_ite (fun _ => returns_pure (hstored hsx rfl)) fun _ => ?_
  refine (updateFile_returns fd _ x).bind fun _ y hy => returns_pure ?_
  rw [hsx.blocks,hsx.file] at hy
  exact hstored (hsx.trans hy) rfl

/-- A descriptor at the end of its chain gets a new cluster behind it, or the chain stays as it is. -/
theorem extendChain_every {s : FatState} (hfuel : 0 < E.fuel) (hg : s.fatfs.Valid s.dev.size)
    (hclean : (s.fileNum fd).flags.dirty = false) (hentry : (s.fileNum fd).entrySector ≠ 0)
    (hreserved : s.fatfs.entry s.dev.blocks 0 ≠ 0) :
    (extendChain (fatFlushFileinfo E) E fd).Returns s fun p t =>
      (p.1 = -1 ∧ (∃ buf, After fd s t t.dev.blocks { s.fileNum fd with buffer := buf }) ∧
        (t.dev.blocks = s.dev.blocks ∨ ∃ k, s.fatfs.LeastFree s.dev.blocks k ∧
          t.dev.blocks = s.fatfs.setEntry s.dev.blocks k s.fatfs.endMark)) ∨
      ∃ k : ℕ, p.1 = k ∧ s.fatfs.LeastFree s.dev.blocks k ∧
        (∃ buf mark, After fd s t t.dev.blocks { s.fileNum fd with buffer := buf, flags.fsDirty := mark }) ∧
        ∀ b, b ≠ (s.fileNum fd).entrySector →
          t.dev.blocks b = s.fatfs.linked s.dev.blocks (s.fileNum fd).cluster k b := by
  refine (fatGetFreeCluster_every E hg.table).bind fun k t ht => ?_
  rcases ht with ⟨hk,ht⟩ | ⟨hk,ht⟩
  · have ht := ht.after fd
    have hstay : (∃ buf, After fd s t t.dev.blocks { s.fileNum fd with buffer := buf }) ∧
        (t.dev.blocks = s.dev.blocks ∨ ∃ k, s.fatfs.LeastFree s.dev.blocks k ∧
          t.dev.blocks = s.fatfs.setEntry s.dev.blocks k s.fatfs.endMark) :=
      ⟨⟨_,ht.but,rfl,ht.file⟩,.inl ht.blocks⟩
    refine returns_ite (fun _ => returns_pure (.inl ⟨rfl,hstay⟩)) fun h₀ => ?_
    exact returns_ite (fun _ => returns_pure (.inl ⟨rfl,hstay⟩)) fun h => absurd (hk.resolve_left h₀) h
  have hk₀ : k ≠ 0 := by
    rintro rfl
    exact hreserved hk.free
  have hkle := hg.entries_le
  have hklt := hk.inTable
  refine returns_ite (fun h => absurd h hk₀) fun _ => returns_ite (fun h => absurd h (by omega)) fun _ => ?_
  have ht := ht.after fd
  refine returns_fatfs (returns_file ?_)
  rw [ht.fatfs,ht.file]
  have hmarked {u : FatState} {buf : Sector} (hu : After fd s u
      (s.fatfs.setEntry s.dev.blocks k s.fatfs.endMark) { s.fileNum fd with buffer := buf }) :
      (∃ buf, After fd s u u.dev.blocks { s.fileNum fd with buffer := buf }) ∧
        (u.dev.blocks = s.dev.blocks ∨ ∃ k, s.fatfs.LeastFree s.dev.blocks k ∧
          u.dev.blocks = s.fatfs.setEntry s.dev.blocks k s.fatfs.endMark) :=
    ⟨⟨buf,hu.but,rfl,hu.file⟩,.inr ⟨k,hk,hu.blocks⟩⟩
  refine (readBuffer_every E fd _ t).bind fun failed u hu => ?_
  obtain ⟨buf,hu,hbuf⟩ := hu
  rw [ht.blocks,ht.file] at hu
  rw [ht.blocks] at hbuf
  have hsu := ht.trans hu
  refine returns_ite (fun _ => returns_pure (.inl ⟨rfl,hmarked hsu⟩)) fun hread => ?_
  obtain rfl := hbuf (Bool.eq_false_iff.2 hread)
  refine (updateFile_returns fd _ u).bind fun _ v hv => returns_file ?_
  rw [hsu.blocks,hsu.file] at hv
  have hsv := hsu.trans hv
  rw [hsv.file]
  refine (writeBlock_every E _ _ _ v).bind fun failed w hw => ?_
  rcases hw with ⟨rfl,hw⟩ | ⟨rfl,hw⟩
  · have hw := hw.after fd
    rw [hsv.blocks,hsv.file] at hw
    exact returns_ite (fun _ => returns_pure (.inl ⟨rfl,hmarked (hsv.trans hw)⟩)) (by simp)
  refine returns_ite (by simp) fun _ => ?_
  have hw := hw.after fd
  rw [hsv.blocks,hsv.file] at hw
  have hsw := hsv.trans hw
  have hlinked : w.dev.blocks = s.fatfs.linked s.dev.blocks (s.fileNum fd).cluster k := hsw.blocks
  refine (fatFlushFileinfo_every E fd hfuel (by rw [hsw.file]; exact hclean)
    (by rw [hsw.file]; exact hentry)).bind fun _ x hx => ?_
  obtain ⟨buf',mark,hx,hblocks⟩ := hx
  rw [hsw.file] at hx hblocks
  refine returns_pure (.inr ⟨k,?_,hk,⟨buf',mark,hsw.trans hx⟩,fun b hb => ?_⟩)
  · exact i32_of_lt (by omega)
  · rw [hblocks b hb,hlinked]

end Total

/-! ### A descriptor in a chain -/

/-- The block lies outside the table, the clusters `cs` and all free clusters. -/
structure FatInfo.Apart (g : FatInfo) (B : ℕ → Sector) (cs : List ℕ) (b : ℕ) : Prop where
  outside : g.Outside b
  own : ∀ c ∈ cs, ∀ j < g.sectorsPerCluster, b ≠ g.clusterSector c j
  free : ∀ c, g.InRange c → g.entry B c = 0 → ∀ j < g.sectorsPerCluster, b ≠ g.clusterSector c j

/-- The descriptor stands on sector `q` of the chain `ws` that starts at `a`; the clusters `ks` are others
that are in use, and its entry lies elsewhere. -/
structure Walks (g : FatInfo) (B : ℕ → Sector) (a : ℕ) (ws ks : List ℕ) (q : ℕ) (f : FileS) : Prop where
  reserved : g.Reserved B
  chain : g.Chain B a ws
  at_ : f.At g ws q
  others : ∀ c ∈ ks, g.InRange c ∧ g.entry B c ≠ 0 ∧ c ∉ ws
  entry : f.entrySector ≠ 0
  apart : g.Apart B (ws ++ ks) f.entrySector

/-- No cluster has become free. -/
def FatInfo.Busier (g : FatInfo) (B B' : ℕ → Sector) : Prop := ∀ c < g.entries, g.entry B' c = 0 → g.entry B c = 0

/-- The sectors of these clusters are as before, and no cluster has become free. -/
structure FatInfo.Undisturbed (g : FatInfo) (cs : List ℕ) (B B' : ℕ → Sector) : Prop where
  data : ∀ c ∈ cs, ∀ j < g.sectorsPerCluster, B' (g.clusterSector c j) = B (g.clusterSector c j)
  used : g.Busier B B'

section Walks
variable {g : FatInfo} {size : ℕ} {B B' B'' : ℕ → Sector} {a q : ℕ} {ws ks : List ℕ} {f f' : FileS}

theorem FatInfo.Undisturbed.refl (g : FatInfo) (cs : List ℕ) (B : ℕ → Sector) : g.Undisturbed cs B B :=
  ⟨fun _ _ _ _ => rfl,fun _ _ h => h⟩

theorem FatInfo.Undisturbed.trans (h : g.Undisturbed ws B B') (h' : g.Undisturbed ws B' B'') : g.Undisturbed ws B B'' :=
  ⟨fun c hc j hj => (h'.data c hc j hj).trans (h.data c hc j hj),
    fun c hc hzero => h.used c hc (h'.used c hc hzero)⟩

theorem FatInfo.Apart.congr {b : ℕ} (h : g.Apart B ws b) (hs : g.Busier B B') : g.Apart B' ws b :=
  ⟨h.outside,h.own,fun c hc hzero => h.free c hc (hs c hc.2 hzero)⟩

theorem FatInfo.Reserved.congr (hg : g.Valid size) (h : g.Reserved B) (hs : g.Busier B B') :
    g.Reserved B' := by
  have := hg.entries_ge
  exact ⟨fun hz => h.zero (hs 0 (by omega) hz),fun hz => h.one (hs 1 (by omega) hz)⟩

theorem FileS.At.congr (h : f.At g ws q) (hc : f'.cluster = f.cluster) (hs : f'.sector = f.sector)
    (hl : f'.sectorsLeft = f.sectorsLeft) : f'.At g ws q :=
  ⟨h.inside,hc.trans h.cluster,hs.trans h.sector,hl.trans h.left⟩

/-- A place in the chain on a medium that has the chain and the other clusters. -/
theorem Walks.congr (hg : g.Valid size) (h : Walks g B a ws ks q f) (hs : g.Busier B B')
    (he : ∀ c ∈ ws, g.entry B' c = g.entry B c) {q' : ℕ} (hat : f'.At g ws q')
    (hes : f'.entrySector = f.entrySector) : Walks g B' a ws ks q' f' where
  reserved := h.reserved.congr hg hs
  chain := h.chain.congr he
  at_ := hat
  others c hc := by
    obtain ⟨hr,hne,hnot⟩ := h.others c hc
    exact ⟨hr,fun hz => hne (hs c hr.2 hz),hnot⟩
  entry := hes ▸ h.entry
  apart := hes ▸ h.apart.congr hs

theorem Walks.entry_ne (hg : g.Valid size) (h : Walks g B a ws ks q f) {c : ℕ} (hc : c ∈ ws ++ ks) :
    g.entry B c ≠ 0 := by
  rcases List.mem_append.1 hc with hc | hc
  · exact h.chain.entry_ne_zero hg hc
  · exact (h.others c hc).2.1

theorem Walks.inRange (h : Walks g B a ws ks q f) {c : ℕ} (hc : c ∈ ws ++ ks) : g.InRange c := by
  rcases List.mem_append.1 hc with hc | hc
  · exact h.chain.inRange c hc
  · exact (h.others c hc).1

theorem FatInfo.Valid.undisturbed_marked (hg : g.Valid size) {k : ℕ} (hk : g.LeastFree B k) (cs : List ℕ) :
    g.Undisturbed cs B (g.setEntry B k g.endMark) := by
  refine ⟨fun c _ j _ => ?_,fun c hc hzero => ?_⟩
  · exact hg.setEntry_outside B hk.inTable (hg.outside_of_le (FatInfo.Valid.dataStart_le _ _))
  · by_cases hck : c = k
    · rw [hck]
      exact hk.free
    · rwa [hg.table.entry_setEntry_of_ne B hk.inTable hc hck] at hzero

/-- A link and an entry stored elsewhere. -/
theorem Walks.undisturbed_linked (hg : g.Valid size) (h : Walks g B a ws ks q f) {k : ℕ} (hk : g.LeastFree B k)
    (hB : ∀ b, b ≠ f.entrySector → B' b = g.linked B f.cluster k b) :
    (∀ c < g.entries, g.entry B' c = g.entry (g.linked B f.cluster k) c) ∧ g.Undisturbed (ws ++ ks) B B' := by
  have hcr := h.at_.inRange hg h.chain.inRange
  have hkr := hk.inRange h.reserved
  have hentry (c : ℕ) (hc : c < g.entries) : g.entry B' c = g.entry (g.linked B f.cluster k) c :=
    hg.table.entry_congr hc fun b hb hb' => hB b fun heq => by
      have := h.apart.outside
      unfold FatInfo.Outside at this
      omega
  refine ⟨hentry,fun c hc j hj => ?_,fun c hc hzero => ?_⟩
  · rw [hB _ (h.apart.own c hc j hj).symm,
      hg.linked_outside B hcr.2 hkr.2 (hg.outside_of_le (FatInfo.Valid.dataStart_le _ _))]
  · rw [hentry c hc,FatInfo.linked] at hzero
    by_cases hcc : c = f.cluster
    · rw [hcc,hg.table.entry_setEntry _ hcr.2 (hg.cluster_lt hkr.2)] at hzero
      have := hkr.1
      omega
    · rw [hg.table.entry_setEntry_of_ne _ hcr.2 hc hcc] at hzero
      exact (hg.undisturbed_marked hk []).used c hc hzero

end Walks

/-- The descriptor `f'` is in the same cluster as `f`, or in one whose number can be linked. -/
def FileS.Follows (g : FatInfo) (f f' : FileS) : Prop := f'.cluster = f.cluster ∨ f'.cluster < g.endClusterMarker

/-- Where the descriptor is after `fat_next_sector`, which says `true` when it failed: at the same place, on
the next sector of the chain, which may be one cluster longer, or in a new cluster whose number cannot be
linked, because it ends a chain. -/
inductive Crossed (g : FatInfo) (B' : ℕ → Sector) (a : ℕ) (ws ks : List ℕ) (q : ℕ) (f f' : FileS) :
    Bool → Prop
  | stays (walks : Walks g B' a ws ks q f') (fileSector : f'.fileSector = f.fileSector)
      (cursor : f'.cursor = f.cursor) : Crossed g B' a ws ks q f f' true
  | moves {ws' : List ℕ} {failed : Bool} (longer : ws <+: ws') (walks : Walks g B' a ws' ks (q+1) f')
      (fileSector : f'.fileSector = u32 (f.fileSector + 1)) (cursor : f'.cursor = 0)
      (loaded : failed = false → f'.Loaded B') (linked : FileS.Follows g f f') :
      Crossed g B' a ws ks q f f' failed
  | leaves {k : ℕ} {failed : Bool} (last : q + 1 = g.span ws) (lost : ¬ FileS.Follows g f f')
      (chain : g.Chain B' a ws) (walks : Walks g B' k [k] (ws ++ ks) 0 f')
      (fileSector : f'.fileSector = u32 (f.fileSector + 1)) (cursor : f'.cursor = 0)
      (loaded : failed = false → f'.Loaded B') : Crossed g B' a ws ks q f f' failed

/-- What a call of `fat_next_sector` that found the medium `V` behind the buffer did. -/
structure Crossing (fd : Fd) (a : ℕ) (ws ks : List ℕ) (q : ℕ) (V : ℕ → Sector) (s t : FatState)
    (failed : Bool) : Prop where
  but : SameBut fd s t
  still : (t.fileNum fd).still = (s.fileNum fd).still
  undisturbed : s.fatfs.Undisturbed (ws ++ ks) V ((t.fileNum fd).flushed t.dev.blocks)
  others : ∀ c ∈ ks, s.fatfs.entry t.dev.blocks c = s.fatfs.entry V c
  clean : failed = false → (t.fileNum fd).flags.dirty = false
  crossed : Crossed s.fatfs t.dev.blocks a ws ks q (s.fileNum fd) (t.fileNum fd) failed


section Clean
variable {E : Env} (hfuel : 0 < E.fuel) {fd : Fd} {s : FatState} {a q : ℕ} {ws ks : List ℕ}
  (hg : s.fatfs.Valid s.dev.size) (h : Walks s.fatfs s.dev.blocks a ws ks q (s.fileNum fd))
  (hclean : (s.fileNum fd).flags.dirty = false)
include hg h hclean

omit hclean in
theorem Walks.fatNextSector_stays {t : FatState} {buf : Sector} {e : ℕ} {mark : Bool}
    (ht : After fd s t t.dev.blocks
      { s.fileNum fd with buffer := buf, error := e, flags.dirty := false, flags.fsDirty := mark })
    (hB : t.dev.blocks = s.dev.blocks ∨ ∃ k, s.fatfs.LeastFree s.dev.blocks k ∧
      t.dev.blocks = s.fatfs.setEntry s.dev.blocks k s.fatfs.endMark) :
    Crossing fd a ws ks q s.dev.blocks s t true := by
  have hspares : s.fatfs.Undisturbed (ws ++ ks) s.dev.blocks t.dev.blocks := by
    rcases hB with hB | ⟨k,hk,hB⟩
    · rw [hB]
      exact FatInfo.Undisturbed.refl _ _ _
    · rw [hB]
      exact hg.undisturbed_marked hk _
  have hentries (c : ℕ) (hc : c ∈ ws ++ ks) : s.fatfs.entry t.dev.blocks c = s.fatfs.entry s.dev.blocks c := by
    rcases hB with hB | ⟨k,hk,hB⟩
    · rw [hB]
    · have hne : c ≠ k := by
        rintro rfl
        exact h.entry_ne hg hc hk.free
      rw [hB,hg.table.entry_setEntry_of_ne _ hk.inTable (h.inRange hc).2 hne]
  have hdirty : (t.fileNum fd).flags.dirty = false := by rw [ht.file]
  refine ⟨ht.but,?_,?_,fun c hc => hentries c (by simp [hc]),by simp,.stays ?_ ?_ ?_⟩
  · rw [ht.file]
    rfl
  · rw [FileS.flushed_of_clean hdirty]
    exact hspares
  · refine h.congr hg hspares.used (fun c hc => hentries c (by simp [hc])) ?_ ?_
    · rw [ht.file]
      exact h.at_.congr rfl rfl rfl
    · rw [ht.file]
  · rw [ht.file]
  · rw [ht.file]

/-- Inside a cluster the next sector follows. -/
theorem Walks.fatNextSector_within {ffi : Fd → FatM ℤ} (hleft : 0 < (s.fileNum fd).sectorsLeft) :
    (fatNextSectorWith ffi E fd).Returns s fun failed t => Crossing fd a ws ks q s.dev.blocks s t failed := by
  refine returns_bind_of_ok (fatFlushWith_clean hclean) (returns_ite (by simp) fun _ => returns_file ?_)
  rw [if_pos hleft]
  refine (updateFile_returns fd _ s).bind fun _ t ht => returns_file ?_
  rw [ht.file]
  refine (readBuffer_every E fd _ t).mono fun failed u hu => ?_
  obtain ⟨buf,hu,hbuf⟩ := hu
  rw [ht.blocks,ht.file] at hu
  rw [ht.blocks] at hbuf
  have hsu := ht.trans hu
  rw [h.at_.left] at hleft
  obtain ⟨hdiv,hmod,hnext⟩ := @FatInfo.Valid.sectorAt_succ _ _ hg ws q hleft
  have hin : q + 1 < s.fatfs.span ws := by
    have hi := hg.index_lt h.at_.inside
    rw [← hdiv] at hi
    exact Nat.lt_mul_of_div_lt hi hg.spc_pos
  have hlt := (hg.sectorAt_lt h.chain.inRange hin).2
  have hle := hg.size
  have hsec : u32 ((s.fileNum fd).sector + 1) = s.fatfs.sectorAt ws (q+1) := by
    rw [hnext,h.at_.sector]
    exact u32_of_lt (by omega)
  have hdirty : (u.fileNum fd).flags.dirty = false := by
    rw [hsu.file]
    exact hclean
  refine ⟨hsu.but,?_,?_,fun c _ => by rw [hsu.blocks],fun _ => hdirty,?_⟩
  · rw [hsu.file]
    rfl
  · rw [FileS.flushed_of_clean hdirty,hsu.blocks]
    exact FatInfo.Undisturbed.refl _ _ _
  rw [hsu.file,hsu.blocks]
  refine .moves (List.prefix_refl ws) ?_ rfl rfl (fun hread => hbuf hread) (.inl rfl)
  refine h.congr hg (fun _ _ h => h) (fun _ _ => rfl) ⟨hin,?_,hsec,?_⟩ rfl
  · rw [hdiv]
    exact h.at_.cluster
  · change (s.fileNum fd).sectorsLeft - 1 = _
    rw [h.at_.left,hmod]
    omega

include hfuel in
/-- Behind a cluster follows the next one of the chain or, if there is none, a new one. -/
theorem Walks.fatNextCluster_every (hleft : (s.fileNum fd).sectorsLeft = 0) :
    (fatNextCluster E fd).Returns s fun p t =>
      p.1 = -1 ∧ Crossing fd a ws ks q s.dev.blocks s t true ∨
      ∃ c : ℕ, p.1 = c ∧ (∃ buf mark, After fd s t t.dev.blocks
          { s.fileNum fd with buffer := buf, flags.fsDirty := mark }) ∧
        ((∃ hi : q / s.fatfs.sectorsPerCluster + 1 < ws.length, c = ws[q / s.fatfs.sectorsPerCluster + 1] ∧
            c < s.fatfs.endClusterMarker ∧ t.dev.blocks = s.dev.blocks) ∨
          q + 1 = s.fatfs.span ws ∧ s.fatfs.LeastFree s.dev.blocks c ∧
            ∀ b, b ≠ (s.fileNum fd).entrySector →
              t.dev.blocks b = s.fatfs.linked s.dev.blocks (s.fileNum fd).cluster c b) := by
  rw [h.at_.left] at hleft
  have hposition := hg.position_succ hleft
  obtain ⟨hi,hcluster⟩ := h.at_.getElem hg
  have hrange := h.at_.inRange hg h.chain.inRange
  refine returns_bind_of_ok (fatFlushWith_clean hclean) (returns_ite (by simp) fun _ => ?_)
  refine returns_fatfs (returns_file (returns_ite (fun h₁ => ?_) fun _ => ?_))
  · have := hrange.1
    omega
  refine (readBuffer_every E fd _ s).bind fun failed t ht => ?_
  obtain ⟨buf,ht,hbuf⟩ := ht
  have hstays {u : FatState} {buf : Sector} {e : ℕ} (hu : After fd s u u.dev.blocks
      { s.fileNum fd with buffer := buf, error := e })
      (hB : u.dev.blocks = s.dev.blocks ∨ ∃ k, s.fatfs.LeastFree s.dev.blocks k ∧
        u.dev.blocks = s.fatfs.setEntry s.dev.blocks k s.fatfs.endMark) :
      Crossing fd a ws ks q s.dev.blocks s u true := by
    refine @Walks.fatNextSector_stays fd s a q ws ks hg h u buf e (s.fileNum fd).flags.fsDirty
      ⟨hu.but,rfl,hu.file.trans ?_⟩ hB
    rw [← hclean]
  refine returns_ite (fun _ => returns_pure (.inl ⟨rfl,hstays (ht.blocks ▸ ht) (.inl ht.blocks)⟩))
    fun hread => returns_file ?_
  rw [hbuf (Bool.eq_false_iff.2 hread)] at ht
  rw [ht.file]
  dsimp only
  rw [entryAt_block]
  by_cases hlast : q / s.fatfs.sectorsPerCluster + 1 = ws.length
  · have hend : q + 1 = s.fatfs.span ws := by rw [hposition,hlast]; rfl
    have hnone := h.chain.links.next_last hi hlast
    rw [← hcluster,FatInfo.next] at hnone
    have hm := hg.table.kind.marker_pos
    split at hnone
    swap
    · simp at hnone
    refine returns_ite (fun h => absurd h (by omega)) fun _ => returns_ite (fun _ => ?_) fun h => absurd ‹_› h
    refine returns_ite (fun _ => ?_) fun _ => ?_
    · have hrun := @extendChain_every E fd t hfuel (by rw [ht.fatfs,ht.size]; exact hg)
        (by rw [ht.file]; exact hclean) (by rw [ht.file]; exact h.entry)
        (by rw [ht.fatfs,ht.blocks]; exact h.reserved.zero)
      rw [ht.fatfs,ht.blocks,ht.file] at hrun
      refine hrun.mono fun p u hu => ?_
      rcases hu with ⟨hp,⟨buf',hu⟩,hB⟩ | ⟨k,hp,hk,⟨buf',mark,hu⟩,hB⟩
      · exact .inl ⟨hp,hstays (ht.trans hu) hB⟩
      · exact .inr ⟨k,hp,⟨buf',mark,ht.trans hu⟩,.inr ⟨hend,hk,hB⟩⟩
    · refine (updateFile_returns fd _ t).bind fun _ u hu => returns_pure (.inl ⟨rfl,?_⟩)
      rw [ht.blocks,ht.file] at hu
      have hsu := ht.trans hu
      exact hstays (hsu.blocks ▸ hsu) (.inl hsu.blocks)
  · have hi' : q / s.fatfs.sectorsPerCluster + 1 < ws.length := by omega
    have hentry := h.chain.links.next_getElem hi'
    rw [← hcluster,FatInfo.next] at hentry
    split at hentry
    · simp at hentry
    have hval := Option.some.inj hentry
    have hd := h.chain.inRange _ (List.getElem_mem hi')
    have hd₂ := hd.1
    have hdlt := hd.2
    have hle := hg.entries_le
    refine returns_ite (fun h => absurd h (by omega)) fun _ => returns_ite (fun h => absurd h ‹_›) fun _ => ?_
    refine returns_pure (.inr ⟨_,?_,⟨_,_,ht.blocks ▸ ht⟩,.inl ⟨hi',hval,by omega,ht.blocks⟩⟩)
    exact i32_of_lt (by omega)

/-- Turning to the next cluster. -/
theorem Walks.crossed_select {t : FatState} {buf : Sector} {mark : Bool} {c : ℕ} {failed : Bool}
    (hleft : (s.fileNum fd).sectorsLeft = 0)
    (ht : After fd s t t.dev.blocks { (FileS.select s.fatfs c { s.fileNum fd with
      fileSector := u32 ((s.fileNum fd).fileSector + 1) }) with buffer := buf, flags.fsDirty := mark })
    (hbuf : failed = false → (t.fileNum fd).Loaded t.dev.blocks)
    (hc : (∃ hi : q / s.fatfs.sectorsPerCluster + 1 < ws.length, c = ws[q / s.fatfs.sectorsPerCluster + 1] ∧
        c < s.fatfs.endClusterMarker ∧ t.dev.blocks = s.dev.blocks) ∨
      q + 1 = s.fatfs.span ws ∧ s.fatfs.LeastFree s.dev.blocks c ∧ ∀ b, b ≠ (s.fileNum fd).entrySector →
        t.dev.blocks b = s.fatfs.linked s.dev.blocks (s.fileNum fd).cluster c b) :
    Crossing fd a ws ks q s.dev.blocks s t failed := by
  rw [h.at_.left] at hleft
  have hposition := hg.position_succ hleft
  obtain ⟨hi,hcluster⟩ := h.at_.getElem hg
  have hrange : s.fatfs.InRange c := by
    rcases hc with ⟨hi',rfl,-,-⟩ | ⟨-,hk,-⟩
    · exact h.chain.inRange _ (List.getElem_mem hi')
    · exact hk.inRange h.reserved
  have hone : c ≠ 1 := by
    have := hrange.1
    omega
  have hselect : FileS.select s.fatfs c { s.fileNum fd with
      fileSector := u32 ((s.fileNum fd).fileSector + 1) } = { s.fileNum fd with
        fileSector := u32 ((s.fileNum fd).fileSector + 1), sector := s.fatfs.firstSector c
        sectorsLeft := u8 (s.fatfs.sectorsPerCluster + 2^8 - 1), cluster := c, cursor := 0 } := if_neg hone
  have hplace {cs : List ℕ} {i : ℕ} (hi : i < cs.length) (hcs : ∀ d ∈ cs, s.fatfs.InRange d) (hci : c = cs[i]) :
      (t.fileNum fd).At s.fatfs cs (i * s.fatfs.sectorsPerCluster) := by
    have hat := (hg.select_at hcs hi { s.fileNum fd with
      fileSector := u32 ((s.fileNum fd).fileSector + 1) }).1
    rw [← hci] at hat
    rw [ht.file]
    exact hat.congr rfl rfl rfl
  have hdirty : (t.fileNum fd).flags.dirty = false := by
    rw [ht.file,hselect]
    exact hclean
  have hfs : (t.fileNum fd).fileSector = u32 ((s.fileNum fd).fileSector + 1) := by rw [ht.file,hselect]
  have hcursor : (t.fileNum fd).cursor = 0 := by rw [ht.file,hselect]
  have hes : (t.fileNum fd).entrySector = (s.fileNum fd).entrySector := by rw [ht.file,hselect]
  have hcl : (t.fileNum fd).cluster = c := by rw [ht.file,hselect]
  have hstill : (t.fileNum fd).still = (s.fileNum fd).still := by
    rw [ht.file,hselect]
    rfl
  rcases hc with ⟨hi',hc,hsmall,hB⟩ | ⟨hend,hk,hB⟩
  · have hsp := FatInfo.Undisturbed.refl s.fatfs (ws ++ ks) s.dev.blocks
    refine ⟨ht.but,hstill,?_,fun d _ => by rw [hB],fun _ => hdirty,?_⟩
    · rw [FileS.flushed_of_clean hdirty,hB]
      exact hsp
    refine .moves (List.prefix_refl ws) ?_ hfs hcursor hbuf (.inr (hcl ▸ hsmall))
    rw [hB,hposition]
    exact h.congr hg hsp.used (fun _ _ => rfl) (hplace hi' h.chain.inRange hc) hes
  have hkr := hk.inRange h.reserved
  have hcr := h.at_.inRange hg h.chain.inRange
  obtain ⟨hentry,hsp⟩ := h.undisturbed_linked hg hk hB
  have hfresh : c ∉ ws ++ ks := fun hmem => h.entry_ne hg hmem hk.free
  have hmem : (s.fileNum fd).cluster ∈ ws := by
    rw [h.at_.cluster]
    exact hg.getD_mem h.at_.inside
  have hkept (d : ℕ) (hd : d ∈ ws ++ ks) (hne : d ≠ (s.fileNum fd).cluster) :
      s.fatfs.entry t.dev.blocks d = s.fatfs.entry s.dev.blocks d := by
    have hdr := h.inRange hd
    rw [hentry d hdr.2]
    refine hg.entry_linked _ hcr.2 hkr.2 hdr.2 hne ?_
    rintro rfl
    exact hfresh hd
  have hothers (d : ℕ) (hd : d ∈ ks) : s.fatfs.entry t.dev.blocks d = s.fatfs.entry s.dev.blocks d := by
    refine hkept d (by simp [hd]) ?_
    rintro rfl
    exact (h.others _ hd).2.2 hmem
  have hmark : s.fatfs.entry t.dev.blocks c = s.fatfs.endMark := by
    have hne : c ≠ (s.fileNum fd).cluster := by
      rintro rfl
      exact hfresh (by simp [hmem])
    rw [hentry c hkr.2,FatInfo.linked,hg.table.entry_setEntry_of_ne _ hcr.2 hkr.2 hne,
      hg.table.entry_setEntry _ hkr.2 hg.table.kind.endMark_lt]
  have hle := hg.table.kind.marker_le_endMark
  have hpos := hg.table.kind.marker_pos
  have happart (cs : List ℕ) (hcs : ∀ d ∈ cs, d ∈ ws ++ ks ∨ d = c) :
      s.fatfs.Apart t.dev.blocks cs (t.fileNum fd).entrySector := by
    rw [hes]
    refine ⟨h.apart.outside,fun d hd j hj => ?_,fun d hd hz => h.apart.free d hd (hsp.used d hd.2 hz)⟩
    rcases hcs d hd with hd | rfl
    · exact h.apart.own d hd j hj
    · exact h.apart.free d hkr hk.free j hj
  have hlast : q / s.fatfs.sectorsPerCluster + 1 = ws.length := by
    rw [hposition,FatInfo.span] at hend
    exact Nat.eq_of_mul_eq_mul_right hg.spc_pos hend
  have hnone : s.fatfs.next s.dev.blocks (s.fileNum fd).cluster = none := by
    rw [hcluster]
    exact h.chain.links.next_last hi hlast
  refine ⟨ht.but,hstill,?_,hothers,fun _ => hdirty,?_⟩
  · rw [FileS.flushed_of_clean hdirty]
    exact hsp
  by_cases hsmall : c < s.fatfs.endClusterMarker
  · have hchain : s.fatfs.Chain t.dev.blocks a (ws ++ [c]) :=
      (h.chain.linked hg hsmall hmem hnone hkr hk.free).congr fun d hd => hentry d (by
        rcases List.mem_append.1 hd with hd | hd
        · exact (h.chain.inRange d hd).2
        · exact List.mem_singleton.1 hd ▸ hkr.2)
    refine .moves (List.prefix_append ws [c]) ⟨h.reserved.congr hg hsp.used,hchain,?_,fun d hd => ?_,hes ▸ h.entry,?_⟩
      hfs hcursor hbuf (.inr (hcl ▸ hsmall))
    · have hat := @hplace (ws ++ [c]) ws.length (by simp) hchain.inRange (by simp)
      rwa [show q + 1 = ws.length * s.fatfs.sectorsPerCluster from hend]
    · obtain ⟨hr,hne,hnot⟩ := h.others d hd
      refine ⟨hr,by rwa [hothers d hd],fun hm => ?_⟩
      rcases List.mem_append.1 hm with hm | hm
      · exact hnot hm
      · exact hfresh (by rw [← List.mem_singleton.1 hm]; simp [hd])
    · refine happart _ fun d hd => ?_
      simp only [List.mem_append,List.mem_singleton] at hd ⊢
      rcases hd with (hd | hd) | hd
      · exact .inl (.inl hd)
      · exact .inr hd
      · exact .inl (.inr hd)
  · have hself : s.fatfs.Chain t.dev.blocks c [c] := by
      refine ⟨.last ?_,fun d hd => List.mem_singleton.1 hd ▸ hkr⟩
      rw [FatInfo.next,hmark,if_pos hle]
    have hold : s.fatfs.Chain t.dev.blocks a ws := by
      refine ⟨h.chain.links.congr fun d hd => ?_,h.chain.inRange⟩
      by_cases hdc : d = (s.fileNum fd).cluster
      · rw [hdc,hnone,FatInfo.next,hentry _ hcr.2,FatInfo.linked,
          hg.table.entry_setEntry _ hcr.2 (hg.cluster_lt hkr.2),if_pos (Nat.le_of_not_lt hsmall)]
      · rw [FatInfo.next,FatInfo.next,hkept d (by simp [hd]) hdc]
    refine .leaves hend ?_ hold ⟨h.reserved.congr hg hsp.used,hself,?_,fun d hd => ?_,hes ▸ h.entry,?_⟩ hfs hcursor hbuf
    · rintro (heq | hlt)
      · rw [hcl] at heq
        exact hfresh (by rw [heq]; simp [hmem])
      · rw [hcl] at hlt
        exact hsmall hlt
    · have hat := @hplace [c] 0 (by simp) hself.inRange (by simp)
      rwa [Nat.zero_mul] at hat
    · refine ⟨h.inRange hd,fun hz => h.entry_ne hg hd (hsp.used d (h.inRange hd).2 hz),fun hm => ?_⟩
      rw [List.mem_singleton.1 hm] at hd
      exact hfresh hd
    · refine happart _ fun d hd => ?_
      rcases List.mem_append.1 hd with hd | hd
      · exact .inr (List.mem_singleton.1 hd)
      · exact .inl hd

include hfuel in
theorem Walks.fatNextSector_clean : (fatNextSector E fd).Returns s fun failed t =>
    Crossing fd a ws ks q s.dev.blocks s t failed := by
  by_cases hleft : 0 < (s.fileNum fd).sectorsLeft
  · exact h.fatNextSector_within hg hclean hleft
  refine returns_bind_of_ok (fatFlushWith_clean hclean) (returns_ite (by simp) fun _ => returns_file ?_)
  rw [if_neg hleft]
  have hzero := Nat.eq_zero_of_not_pos hleft
  refine (h.fatNextCluster_every hfuel hg hclean hzero).bind fun p t ht => ?_
  obtain ⟨c,e⟩ := p
  rcases ht with ⟨hp,ht⟩ | ⟨k,hp,⟨buf,mark,ht⟩,hk⟩
  · obtain rfl : c = -1 := hp
    exact returns_ite (fun h => absurd h (by decide)) fun _ => returns_pure ht
  obtain rfl : c = k := hp
  refine returns_ite (fun _ => ?_) fun h => absurd (Int.lt_of_lt_of_le (by decide) (Int.natCast_nonneg k)) h
  refine (updateFile_returns fd _ t).bind fun _ u hu => ?_
  rw [ht.file] at hu
  rw [Int.toNat_natCast]
  have hsu := ht.trans hu
  refine (fatSelectCluster_every E fd k u).mono fun failed v hv => ?_
  obtain ⟨buf',hv,hbuf⟩ := hv
  rw [hsu.fatfs,hsu.file] at hv hbuf
  have hsv := hsu.trans hv
  have hB : v.dev.blocks = t.dev.blocks := hsv.blocks.trans hsu.blocks
  have hsv' : After fd s v v.dev.blocks { (FileS.select s.fatfs k { s.fileNum fd with
      fileSector := u32 ((s.fileNum fd).fileSector + 1) }) with buffer := buf', flags.fsDirty := mark } := by
    refine ⟨hsv.but,rfl,hsv.file.trans ?_⟩
    unfold FileS.select
    split <;> rfl
  refine h.crossed_select hg hclean hzero hsv' (fun hread => ?_) ?_
  · rw [FileS.Loaded,hsv.file,hsv.blocks]
    exact hbuf hread
  · rw [hB]
    exact hk

end Clean

/-- The step to the next sector, from the flush of the buffer on. -/
theorem Walks.fatNextSector_every {E : Env} (hfuel : 0 < E.fuel) {fd : Fd} {s : FatState} {a q : ℕ}
    {ws ks : List ℕ} (hg : s.fatfs.Valid s.dev.size)
    (h : Walks s.fatfs s.dev.blocks a ws ks q (s.fileNum fd)) : (fatNextSector E fd).Returns s fun failed t =>
      Crossing fd a ws ks q ((s.fileNum fd).flushed s.dev.blocks) s t failed := by
  have hentry (c : ℕ) (hc : c < s.fatfs.entries) :
      s.fatfs.entry ((s.fileNum fd).flushed s.dev.blocks) c = s.fatfs.entry s.dev.blocks c :=
    hg.entry_flushed hc h.at_.dataStart_le
  obtain ⟨r,t,hrun,ht⟩ := @fatFlushWith_every E fd (fatFlushFileinfo E) s (h.at_.sector_ne hg)
  rcases ht with ⟨hr,ht⟩ | ⟨rfl,ht⟩
  · refine returns_bind_of_ok hrun (returns_ite (fun _ => returns_pure ?_) fun h => absurd hr h)
    refine ⟨ht.but,by rw [ht.file],?_,fun c hc => ?_,by simp,?_⟩
    · rw [ht.file,ht.blocks]
      exact FatInfo.Undisturbed.refl _ _ _
    · rw [ht.blocks,hentry c (h.others c hc).1.2]
    · rw [ht.file,ht.blocks]
      exact .stays h rfl rfl
  have hclean : (t.fileNum fd).flags.dirty = false := by
    rw [ht.file]
    rfl
  have hwalks : Walks t.fatfs t.dev.blocks a ws ks q (t.fileNum fd) := by
    rw [ht.fatfs,ht.blocks,ht.file]
    refine h.congr hg (fun c hc hz => ?_) (fun c hc => hentry c (h.chain.inRange c hc).2) ?_ rfl
    · rwa [hentry c hc] at hz
    · exact h.at_.congr rfl rfl rfl
  have hnext := hwalks.fatNextSector_clean hfuel (by rw [ht.fatfs,ht.size]; exact hg) hclean
  rw [Returns,fatNextSector,← fatNextSectorWith_of_flush hrun hclean] at hnext
  refine Returns.mono hnext fun failed u hu => ?_
  obtain ⟨hbut,hstill,hspares,hothers,hc,hcrossed⟩ := hu
  rw [ht.fatfs,ht.blocks] at hspares hothers
  refine ⟨IsTrans.trans _ _ _ ht.but hbut,?_,hspares,hothers,hc,?_⟩
  · rw [hstill,ht.file]
    rfl
  · rw [ht.fatfs,ht.file] at hcrossed
    cases hcrossed with
    | stays hw hf hcur => exact .stays hw hf hcur
    | moves hl hw hf hcur hload hfol => exact .moves hl hw hf hcur hload hfol
    | leaves hlast hlost hchain hw hf hcur hload => exact .leaves hlast hlost hchain hw hf hcur hload

end Gristle
