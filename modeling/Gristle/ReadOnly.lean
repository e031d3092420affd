import Gristle.Entry
import Gristle.Quiet
import Gristle.Slots
import Gristle.Volume

/-! Descriptors opened without write access. Whatever happens on other descriptors, the only
thing they ever write is their own directory entry, and only when they are closed. -/
namespace Gristle
open Prog

/-! ### Runs of the transfers -/

theorem readBuffer_ok {E : Env} {fd : Fd} {b : ℕ} {s t : FatState} {r : Bool}
    (h : readBuffer E fd b s = .ok (r,t)) : t.dev.blocks = s.dev.blocks ∧
      (r = false → t.fileNum fd = { s.fileNum fd with buffer := s.dev.blocks b }) := by
  obtain ⟨o,u,hu,h⟩ := bind_ok h
  obtain ⟨d,hd,rfl⟩ := onDevice_ok hu
  simp only [Device.blockRead,Except.ok.injEq,Prod.mk.injEq] at hd
  obtain ⟨ho,rfl⟩ := hd
  split at ho
  · subst ho
    obtain ⟨rfl,rfl⟩ := pure_ok h
    exact ⟨rfl,by simp⟩
  · subst ho
    obtain ⟨a,v,hv,h⟩ := bind_ok h
    obtain rfl := updateFile_ok hv
    obtain ⟨rfl,rfl⟩ := pure_ok h
    exact ⟨rfl,fun _ => FatState.setFile_self _ _ _⟩

theorem writeBlock_ok {E : Env} {o : Origin} {b : ℕ} {data : Sector} {s t : FatState} {r : Bool}
    (h : writeBlock E o b data s = .ok (r,t)) : t.fileNum = s.fileNum ∧
      (t.dev.blocks = s.dev.blocks ∨ t.dev.blocks = Function.update s.dev.blocks b data) := by
  obtain ⟨d,hd,rfl⟩ := onDevice_ok h
  simp only [Device.blockWrite] at hd
  split at hd <;> simp only [Except.ok.injEq,Prod.mk.injEq] at hd <;> rw [← hd.2]
  · exact ⟨rfl,.inl rfl⟩
  · exact ⟨rfl,.inr rfl⟩

theorem junk_ok {E : Env} {s t : FatState} {a : ℕ → UInt8} (h : junk E s = .ok (a,t)) :
    t.fileNum = s.fileNum ∧ t.dev.blocks = s.dev.blocks := by
  obtain ⟨d,hd,rfl⟩ := onDevice_ok h
  exact ⟨rfl,(junk_sameMedium E _ _ _ hd).blocks⟩

/-! ### The flush of a quiet descriptor -/

/-- `fat_flush_fileinfo` returns at once: the root directory, or no entry to write. -/
def FileS.SkipsFlush (g : FatInfo) (f : FileS) : Prop :=
  f.fullFirstCluster = g.rootCluster ∨ (f.entrySector = 0 ∧ f.flags.write = false) ∨
    f.fullFirstCluster = 0

instance (g : FatInfo) (f : FileS) : Decidable (f.SkipsFlush g) := by
  unfold FileS.SkipsFlush
  infer_instance

/-- The medium once the entry of a descriptor was stored in its slot. -/
def FileS.storedOn (E : Env) (f : FileS) (reserved : UInt8) (blocks : ℕ → Sector) : ℕ → Sector :=
  Function.update blocks f.entrySector
    ((blocks f.entrySector).setDirent f.entryNumber (f.toDirent E reserved))

/-- A quiet descriptor stays quiet and at most its own entry is written. -/
def Rewrites (E : Env) (fd : Fd) (s t : FatState) : Prop :=
  (t.fileNum fd).Quiet ∧ (t.fileNum fd).snapshot = (s.fileNum fd).snapshot ∧
    (t.dev.blocks = s.dev.blocks ∨
      ∃ reserved, t.dev.blocks = (s.fileNum fd).storedOn E reserved s.dev.blocks)

theorem Rests.rewrites {E : Env} {fd : Fd} {s t : FatState} (h : Rests fd s t)
    (hq : (s.fileNum fd).Quiet) : Rewrites E fd s t :=
  ⟨(h hq).1,(h hq).2.2,.inl (h hq).2.1.blocks⟩

theorem Rewrites.rests {E : Env} {fd : Fd} {s t u : FatState} (h : Rewrites E fd s t)
    (h' : Rests fd t u) : Rewrites E fd s u := by
  obtain ⟨hq,hs,hb⟩ := h
  obtain ⟨hq',hm,hs'⟩ := h' hq
  refine ⟨hq',hs'.trans hs,?_⟩
  rw [hm.blocks]
  exact hb

/-- A quiet descriptor that already has an entry looks for no empty slot. -/
theorem locateEntry_of_entry {ffi : Fd → FatM ℤ} {E : Env} {fd : Fd} {s : FatState}
    (h : (s.fileNum fd).entrySector ≠ 0) :
    locateEntry ffi E fd s = readBuffer E fd (s.fileNum fd).entrySector s := by
  rw [locateEntry,bind_of_ok rfl]
  simp only [if_neg h]

theorem flushFileinfoBody_skip {ffi : Fd → FatM ℤ} {E : Env} {fd : Fd} {s : FatState}
    (h : (s.fileNum fd).SkipsFlush s.fatfs) : flushFileinfoBody ffi E fd s = .ok (0,s) := by
  rw [flushFileinfoBody,bind_of_ok rfl,bind_of_ok rfl]
  simp only [run_ite]
  rcases h with h | h | h
  · rw [if_pos h]
    rfl
  · rw [if_pos h]
    split <;> rfl
  · rw [if_pos h]
    split <;> [skip; split] <;> rfl

/-- A clean buffer is not written. -/
theorem fatFlushWith_clean {ffi : Fd → FatM ℤ} {E : Env} {fd : Fd} {s : FatState}
    (h : (s.fileNum fd).flags.dirty = false) : fatFlushWith ffi E fd s = .ok (0,s) := by
  rw [fatFlushWith,bind_of_ok rfl]
  simp only [h]
  rfl

theorem flushFileinfoBody_quiet {ffi : Fd → FatM ℤ} {E : Env} {fd : Fd} {s t : FatState} {r : ℤ}
    (h : flushFileinfoBody ffi E fd s = .ok (r,t)) (hq : (s.fileNum fd).Quiet) :
    Rewrites E fd s t := by
  by_cases hskip : (s.fileNum fd).SkipsFlush s.fatfs
  · rw [flushFileinfoBody_skip hskip] at h
    obtain ⟨-,rfl⟩ := pure_ok h
    exact Rests.rewrites (Std.Refl.refl t) hq
  rw [flushFileinfoBody,bind_of_ok rfl,bind_of_ok rfl] at h
  simp only [FileS.SkipsFlush,not_or] at hskip
  simp only [run_ite,if_neg hskip.1,if_neg hskip.2.1,if_neg hskip.2.2] at h
  have hentry : (s.fileNum fd).entrySector ≠ 0 := fun h₀ => hskip.2.1 ⟨h₀,hq.unwritable⟩
  obtain ⟨reserved,u,hu,h⟩ := bind_ok h
  obtain ⟨huf,hub⟩ := junk_ok hu
  rw [← huf] at hq hentry
  rw [bind_of_ok (fatFlushWith_clean hq.clean),run_ite,if_neg (by simp)] at h
  obtain ⟨failed,v,hv,h⟩ := bind_ok h
  rw [locateEntry_of_entry hentry] at hv
  obtain ⟨hvb,hvf⟩ := readBuffer_ok hv
  obtain ⟨hqv,-,hsv⟩ := readBuffer_rests E fd _ _ _ _ hv hq
  rw [huf] at hsv
  rw [run_ite] at h
  split at h
  · obtain ⟨-,rfl⟩ := pure_ok h
    exact ⟨hqv,hsv,.inl (hvb.trans hub)⟩
  have hvf' := hvf (Bool.eq_false_iff.2 ‹_›)
  rw [huf,hub] at hvf'
  obtain ⟨a,w,hw,h⟩ := bind_ok h
  obtain rfl := updateFile_ok hw
  rw [bind_of_ok rfl] at h
  obtain ⟨b,x,hx,h⟩ := bind_ok h
  obtain ⟨hxf,hxb⟩ := writeBlock_ok hx
  have hwrite : Rewrites E fd s x := by
    rw [Rewrites,hxf,FatState.setFile_self]
    refine ⟨⟨hqv.clean,hqv.unwritable⟩,hsv,?_⟩
    rw [FatState.setFile_self,FatState.setFile_dev,hvb,hub,hvf'] at hxb
    rcases hxb with hxb | hxb
    · exact .inl hxb
    · exact .inr ⟨reserved 12,hxb⟩
  refine hwrite.rests (Keeps.of_ok ?_ h)
  refine keeps_ite (keeps_pure _) (keeps_bind (readBuffer_rests E fd _) fun _ =>
    keeps_ite (keeps_pure _) ?_)
  exact keeps_bind (updateFile_rests fd fun _ => ⟨rfl,rfl,rfl⟩) fun _ => keeps_pure _

theorem fatFlushFileinfo_body {E : Env} {fd : Fd} {s t : FatState} {r : ℤ}
    (h : fatFlushFileinfo E fd s = .ok (r,t)) :
    ∃ ffi, flushFileinfoBody ffi E fd s = .ok (r,t) := by
  rw [fatFlushFileinfo] at h
  cases hn : E.fuel with
  | zero => simp [hn,fatFlushFileinfoAux] at h
  | succ n => exact ⟨_,by rwa [hn] at h⟩

/-! ### Closing -/

/-- `fat_close` writes the directory entry of this descriptor. -/
def FileS.WritesEntry (g : FatInfo) (f : FileS) : Prop := f.flags.fsDirty = true ∧ ¬ f.SkipsFlush g

instance (g : FatInfo) (f : FileS) : Decidable (f.WritesEntry g) := inferInstanceAs (Decidable (_ ∧ _))

theorem closeSlot_quiet {E : Env} {fd : Fd} {s t : FatState} {p : ℤ × ℤ}
    (h : closeSlot E fd s = .ok (p,t)) (hq : (s.fileNum fd).Quiet) :
    Rewrites E fd s t ∧
      (¬ ((s.fileNum fd).flags.open_ = true ∧ (s.fileNum fd).WritesEntry s.fatfs) →
        SameMedium s.dev t.dev) := by
  have hstay {u : FatState} (hr : Rests fd s u) : Rewrites E fd s u ∧
      (¬ ((s.fileNum fd).flags.open_ = true ∧ (s.fileNum fd).WritesEntry s.fatfs) →
        SameMedium s.dev u.dev) :=
    ⟨hr.rewrites hq,fun _ => (hr hq).2.1⟩
  rw [closeSlot,bind_of_ok rfl,run_ite] at h
  split at h
  · obtain ⟨-,rfl⟩ := pure_ok h
    exact hstay (Std.Refl.refl t)
  have hopen := Bool.eq_true_of_not_eq_false ‹_›
  simp only [hq.clean] at h
  rw [bind_of_ok rfl,run_ite,if_neg (by simp),bind_of_ok rfl] at h
  obtain ⟨failed,u,hu,h⟩ := bind_ok h
  have hflush : Rewrites E fd s u ∧
      (¬ ((s.fileNum fd).flags.open_ = true ∧ (s.fileNum fd).WritesEntry s.fatfs) →
        SameMedium s.dev u.dev) := by
    rw [run_ite] at hu
    split at hu
    · obtain ⟨r,v,hv,hu⟩ := bind_ok hu
      obtain ⟨-,rfl⟩ := pure_ok hu
      obtain ⟨ffi,hbody⟩ := fatFlushFileinfo_body hv
      refine ⟨flushFileinfoBody_quiet hbody hq,fun hw => ?_⟩
      have hskip : (s.fileNum fd).SkipsFlush s.fatfs := by
        by_contra hskip
        exact hw ⟨hopen,‹_›,hskip⟩
      rw [flushFileinfoBody_skip hskip] at hbody
      obtain ⟨-,rfl⟩ := pure_ok hbody
      exact ⟨rfl,rfl⟩
    · obtain ⟨-,rfl⟩ := pure_ok hu
      exact hstay (Std.Refl.refl u)
  rw [run_ite] at h
  split at h
  · obtain ⟨-,rfl⟩ := pure_ok h
    exact hflush
  · obtain ⟨a,v,hv,h⟩ := bind_ok h
    obtain rfl := updateFile_ok hv
    obtain ⟨-,rfl⟩ := pure_ok h
    obtain ⟨⟨hqu,hsu,hbu⟩,hkeep⟩ := hflush
    refine ⟨?_,hkeep⟩
    rw [Rewrites,FatState.setFile_self]
    exact ⟨⟨rfl,rfl⟩,hsu,hbu⟩

/-! ### Opening without write access -/

/-- The numbers of a descriptor fit the fields of a directory entry. -/
structure FileS.Fits (g : FatInfo) (f : FileS) : Prop where
  number : f.entryNumber < 16
  size : f.size < 2^32
  cluster : f.fullFirstCluster = g.rootCluster ∨ f.fullFirstCluster < 2^32 ∧
    (g.type = partTypeFat16 → f.fullFirstCluster < 2^16)

theorem FileS.Fits.congr {g : FatInfo} {f f' : FileS} (h : f.Fits g) (hs : f'.snapshot = f.snapshot) :
    f'.Fits g := by
  simp only [FileS.snapshot,Prod.mk.injEq] at hs
  obtain ⟨-,-,hsize,hcluster,-,hnumber⟩ := hs
  exact ⟨hnumber ▸ h.number,hsize ▸ h.size,hcluster ▸ h.cluster⟩

theorem searchSlots_found {name : ℕ → UInt8} {b : Sector} {n i k : ℕ}
    (h : searchSlots name b n i = .found k) : i ≤ k ∧ k < i + n := by
  induction n generalizing i with
  | zero => simp [searchSlots] at h
  | succ n ih =>
    rw [searchSlots] at h
    split at h
    · simp at h
    · split at h
      · obtain rfl : i = k := by simpa using h
        omega
      · have := ih h
        omega

theorem scanLoop_found {E : Env} {fd : Fd} {name : DosName} {n i : ℕ} {s t : FatState}
    (h : scanLoop E fd name n s = .ok (some i,t)) : i < 16 := by
  induction n generalizing s with
  | zero => simp [scanLoop] at h
  | succ n ih =>
    obtain ⟨f,u,hu,h⟩ := bind_ok h
    cases hf : searchSlots name.byte f.buffer 16 0 with
    | last => simp [hf] at h
    | found k =>
      simp only [hf] at h
      obtain ⟨hk,-⟩ := pure_ok h
      obtain rfl := Option.some.inj hk
      have := searchSlots_found hf
      omega
    | absent =>
      simp only [hf] at h
      obtain ⟨r,v,hv,h⟩ := bind_ok h
      rw [run_ite] at h
      split at h
      · simp at h
      · exact ih h

theorem load_fits (E : Env) (g : FatInfo) (b : Sector) {i : ℕ} (hi : i < 16) (f : FileS) :
    (f.load E g (b.dirent i) i).Fits g := by
  refine ⟨hi,dirent_size_lt b i,?_⟩
  change (if (b.dirent i).cluster g = 0 then g.rootCluster else (b.dirent i).cluster g) = _ ∨ _
  split
  · exact .inl rfl
  · refine .inr ⟨?_,fun h16 => ?_⟩
    · simpa only [FileS.load,if_neg ‹_›] using dirent_cluster_lt b i g
    · simpa only [FileS.load,if_neg ‹_›] using dirent_cluster_lt_fat16 b i h16

theorem lookupLoop_fits {E : Env} {fd : Fd} {elements : List (List UInt8)} {name : DosName} {e e' : ℤ}
    {s t : FatState} (h : lookupLoop E fd elements name e s = .ok ((0,e'),t)) :
    (t.fileNum fd).Fits t.fatfs := by
  induction elements generalizing name e s with
  | nil => simp [lookupLoop] at h
  | cons element rest ih =>
    obtain ⟨o,u,hu,h⟩ := bind_ok h
    cases o with
    | none => simp at h
    | some name =>
      obtain ⟨o,v,hv,h⟩ := bind_ok h
      cases o with
      | none =>
        obtain ⟨a,w,hw,h⟩ := bind_ok h
        simp at h
      | some i =>
        have hi := scanLoop_found hv
        dsimp only at h
        rw [bind_of_ok rfl,bind_of_ok rfl] at h
        simp only [run_ite] at h
        split at h
        · obtain ⟨a,w,hw,h⟩ := bind_ok h
          obtain rfl := updateFile_ok hw
          rw [bind_of_ok rfl] at h
          obtain ⟨b,x,hx,h⟩ := bind_ok h
          obtain ⟨-,rfl⟩ := pure_ok h
          have hg := (fatSelectCluster_sameBut E fd _ _ _ _ hx).fatfs
          have hr := fatSelectCluster_rests E fd _ _ _ _ hx (by rw [FatState.setFile_self]; exact ⟨rfl,rfl⟩)
          rw [FatState.setFile_self] at hr
          rw [hg,FatState.setFile_fatfs]
          exact (load_fits E _ _ hi _).congr hr.2.2
        · split at h
          · obtain ⟨a,w,hw,h⟩ := bind_ok h
            obtain ⟨b,x,hx,h⟩ := bind_ok h
            exact ih h
          · simp at h

theorem fatLookupPath_fits {E : Env} {fd : Fd} {path : List UInt8} {e e' : ℤ} {s t : FatState}
    (h : fatLookupPath E fd path e s = .ok ((0,e'),t)) (hq : (s.fileNum fd).Quiet) :
    (t.fileNum fd).Fits t.fatfs := by
  rw [fatLookupPath,run_ite] at h
  split at h
  · simp at h
  rw [bind_of_ok rfl] at h
  obtain ⟨garbage,u,hu,h⟩ := bind_ok h
  obtain ⟨b,v,hv,h⟩ := bind_ok h
  have hqu := (junk_rests E fd _ _ _ hu hq).1
  have hqv := (fatSelectCluster_rests E fd _ _ _ _ hv hqu).1
  cases hp : (pathElements path).take 20 with
  | nil =>
    simp only [hp] at h
    obtain ⟨a,w,hw,h⟩ := bind_ok h
    obtain rfl := updateFile_ok hw
    obtain ⟨c,x,hx,h⟩ := bind_ok h
    obtain ⟨-,rfl⟩ := pure_ok h
    have hg : v.fatfs = s.fatfs := (fatSelectCluster_sameBut E fd _ _ _ _ hv).fatfs.trans
      (junk_sameTable E _ _ _ hu).fatfs
    have hgt := (fatSelectCluster_sameBut E fd _ _ _ _ hx).fatfs
    have hr := fatSelectCluster_rests E fd _ _ _ _ hx
      (by rw [FatState.setFile_self]; exact ⟨hqv.clean,hqv.unwritable⟩)
    rw [FatState.setFile_self] at hr
    rw [hgt,FatState.setFile_fatfs,hg]
    exact FileS.Fits.congr ⟨by simp [FileS.loadRoot],by simp [FileS.loadRoot],.inl rfl⟩ hr.2.2
  | cons element rest =>
    simp only [hp] at h
    obtain ⟨a,w,hw,h⟩ := bind_ok h
    exact lookupLoop_fits h

/-- What a descriptor opened without write access stays as long as it is open. -/
structure ReadOnlyAt (r : Fd) (s : FatState) : Prop where
  quiet : (s.fileNum r).Quiet
  fits : (s.fileNum r).Fits s.fatfs

theorem openMissing_quiet {E : Env} {fd : Fd} {flags : OpenFlags} {mode : ℕ} {s t : FatState}
    {p : ℤ × ℤ} (h : openMissing E fd flags mode s = .ok (p,t)) (hp : p.1 ≠ -1)
    (hq : (s.fileNum fd).Quiet) : ReadOnlyAt fd t := by
  rw [openMissing,bind_of_ok rfl] at h
  simp only [run_ite] at h
  split at h
  · exact absurd (refuse_result h) hp
  split at h
  · exact absurd (refuse_result h) hp
  obtain ⟨now,u,hu,h⟩ := bind_ok h
  obtain ⟨a,v,hv,h⟩ := bind_ok h
  obtain rfl := updateFile_ok hv
  obtain ⟨-,rfl⟩ := pure_ok h
  have hqu := (time_rests E fd _ _ _ hu hq).1
  constructor <;> rw [FatState.setFile_self]
  · exact ⟨hqu.clean,hqu.unwritable⟩
  · refine ⟨?_,?_,.inr ⟨?_,fun _ => ?_⟩⟩ <;> simp [FileS.create]

theorem openExisting_quiet {E : Env} {fd : Fd} {flags : OpenFlags} {e : ℤ} {s t : FatState}
    {p : ℤ × ℤ} (h : openExisting E fd flags e s = .ok (p,t)) (hp : p.1 ≠ -1)
    (hflags : flags.wronly = false ∧ flags.rdwr = false) : Rests fd s t := by
  rw [openExisting,bind_of_ok rfl,bind_of_ok rfl] at h
  simp only [run_ite] at h
  split at h
  · exact absurd (refuse_result h) hp
  rw [if_pos (by simp [hflags])] at h
  refine Keeps.of_ok ?_ h
  exact keeps_bind (updateFile_rests fd fun _ => ⟨rfl,rfl,rfl⟩) fun _ => keeps_pure _

theorem fatOpen_readOnlyAt {E : Env} {name : List UInt8} {flags : OpenFlags} {mode : ℕ} {e e' : ℤ}
    {s t : FatState} {r : Fd} (hflags : flags.wronly = false ∧ flags.rdwr = false)
    (h : fatOpen E name flags mode e s = .ok ((r.val,e'),t)) : ReadOnlyAt r t := by
  have hne : (r.val : ℤ) ≠ -1 := by omega
  obtain ⟨o,u,ho,h⟩ := bind_ok h
  cases o with
  | none => exact absurd (congrArg Prod.fst (pure_ok h).1) hne
  | some fd =>
    obtain ⟨-,rfl⟩ := nextFileLoop_some ho
    obtain ⟨⟨i,e₁⟩,v,hv,h⟩ := bind_ok h
    obtain ⟨a,w,hw,h⟩ := bind_ok h
    obtain rfl := updateFile_ok hw
    set f₀ : FileS := { s.fileNum fd with flags := .justOpen }
    have hq₀ : ((s.setFile fd f₀).fileNum fd).Quiet := by
      rw [FatState.setFile_self]
      exact ⟨rfl,rfl⟩
    have hqv := (fatLookupPath_idle E fd name e _ _ _ hv hq₀).1
    set f₁ : FileS := { v.fileNum fd with flags := (v.fileNum fd).flags.access flags }
    have hq₁ : ((v.setFile fd f₁).fileNum fd).Quiet := by
      rw [FatState.setFile_self]
      exact ⟨hqv.clean,by simp [f₁,Flags.access,hflags,hqv.unwritable]⟩
    have hfd {p : ℤ × ℤ} (hp : p.1 = -1 ∨ p.1 = fd.val) (hr : p.1 = r.val) : fd = r := by
      rcases hp with hp | hp
      · exact absurd (hr.symm.trans hp) hne
      · exact Fin.ext (by omega)
    simp only [run_ite] at h
    split at h
    · obtain rfl := hfd (openMissing_result h) rfl
      exact openMissing_quiet h hne hq₁
    split at h
    · exact absurd (refuse_result h) hne
    split at h
    · obtain rfl := hfd (openExisting_result h) rfl
      subst ‹i = 0›
      obtain ⟨hqt,-,hst⟩ := openExisting_quiet h hne hflags hq₁
      have hg : t.fatfs = v.fatfs := (openExisting_sameBut E fd _ _ _ _ _ h).fatfs
      rw [FatState.setFile_self] at hst
      refine ⟨hqt,?_⟩
      rw [hg]
      exact (fatLookupPath_fits hv hq₀).congr hst
    · exact absurd (refuse_result h) hne

/-! ### Calls on a read-only descriptor -/

/-- Name (with its deletion mark), first cluster and size of an entry. -/
def DirentS.ident (g : FatInfo) (d : DirentS) : (Fin 8 → UInt8) × (Fin 3 → UInt8) × ℕ × ℕ :=
  (d.filename,d.extension,d.cluster g,d.size)

/-- Every slot of every block has the name, the first cluster and the size it had. -/
def EntriesKept (s t : FatState) : Prop :=
  ∀ b i, i < 16 → ((t.dev.blocks b).dirent i).ident s.fatfs = ((s.dev.blocks b).dirent i).ident s.fatfs

/-- The slot of a descriptor still says what the descriptor read there. -/
def FileS.UpToDate (g : FatInfo) (blocks : ℕ → Sector) (f : FileS) : Prop :=
  ((blocks f.entrySector).dirent f.entryNumber).ident g =
    (f.filename,f.extension,f.fullFirstCluster,f.size)

instance (g : FatInfo) (blocks : ℕ → Sector) (f : FileS) : Decidable (f.UpToDate g blocks) := by
  unfold FileS.UpToDate
  infer_instance

theorem storedOn_ident {E : Env} {g : FatInfo} {f : FileS} {reserved : UInt8} {blocks : ℕ → Sector}
    (hfit : f.Fits g) (hroot : f.fullFirstCluster ≠ g.rootCluster) (hup : f.UpToDate g blocks)
    {b i : ℕ} : ((f.storedOn E reserved blocks b).dirent i).ident g =
      ((blocks b).dirent i).ident g := by
  unfold FileS.storedOn
  by_cases hb : b = f.entrySector
  · subst hb
    rw [Function.update_self]
    by_cases hi : i = f.entryNumber
    · subst hi
      obtain ⟨hlt,hlt16⟩ := hfit.cluster.resolve_left hroot
      have hsize : u32 f.size % 2^32 = f.size := by
        rw [u32_of_lt hfit.size,Nat.mod_eq_of_lt hfit.size]
      rw [dirent_setDirent _ _ hfit.number,hup,DirentS.ident,cluster_toDirent_stored E g f _ hlt hlt16]
      simp only [DirentS.stored,FileS.toDirent,hsize]
    · rw [dirent_setDirent_of_ne _ _ hi]
  · rw [Function.update_of_ne hb]

theorem EntriesKept.of_blocks {s t : FatState} (h : t.dev.blocks = s.dev.blocks) : EntriesKept s t := by
  intro b i hi
  rw [h]

/-- The close of a descriptor as a call. -/
theorem exec_close {E : Env} {r : Fd} {s t : FatState} {a : Reply}
    (h : (Call.close r.val).exec E s = .ok (a,t)) : ∃ p, closeSlot E r s = .ok (p,t) := by
  obtain ⟨p,u,hu,h⟩ := bind_ok h
  obtain ⟨-,rfl⟩ := pure_ok h
  rw [fatClose,withFd,dif_pos r.isLt] at hu
  exact ⟨p,hu⟩

/-- Any call on the descriptor leaves it as quiet and as well-formed as it was. -/
theorem exec_readOnlyAt {E : Env} {r : Fd} {c : Call} {s t : FatState} {a : Reply}
    (hc : c.fd? = some r.val) (h : c.exec E s = .ok (a,t)) (hr : ReadOnlyAt r s) : ReadOnlyAt r t := by
  have hg := (exec_sameBut E hc _ _ _ h).fatfs
  have hkeep : (t.fileNum r).Quiet ∧ (t.fileNum r).snapshot = (s.fileNum r).snapshot := by
    by_cases hclose : c = .close r.val
    · subst hclose
      obtain ⟨p,hp⟩ := exec_close h
      obtain ⟨⟨hq,hs,-⟩,-⟩ := closeSlot_quiet hp hr.quiet
      exact ⟨hq,hs⟩
    · obtain ⟨hq,-,hs⟩ := exec_rests E r hc hclose _ _ _ h hr.quiet
      exact ⟨hq,hs⟩
  refine ⟨hkeep.1,?_⟩
  rw [hg]
  exact hr.fits.congr hkeep.2

/-- One call on it keeps every entry, if closing it would store what is there already. -/
theorem exec_entriesKept {E : Env} {r : Fd} {c : Call} {s t : FatState} {a : Reply}
    (hc : c.fd? = some r.val) (h : c.exec E s = .ok (a,t)) (hr : ReadOnlyAt r s)
    (hup : c = .close r.val → (s.fileNum r).WritesEntry s.fatfs →
      (s.fileNum r).UpToDate s.fatfs s.dev.blocks) : EntriesKept s t := by
  by_cases hclose : c = .close r.val
  · subst hclose
    obtain ⟨p,hp⟩ := exec_close h
    obtain ⟨⟨-,-,hb⟩,hkeep⟩ := closeSlot_quiet hp hr.quiet
    by_cases hw : (s.fileNum r).WritesEntry s.fatfs
    · rcases hb with hb | ⟨reserved,hb⟩
      · exact .of_blocks hb
      · intro b i hi
        rw [hb]
        exact storedOn_ident hr.fits (fun he => hw.2 (.inl he)) (hup rfl hw)
    · exact .of_blocks (hkeep fun h => hw h.2).blocks
  · exact .of_blocks (exec_rests E r hc hclose _ _ _ h hr.quiet).2.1.blocks

/-- A call made while descriptor `r` is open. -/
def StepWhileOpen (E : Env) (r : Fd) (s : FatState) (c : Call) (t : FatState) : Prop :=
  (s.fileNum r).flags.open_ = true ∧ Step E s c t

theorem stepWhileOpen_readOnlyAt {E : Env} {r : Fd} {c : Call} {s t : FatState}
    (hr : ReadOnlyAt r s) (h : StepWhileOpen E r s c t) : ReadOnlyAt r t := by
  obtain ⟨hopen,a,ha⟩ := h
  by_cases hc : c.fd? = some r.val
  · exact exec_readOnlyAt hc ha hr
  · obtain ⟨hf,hg,-⟩ := exec_untouched E r hc _ _ _ ha hopen
    exact ⟨hf ▸ hr.quiet,hf ▸ hg ▸ hr.fits⟩

/-- After an open without write access, whatever calls follow while the descriptor is open, a call
on it changes no entry, unless it is a close that stores an outdated one. -/
theorem readOnly_keeps_entries {E : Env} {path : List UInt8} {flags : OpenFlags} {mode : ℕ} {e e' : ℤ}
    {s₀ s₁ s₂ t : FatState} {r : Fd} {cs : List Call} {c : Call}
    (hflags : flags.wronly = false ∧ flags.rdwr = false)
    (hopen : fatOpen E path flags mode e s₀ = .ok ((r.val,e'),s₁))
    (hrun : Steps (StepWhileOpen E r) s₁ cs s₂) (hstep : Step E s₂ c t) (hc : c.fd? = some r.val)
    (hup : c = .close r.val → (s₂.fileNum r).WritesEntry s₂.fatfs →
      (s₂.fileNum r).UpToDate s₂.fatfs s₂.dev.blocks) : EntriesKept s₂ t := by
  have hr : ReadOnlyAt r s₂ := hrun.preserved (fun _ _ _ hr h => stepWhileOpen_readOnlyAt hr h)
    (fatOpen_readOnlyAt hflags hopen)
  obtain ⟨a,ha⟩ := hstep
  exact exec_entriesKept hc ha hr hup

/-- A close that stores the entry again and changes nothing but its times. -/
theorem close_keeps_entries :
    let E := Env.calm (fun _ => 90) 8
    ∃ s₁ s₂ t : FatState,
      fatOpen E oneFilePath oRdonly 0 0 (.mounted smallFat16 300 oneFile) = .ok ((0,0),s₁) ∧
      Steps (StepWhileOpen E 0) s₁ [.read 0 1] s₂ ∧ Step E s₂ (.close 0) t ∧
      (s₂.fileNum 0).WritesEntry s₂.fatfs ∧ EntriesKept s₂ t := by
  intro E
  have hrun : Prog.test (do
      let p ← fatOpen E oneFilePath oRdonly 0 0
      let s₁ ← get
      let _ ← (Call.read 0 1).exec E
      let s₂ ← get
      let _ ← (Call.close 0).exec E
      pure (p,(s₁.fileNum 0).flags.open_,decide ((s₂.fileNum 0).WritesEntry s₂.fatfs),
        decide ((s₂.fileNum 0).UpToDate s₂.fatfs s₂.dev.blocks)))
      (.mounted smallFat16 300 oneFile)
      (fun a _ => a.1 == (0,0) && a.2.1 && a.2.2.1 && a.2.2.2) = true := by
    decide +kernel
  obtain ⟨a,t,hx,hp⟩ := ok_of_test hrun
  obtain ⟨p,s₁,hopen,hx⟩ := bind_ok hx
  rw [bind_of_ok rfl] at hx
  obtain ⟨r,s₂,hread,hx⟩ := bind_ok hx
  rw [bind_of_ok rfl] at hx
  obtain ⟨r',u,hclose,hx⟩ := bind_ok hx
  obtain ⟨rfl,rfl⟩ := pure_ok hx
  simp only [Bool.and_eq_true,beq_iff_eq,decide_eq_true_eq] at hp
  obtain ⟨⟨⟨rfl,hopen₁⟩,hw⟩,hup⟩ := hp
  have hsteps : Steps (StepWhileOpen E 0) s₁ [.read 0 1] s₂ := .cons ⟨hopen₁,_,hread⟩ (.nil _)
  exact ⟨_,_,_,hopen,hsteps,⟨_,hclose⟩,hw,
    readOnly_keeps_entries (by decide) hopen hsteps ⟨_,hclose⟩ rfl fun _ _ => hup⟩

/-- Closing a descriptor that was read from undoes an unlink made since it was opened. -/
theorem close_undoes_unlink :
    let E := Env.calm (fun _ => 90) 8
    ∃ s₁ s₂ t : FatState,
      fatOpen E oneFilePath oRdonly 0 0 (.mounted smallFat16 300 oneFile) = .ok ((0,0),s₁) ∧
      Steps (StepWhileOpen E 0) s₁ [.read 0 1,.unlink oneFilePath 0] s₂ ∧
      Step E s₂ (.close 0) t ∧ ¬ EntriesKept s₂ t := by
  intro E
  have hrun : Prog.test (do
      let p ← fatOpen E oneFilePath oRdonly 0 0
      let s₁ ← get
      let _ ← (Call.read 0 1).exec E
      let s ← get
      let _ ← (Call.unlink oneFilePath 0).exec E
      let s₂ ← get
      let _ ← (Call.close 0).exec E
      pure (p,(s₁.fileNum 0).flags.open_ && (s.fileNum 0).flags.open_,(s₂.dev.blocks 2).get 0))
      (.mounted smallFat16 300 oneFile)
      (fun a t => a.1 == (0,0) && a.2.1 && a.2.2 == 0xE5 && (t.dev.blocks 2).get 0 == 0x41) = true := by
    decide +kernel
  obtain ⟨a,t,hx,hp⟩ := ok_of_test hrun
  obtain ⟨p,s₁,hopen,hx⟩ := bind_ok hx
  rw [bind_of_ok rfl] at hx
  obtain ⟨r₁,s,hread,hx⟩ := bind_ok hx
  rw [bind_of_ok rfl] at hx
  obtain ⟨r₂,s₂,hunlink,hx⟩ := bind_ok hx
  rw [bind_of_ok rfl] at hx
  obtain ⟨r₃,u,hclose,hx⟩ := bind_ok hx
  obtain ⟨rfl,rfl⟩ := pure_ok hx
  simp only [Bool.and_eq_true,beq_iff_eq] at hp
  obtain ⟨⟨⟨hp,ho₁,ho₂⟩,hdeleted⟩,hback⟩ := hp
  refine ⟨_,_,_,hp ▸ hopen,.cons ⟨ho₁,_,hread⟩ (.cons ⟨ho₂,_,hunlink⟩ (.nil _)),⟨_,hclose⟩,fun hkept => ?_⟩
  have hname := congrFun (congrArg Prod.fst (hkept 2 0 (by decide))) 0
  have hname' : (t.dev.blocks 2).get 0 = (s₂.dev.blocks 2).get 0 := hname
  rw [hback,hdeleted] at hname'
  exact absurd hname' (by decide)

end Gristle
