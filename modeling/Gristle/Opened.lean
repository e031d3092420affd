import Gristle.Directory

/-! After `fat_open` without write access: the descriptor stands at the start of what it opened. -/
namespace Gristle
open Prog

theorem fatSelectCluster_succeeds {E : Env} {fd : Fd} {c : ℕ} {s t : FatState} {failed : Bool}
    (h : fatSelectCluster E fd c s = .ok (failed,t)) (hE : E.NoFault)
    (hb : ((s.fileNum fd).select s.fatfs c).sector < s.dev.size) : failed = false :=
  ((fatSelectCluster_returns hE hb).of_ok h).1

/-- The descriptor stands at the start of what it was opened on, unless that is an empty file. -/
structure FileS.Started (E : Env) (g : FatInfo) (d : Device) (f : FileS) : Prop where
  fileSector : f.fileSector = 0
  cursor : f.cursor = 0
  place : f.size = 0 ∧ f.isSubdir = false ∨ f.flags.open_ = true ∧ f.select g f.fullFirstCluster = f ∧
    (E.NoFault → f.sector < d.size → f.Loaded d.blocks)

theorem fatSelectCluster_started {E : Env} {fd : Fd} {s t : FatState} {failed : Bool}
    (h : fatSelectCluster E fd (s.fileNum fd).fullFirstCluster s = .ok (failed,t))
    (hopen : (s.fileNum fd).flags.open_ = true) (hzero : (s.fileNum fd).fileSector = 0) :
    (t.fileNum fd).Started E t.fatfs t.dev := by
  obtain ⟨buf,ha,hbuf⟩ := fatSelectCluster_result h
  have hstill : (t.fileNum fd).still = (s.fileNum fd).still := by
    rw [ha.file]
    exact FileS.still_select _ _ _
  have hfirst := FileS.field_of_still FileS.fullFirstCluster (fun _ => rfl) hstill
  refine ⟨?_,?_,.inr ⟨?_,?_,fun hE hlt => ?_⟩⟩
  · rw [ha.file]
    change ((s.fileNum fd).select _ _).fileSector = 0
    unfold FileS.select
    split <;> exact hzero
  · rw [ha.file]
    exact FileS.cursor_select _ _ _
  · exact (FileS.field_of_still (fun f => f.flags.open_) (fun _ => rfl) hstill).trans hopen
  · rw [hfirst,ha.file,ha.fatfs]
    exact FileS.select_select _ _ _ _
  · have hsector := congrArg FileS.sector ha.file
    rw [hsector,ha.size] at hlt
    rw [ha.file,ha.blocks]
    exact hbuf (fatSelectCluster_succeeds h hE hlt)

theorem lookupLoop_started {E : Env} {fd : Fd} {elements : List (List UInt8)} {name : DosName}
    {e e' : ℤ} {s t : FatState} (h : lookupLoop E fd elements name e s = .ok ((0,e'),t)) :
    (t.fileNum fd).Started E t.fatfs t.dev := by
  induction elements generalizing name e s with
  | nil => simp [lookupLoop] at h
  | cons element rest ih =>
    obtain ⟨o,u,hu,h⟩ := bind_ok h
    cases o with
    | none => simp at h
    | some name =>
      obtain ⟨o,v,hv,h⟩ := bind_ok h
      cases o with
      | none =>
        obtain ⟨a,w,hw,h⟩ := bind_ok h
        simp at h
      | some i =>
        dsimp only at h
        rw [bind_of_ok rfl,bind_of_ok rfl] at h
        simp only [run_ite] at h
        split at h
        · obtain ⟨a,w,hw,h⟩ := bind_ok h
          have hw := updateFile_result hw
          rw [bind_of_ok rfl] at h
          obtain ⟨b,x,hx,h⟩ := bind_ok h
          obtain ⟨-,rfl⟩ := pure_ok h
          exact fatSelectCluster_started hx (by rw [hw.file]; rfl) (by rw [hw.file]; rfl)
        · split at h
          · obtain ⟨a,w,hw,h⟩ := bind_ok h
            obtain ⟨b,x,hx,h⟩ := bind_ok h
            exact ih h
          · simp at h

theorem fatLookupPath_started {E : Env} {fd : Fd} {path : List UInt8} {e e' : ℤ} {s t : FatState}
    (h : fatLookupPath E fd path e s = .ok ((0,e'),t)) (hopen : (s.fileNum fd).flags.open_ = true) :
    (t.fileNum fd).Started E t.fatfs t.dev := by
  rw [fatLookupPath,run_ite] at h
  split at h
  · simp at h
  rw [bind_of_ok rfl] at h
  obtain ⟨garbage,u,hu,h⟩ := bind_ok h
  obtain ⟨b,v,hv,h⟩ := bind_ok h
  cases hp : (pathElements path).take 20 with
  | nil =>
    simp only [hp] at h
    obtain ⟨a,w,hw,h⟩ := bind_ok h
    have hw := updateFile_result hw
    obtain ⟨c,x,hx,h⟩ := bind_ok h
    obtain ⟨-,rfl⟩ := pure_ok h
    have hg : w.fatfs = s.fatfs := hw.fatfs.trans
      ((fatSelectCluster_sameBut E fd _ _ _ _ hv).fatfs.trans (junk_sameTable E _ _ _ hu).fatfs)
    have hfirst : (w.fileNum fd).fullFirstCluster = s.fatfs.rootCluster := by
      rw [hw.file]
      rfl
    have hopenw : (w.fileNum fd).flags.open_ = true := by
      obtain ⟨buf,hv,-⟩ := fatSelectCluster_result hv
      have huf := congrFun (junk_sameTable E _ _ _ hu).fileNum fd
      rw [hw.file]
      change (v.fileNum fd).flags.open_ = true
      rw [hv.file]
      change (FileS.select _ _ _).flags.open_ = true
      rw [FileS.flags_select,huf]
      exact hopen
    rw [← hfirst] at hx
    exact fatSelectCluster_started hx hopenw (by rw [hw.file]; rfl)
  | cons element rest =>
    simp only [hp] at h
    obtain ⟨a,w,hw,h⟩ := bind_ok h
    exact lookupLoop_started h

/-- The bits and the block count of a file make no difference to where it starts. -/
theorem FileS.Started.reopen {E : Env} {g : FatInfo} {d : Device} {f : FileS} (h : f.Started E g d)
    (flags : Flags) (hopen : flags.open_ = f.flags.open_) :
    FileS.Started E g d { f with flags := flags, fileSector := 0 } := by
  refine ⟨rfl,h.cursor,h.place.imp_right fun ⟨ho,hs,hl⟩ => ⟨hopen.trans ho,?_,hl⟩⟩
  have hsector := congrArg FileS.sector hs
  have hleft := congrArg FileS.sectorsLeft hs
  have hcluster := congrArg FileS.cluster hs
  have hcursor := congrArg FileS.cursor hs
  unfold FileS.select at hsector hleft hcluster hcursor ⊢
  split at hsector <;> rename_i hc
  · rw [if_pos hc] at hleft hcluster hcursor
    rw [if_pos hc]
    simp only [FileS.mk.injEq,and_true,true_and]
    exact ⟨hsector,hcluster,hleft,hcursor⟩
  · rw [if_neg hc] at hleft hcluster hcursor
    rw [if_neg hc]
    simp only [FileS.mk.injEq,and_true,true_and]
    exact ⟨hsector,hcluster,hleft,hcursor⟩

theorem time_result {E : Env} {s t : FatState} {a : ℤ} (h : time E s = .ok (a,t)) :
    AfterMedium s t s.dev.blocks := (time_returns E s).of_ok h

theorem openExisting_reading {E : Env} {fd : Fd} {flags : OpenFlags} {e : ℤ} {s t : FatState}
    {p : ℤ × ℤ} (h : openExisting E fd flags e s = .ok (p,t)) (hp : p.1 ≠ -1)
    (hflags : flags.wronly = false ∧ flags.rdwr = false) :
    After fd s t s.dev.blocks { s.fileNum fd with fileSector := 0 } := by
  rw [openExisting,bind_of_ok rfl,bind_of_ok rfl] at h
  simp only [run_ite] at h
  split at h
  · exact absurd (refuse_result h) hp
  rw [if_pos (by simp [hflags])] at h
  obtain ⟨_,x,hx,h⟩ := bind_ok h
  obtain ⟨-,rfl⟩ := pure_ok h
  exact updateFile_result hx

/-- `fat_open` without write access leaves the descriptor readable, at the start of the file. -/
theorem fatOpen_started {E : Env} {name : List UInt8} {flags : OpenFlags} {mode : ℕ} {e e' : ℤ}
    {s t : FatState} {r : Fd} (hflags : flags.wronly = false ∧ flags.rdwr = false)
    (h : fatOpen E name flags mode e s = .ok ((r.val,e'),t)) :
    (t.fileNum r).Started E t.fatfs t.dev ∧ (t.fileNum r).flags.read = true := by
  have hne : (r.val : ℤ) ≠ -1 := by omega
  obtain ⟨o,u,ho,h₁⟩ := bind_ok h
  cases o with
  | none => exact absurd (congrArg Prod.fst (pure_ok h₁).1) hne
  | some fd =>
    obtain ⟨⟨i,e₁⟩,v,hv,h₂⟩ := bind_ok h₁
    obtain ⟨a,w,hw,h₃⟩ := bind_ok h₂
    have hafter := updateFile_result hw
    have hfd {p : ℤ × ℤ} (hp : p.1 = -1 ∨ p.1 = fd.val) (hr : p.1 = r.val) : fd = r := by
      rcases hp with hp | hp
      · exact absurd (hr.symm.trans hp) hne
      · exact Fin.ext (by omega)
    simp only [run_ite] at h₃
    split at h₃
    · obtain rfl := hfd (openMissing_result h₃) rfl
      rw [openMissing,bind_of_ok rfl] at h₃
      simp only [run_ite] at h₃
      split at h₃
      · exact absurd (refuse_result h₃) hne
      split at h₃
      · exact absurd (refuse_result h₃) hne
      obtain ⟨now,x,hx,h₄⟩ := bind_ok h₃
      obtain ⟨_,y,hy,h₅⟩ := bind_ok h₄
      obtain ⟨-,rfl⟩ := pure_ok h₅
      have hread : (x.fileNum fd).flags.read = true := by
        rw [congrFun (time_result hx).table.fileNum fd,hafter.file]
        simp [Flags.access,hflags.1]
      rw [(updateFile_result hy).file]
      refine ⟨⟨rfl,rfl,.inl ⟨rfl,?_⟩⟩,hread⟩
      change ((if ownerMayWrite mode then attArc else attArc ||| attRo) &&& attSubdir != 0) = false
      split <;> decide
    split at h₃
    · exact absurd (refuse_result h₃) hne
    split at h₃
    · obtain rfl := hfd (openExisting_result h₃) rfl
      rw [‹i = 0›] at hv
      obtain ⟨-,rfl⟩ := nextFileLoop_some ho
      have hstart := fatLookupPath_started hv (by rw [FatState.setFile_self]; rfl)
      have hx := openExisting_reading h₃ hne hflags
      rw [hafter.file] at hx
      have hd : t.dev.blocks = v.dev.blocks := hx.blocks.trans hafter.blocks
      have hn : t.dev.size = v.dev.size := hx.size.trans hafter.size
      rw [hx.file,hx.fatfs,hafter.fatfs]
      have hre := hstart.reopen (Flags.access flags (v.fileNum fd).flags) rfl
      exact ⟨⟨hre.fileSector,hre.cursor,hre.place.imp_right fun h =>
        ⟨h.1,h.2.1,by rw [hd,hn]; exact h.2.2⟩⟩,by simp [Flags.access,hflags.1]⟩
    · exact absurd (refuse_result h₃) hne

end Gristle
