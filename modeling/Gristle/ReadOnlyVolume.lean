import Gristle.ReadOnly
import Gristle.EmbextQuiet

/-! A volume that is mounted read only: which calls still write blocks, and that all others never
do. -/
namespace Gristle
open Prog

/-- The volume is read only and no descriptor can write. -/
structure Guarded (s : FatState) : Prop where
  readOnly : s.fatfs.readOnly ≠ 0
  quiet : ∀ fd, (s.fileNum fd).Quiet

/-- From a guarded state no block is written and the state stays guarded. -/
def Unwritten (s t : FatState) : Prop := Guarded s → Guarded t ∧ SameMedium s.dev t.dev

instance : Std.Refl Unwritten := ⟨fun _ h => ⟨h,rfl,rfl⟩⟩

instance : IsTrans FatState Unwritten where
  trans _ _ _ h h' hg :=
    have ⟨hg₁,hm₁⟩ := h hg
    have ⟨hg₂,hm₂⟩ := h' hg₁
    ⟨hg₂,IsTrans.trans _ _ _ hm₁ hm₂⟩

section Unwritten
variable {E : Env} {s t : FatState}

theorem SameBut.guarded {fd : Fd} (h : SameBut fd s t) (hg : Guarded s) (hq : (t.fileNum fd).Quiet) :
    Guarded t := by
  refine ⟨h.fatfs ▸ hg.readOnly,fun j => ?_⟩
  by_cases hj : j = fd
  · exact hj ▸ hq
  · rw [h.others j hj]
    exact hg.quiet j

theorem keeps_unwritten {α : Type} {x : FatM α} {fd : Fd} (hb : Keeps (SameBut fd) x)
    (hi : Keeps (Idle fd) x) : Keeps Unwritten x := by
  intro s a t h hg
  obtain ⟨hq,hm⟩ := hi s a t h (hg.quiet fd)
  exact ⟨(hb s a t h).guarded hg hq,hm⟩

/-! ### `fat_open` -/

/-- A refused open leaves a closed slot. -/
theorem refuse_unwritten {fd : Fd} {e : ℤ} {p : ℤ × ℤ} (h : refuse fd e s = .ok (p,t))
    (hro : s.fatfs.readOnly ≠ 0) (hq : ∀ j, j ≠ fd → (s.fileNum j).Quiet) :
    Guarded t ∧ SameMedium s.dev t.dev := by
  obtain ⟨a,u,hu,h⟩ := bind_ok h
  obtain rfl := updateFile_ok hu
  obtain ⟨-,rfl⟩ := pure_ok h
  refine ⟨⟨hro,fun j => ?_⟩,rfl,rfl⟩
  by_cases hj : j = fd
  · subst hj
    rw [FatState.setFile_self]
    exact ⟨rfl,rfl⟩
  · rw [FatState.setFile_of_ne _ _ hj]
    exact hq j hj

theorem fatOpen_unwritten (E : Env) (name : List UInt8) (flags : OpenFlags) (mode : ℕ) (e : ℤ) :
    Keeps Unwritten (fatOpen E name flags mode e) := by
  intro s p t h hg
  obtain ⟨o,u,ho,h⟩ := bind_ok h
  cases o with
  | none =>
    obtain ⟨rfl,rfl⟩ := pure_ok h
    rw [nextFileLoop_none ho]
    exact ⟨hg,rfl,rfl⟩
  | some fd =>
    obtain ⟨-,rfl⟩ := nextFileLoop_some ho
    obtain ⟨⟨i,e₁⟩,v,hv,h⟩ := bind_ok h
    obtain ⟨a,w,hw,h⟩ := bind_ok h
    obtain rfl := updateFile_ok hw
    have hg₀ : Guarded (s.setFile fd { s.fileNum fd with flags := .justOpen }) :=
      (updateFile_sameBut fd (fun f => { f with flags := .justOpen }) s () _ rfl).guarded hg
        (by rw [FatState.setFile_self]; exact ⟨rfl,rfl⟩)
    obtain ⟨hgv,hmv⟩ := keeps_unwritten (fatLookupPath_sameBut E fd name e)
      (fatLookupPath_idle E fd name e) _ _ _ hv hg₀
    have hmedium : SameMedium s.dev v.dev := hmv
    set w := v.setFile fd { v.fileNum fd with flags := (v.fileNum fd).flags.access flags }
    have hro : w.fatfs.readOnly ≠ 0 := hgv.readOnly
    have hothers (j : Fd) (hj : j ≠ fd) : (w.fileNum j).Quiet := by
      rw [FatState.setFile_of_ne _ _ hj]
      exact hgv.quiet j
    have hrefuse {e : ℤ} (h : refuse fd e w = .ok (p,t)) : Guarded t ∧ SameMedium s.dev t.dev := by
      obtain ⟨hgt,hmt⟩ := refuse_unwritten h hro hothers
      exact ⟨hgt,IsTrans.trans _ _ _ hmedium hmt⟩
    simp only [run_ite] at h
    split at h
    · rw [openMissing,bind_of_ok rfl] at h
      simp only [run_ite,if_pos hro] at h
      split at h
      · exact hrefuse h
      · exact hrefuse h
    split at h
    · exact hrefuse h
    split at h
    · rw [openExisting,bind_of_ok rfl,bind_of_ok rfl] at h
      simp only [run_ite,if_pos hro] at h
      split at h
      · exact hrefuse h
      split at h
      · rename_i hbits
        have hflags : flags.wronly = false ∧ flags.rdwr = false := by simpa using hbits
        have hqw : (w.fileNum fd).Quiet := by
          rw [FatState.setFile_self]
          exact ⟨(hgv.quiet fd).clean,by simp [Flags.access,hflags,(hgv.quiet fd).unwritable]⟩
        have hgw : Guarded w := ⟨hro,fun j => if hj : j = fd then hj ▸ hqw else hothers j hj⟩
        obtain ⟨b,x,hx,h⟩ := bind_ok h
        obtain rfl := updateFile_ok hx
        obtain ⟨-,rfl⟩ := pure_ok h
        refine ⟨?_,hmedium⟩
        refine (updateFile_sameBut fd (fun f => { f with fileSector := 0 }) w () _ rfl).guarded hgw ?_
        rw [FatState.setFile_self]
        exact ⟨hqw.clean,hqw.unwritable⟩
      · exact hrefuse h
    · exact hrefuse h

/-! ### The allocator on a full table -/

/-- Every block of the table can be read and holds no zero entry. -/
def TableFull (E : Env) (s : FatState) : Prop :=
  let g := s.fatfs
  ∀ k < u32 (g.activeFatStart + g.sectorsPerFat) - g.activeFatStart,
    E.readFails (s.dev.tick + 1 + k) = false ∧ g.activeFatStart + k < s.dev.size ∧
      g.freeIndex (s.dev.blocks (g.activeFatStart + k)) g.perBlock 0 = none

theorem readSysbuf_ok {b : ℕ} {r : Bool} (h : readSysbuf E b s = .ok (r,t))
    (hread : E.readFails s.dev.tick = false) (hb : b < s.dev.size) :
    r = false ∧ t = { s with dev := { s.dev with tick := s.dev.tick + 1 }, sysbuf := s.dev.blocks b } := by
  obtain ⟨o,u,hu,h⟩ := bind_ok h
  obtain ⟨d,hd,rfl⟩ := onDevice_ok hu
  simp only [Device.blockRead,Except.ok.injEq,Prod.mk.injEq] at hd
  obtain ⟨ho,rfl⟩ := hd
  rw [if_neg (by simp [hread,hb])] at ho
  subst ho
  obtain ⟨a,v,hv,h⟩ := bind_ok h
  simp only [setSysbuf,modify_apply,Except.ok.injEq,Prod.mk.injEq] at hv
  obtain ⟨rfl,rfl⟩ := pure_ok h
  exact ⟨rfl,hv.2.symm⟩

theorem freeClusterLoop_full {n i c : ℕ} (h : freeClusterLoop E n i s = .ok (c,t))
    (hfull : ∀ k < n, E.readFails (s.dev.tick + k) = false ∧ i + k < s.dev.size ∧
      s.fatfs.freeIndex (s.dev.blocks (i+k)) s.fatfs.perBlock 0 = none) :
    c = 0 ∧ SameMedium s.dev t.dev := by
  induction n generalizing i s with
  | zero =>
    obtain ⟨a,u,hu,h⟩ := bind_ok h
    obtain ⟨rfl,rfl⟩ := pure_ok h
    obtain ⟨d,hd,rfl⟩ := onDevice_ok hu
    exact ⟨rfl,sysUnlock_sameMedium _ _ _ hd⟩
  | succ n ih =>
    obtain ⟨hread,hsize,hnone⟩ := hfull 0 (by omega)
    obtain ⟨r,u,hu,h⟩ := bind_ok h
    obtain ⟨rfl,rfl⟩ := readSysbuf_ok hu hread hsize
    rw [run_ite,if_neg (by simp),bind_of_ok rfl,bind_of_ok rfl] at h
    simp only [Nat.add_zero] at hnone
    simp only [hnone] at h
    obtain ⟨hc,hm⟩ := ih h fun k hk => by
      rw [show i + 1 + k = i + (k+1) by omega,show s.dev.tick + 1 + k = s.dev.tick + (k+1) by omega]
      exact hfull (k+1) (by omega)
    exact ⟨hc,hm.blocks,hm.writes⟩

theorem fatGetFreeCluster_full {c : ℕ} (h : fatGetFreeCluster E s = .ok (c,t))
    (hfull : TableFull E s) : c = 0 ∧ SameMedium s.dev t.dev := by
  rw [fatGetFreeCluster,bind_of_ok rfl] at h
  obtain ⟨granted,u,hu,h⟩ := bind_ok h
  obtain ⟨d,hd,rfl⟩ := onDevice_ok hu
  have htick : d.tick = s.dev.tick + 1 ∧ d.blocks = s.dev.blocks ∧ d.size = s.dev.size := by
    simp only [Device.sysLock] at hd
    split at hd <;> simp only [Except.ok.injEq,Prod.mk.injEq] at hd <;> rw [← hd.2] <;> simp
  have hm := sysLock_sameMedium E _ _ _ hd
  obtain ⟨r,v,hv,h⟩ := bind_ok h
  obtain ⟨a,w,hw,h⟩ := bind_ok h
  obtain ⟨rfl,rfl⟩ := pure_ok h
  obtain ⟨d',hd',rfl⟩ := onDevice_ok hw
  have hm' := log_sameMedium (e := .freeCluster c) rfl _ _ _ hd'
  rw [run_ite] at hv
  have hloop : c = 0 ∧ SameMedium d v.dev := by
    split at hv
    · refine freeClusterLoop_full hv fun k hk => ?_
      rw [htick.1,htick.2.1,htick.2.2]
      exact hfull k hk
    · obtain ⟨rfl,rfl⟩ := pure_ok hv
      exact ⟨rfl,rfl,rfl⟩
  exact ⟨hloop.1,IsTrans.trans _ _ _ hm (IsTrans.trans _ _ _ hloop.2 hm')⟩

end Unwritten

/-! ### The calls that write nothing -/

/-- The descriptor numbered `fd` is open and closing it would write its entry. -/
def FatState.CloseWrites (s : FatState) (fd : ℕ) : Prop :=
  ∃ r : Fd, r.val = fd ∧ (s.fileNum r).flags.open_ = true ∧ (s.fileNum r).WritesEntry s.fatfs

/-- What a call needs to leave a read-only volume alone: a close finds nothing to write back, an
unlink finds no file, a rmdir finds a directory in use and has nothing to write back, and a mkdir is
given no absolute path of bearable length or finds the table full. All other calls need nothing. -/
def Call.Harmless (E : Env) (s : FatState) : Call → Prop
  | .close fd => ¬ s.CloseWrites fd
  | .unlink path e => ∀ (r : Fd) e' t, fatOpen E path oRdonly 0o777 e s = .ok ((r.val,e'),t) →
      (t.fileNum r).isSubdir = true
  | .rmdir path e => ∀ (r : Fd) e' t, fatOpen E path oRdonly 0o777 e s = .ok ((r.val,e'),t) →
      ∀ p u, rmdirLoop E r.val E.fuel e' t = .ok (p,u) → p.1 = true ∧ ¬ u.CloseWrites r.val
  | .mkdir path => maxPathLen < path.length + 1 ∨ path.head? ≠ some chSlash ∨ TableFull E s
  | _ => True

section Harmless
variable {E : Env} {s t : FatState}

theorem closeSlot_unwritten {fd : Fd} {p : ℤ × ℤ} (h : closeSlot E fd s = .ok (p,t)) (hg : Guarded s)
    (hw : ¬ s.CloseWrites fd.val) : Guarded t ∧ SameMedium s.dev t.dev := by
  obtain ⟨⟨hq,-,-⟩,hm⟩ := closeSlot_quiet h (hg.quiet fd)
  exact ⟨(closeSlot_sameBut E fd _ _ _ h).guarded hg hq,hm fun ho => hw ⟨fd,rfl,ho⟩⟩

theorem withFd_unwritten {α : Type} {n : ℕ} {bad : α} {x : Fd → FatM α}
    (hb : ∀ fd, Keeps (SameBut fd) (x fd)) (hr : ∀ fd, Keeps (Rests fd) (x fd)) :
    Keeps Unwritten (withFd n bad x) := by
  unfold withFd
  split
  · exact keeps_unwritten (hb _) (keeps_idle _ (hr _))
  · exact keeps_pure bad

theorem fatRead_unwritten (fd n : ℕ) : Keeps Unwritten (fatRead E fd n) :=
  withFd_unwritten (fun fd => readSlot_sameBut E fd n) fun fd => readSlot_rests E fd n

/-- A nonnegative result of `fat_open` is a slot. -/
theorem fatOpen_fd {name : List UInt8} {flags : OpenFlags} {mode : ℕ} {e : ℤ} {p : ℤ × ℤ}
    (h : fatOpen E name flags mode e s = .ok (p,t)) : p.1 = -1 ∨ ∃ r : Fd, p.1 = r.val := by
  rcases fatOpen_slot h with ⟨hp,-⟩ | ⟨fd,-,-,hp⟩
  · exact .inl hp
  · rcases hp with ⟨hp,-⟩ | ⟨hp,-⟩
    · exact .inl hp
    · exact .inr ⟨fd,hp⟩

theorem fstatSlot_ok {fd : Fd} {q : ℤ × ℤ × Option Stat} (h : fstatSlot fd s = .ok (q,t)) :
    t = s ∧ ∀ st, q.2.2 = some st → st.isDir = (s.fileNum fd).isSubdir := by
  rw [fstatSlot,bind_of_ok rfl,run_ite] at h
  split at h
  · obtain ⟨rfl,rfl⟩ := pure_ok h
    exact ⟨rfl,by simp⟩
  · obtain ⟨rfl,rfl⟩ := pure_ok h
    refine ⟨rfl,fun st hst => ?_⟩
    rw [← Option.some.inj hst]

theorem fatUnlink_unwritten {path : List UInt8} {e : ℤ} {p : ℤ × ℤ} (hg : Guarded s)
    (hc : (Call.unlink path e).Harmless E s) (h : fatUnlink E path e s = .ok (p,t)) :
    Guarded t ∧ SameMedium s.dev t.dev := by
  obtain ⟨⟨i,e'⟩,u,hu,h⟩ := bind_ok h
  obtain ⟨hgu,hmu⟩ := fatOpen_unwritten E _ _ _ _ _ _ _ hu hg
  rcases fatOpen_fd hu with hi | ⟨r,hi⟩
  · obtain rfl : i = -1 := hi
    obtain ⟨-,rfl⟩ := pure_ok h
    exact ⟨hgu,hmu⟩
  obtain rfl : i = r.val := hi
  simp only [dif_pos (slot_cond r),slot_eq] at h
  obtain ⟨⟨failed,e₁,st⟩,v,hv,h⟩ := bind_ok h
  obtain ⟨rfl,hdir⟩ := fstatSlot_ok hv
  cases st with
  | none =>
    obtain ⟨-,rfl⟩ := pure_ok h
    exact ⟨hgu,hmu⟩
  | some st =>
    have hst : st.isDir = true := (hdir st rfl).trans (hc r e' v hu)
    simp only [hst] at h
    obtain ⟨a,w,hw,h⟩ := bind_ok h
    obtain rfl := updateFile_ok hw
    obtain ⟨q,x,hx,h⟩ := bind_ok h
    obtain ⟨-,rfl⟩ := pure_ok h
    have hgw : Guarded (v.setFile r { v.fileNum r with flags := .justOpen }) :=
      (updateFile_sameBut r (fun f => { f with flags := .justOpen }) v () _ rfl).guarded hgu
        (by rw [FatState.setFile_self]; exact ⟨rfl,rfl⟩)
    obtain ⟨hgx,hmx⟩ := closeSlot_unwritten hx hgw (by
      rintro ⟨r',hr,-,hdirty,-⟩
      obtain rfl : r' = r := Fin.ext hr
      rw [FatState.setFile_self] at hdirty
      exact Bool.false_ne_true hdirty)
    exact ⟨hgx,IsTrans.trans _ _ _ hmu hmx⟩

theorem fatRmdir_unwritten {path : List UInt8} {e : ℤ} {p : ℤ × ℤ} (hg : Guarded s)
    (hc : (Call.rmdir path e).Harmless E s) (h : fatRmdir E path e s = .ok (p,t)) :
    Guarded t ∧ SameMedium s.dev t.dev := by
  obtain ⟨⟨i,e'⟩,u,hu,h⟩ := bind_ok h
  obtain ⟨hgu,hmu⟩ := fatOpen_unwritten E _ _ _ _ _ _ _ hu hg
  rcases fatOpen_fd hu with hi | ⟨r,hi⟩
  · obtain rfl : i = -1 := hi
    obtain ⟨-,rfl⟩ := pure_ok h
    exact ⟨hgu,hmu⟩
  obtain rfl : i = r.val := hi
  simp only [dif_pos (slot_cond r),slot_eq] at h
  obtain ⟨⟨nonempty,e₁⟩,v,hv,h⟩ := bind_ok h
  obtain ⟨hgv,hmv⟩ := rmdirLoop_keeps (fatRead_unwritten _ 32) _ _ _ _ _ hv hgu
  obtain ⟨hne,hw⟩ := hc r e' u hu _ v hv
  obtain rfl : nonempty = true := hne
  rw [run_ite,if_pos rfl] at h
  obtain ⟨q,w,hq,h⟩ := bind_ok h
  obtain ⟨-,rfl⟩ := pure_ok h
  obtain ⟨hgw,hmw⟩ := closeSlot_unwritten hq hgv hw
  exact ⟨hgw,IsTrans.trans _ _ _ hmu (IsTrans.trans _ _ _ hmv hmw)⟩

theorem fatMkdir_unwritten {path : List UInt8} {p : ℤ × ℤ} (hg : Guarded s)
    (hc : (Call.mkdir path).Harmless E s) (h : fatMkdir E path s = .ok (p,t)) :
    Guarded t ∧ SameMedium s.dev t.dev := by
  rw [fatMkdir,run_ite] at h
  split at h
  · obtain ⟨-,rfl⟩ := pure_ok h
    exact ⟨hg,rfl,rfl⟩
  rename_i hlen
  rw [run_ite] at h
  split at h
  · obtain ⟨-,rfl⟩ := pure_ok h
    exact ⟨hg,rfl,rfl⟩
  rename_i hslash
  obtain ⟨q,u,hu,h₁⟩ := bind_ok h
  have hsplit : u = s := by
    cases hs : splitPath path with
    | error e => simp [hs,liftStop] at hu
    | ok q' =>
      rw [hs] at hu
      exact (pure_ok hu).2
  subst hsplit
  obtain ⟨c,v,hv,h₂⟩ := bind_ok h₁
  have hfull : TableFull E u := (hc.resolve_left hlen).resolve_left hslash
  obtain ⟨rfl,hm⟩ := fatGetFreeCluster_full hv hfull
  rw [run_ite,if_pos (by simp)] at h₂
  obtain ⟨-,rfl⟩ := pure_ok h₂
  have hsame := fatGetFreeCluster_sameTable E _ _ _ hv
  exact ⟨(hsame.sameBut 0).guarded hg (by rw [hsame.fileNum]; exact hg.quiet 0),hm⟩

/-- A harmless call on a guarded state writes no block. -/
theorem exec_unwritten {c : Call} {a : Reply} (hg : Guarded s) (hc : c.Harmless E s)
    (h : c.exec E s = .ok (a,t)) : Guarded t ∧ SameMedium s.dev t.dev := by
  cases c with
  | openPath path flags mode e =>
    exact keeps_bind (fatOpen_unwritten E path flags mode e) (fun _ => keeps_pure _) _ _ _ h hg
  | read fd n => exact keeps_bind (fatRead_unwritten fd n) (fun _ => keeps_pure _) _ _ _ h hg
  | write fd bytes =>
    exact keeps_bind (withFd_unwritten (writeSlot_sameBut E · bytes) (writeSlot_rests E · bytes))
      (fun _ => keeps_pure _) _ _ _ h hg
  | lseek fd ptr dir =>
    exact keeps_bind (withFd_unwritten (seekSlot_sameBut E · ptr dir) (seekSlot_rests E · ptr dir))
      (fun _ => keeps_pure _) _ _ _ h hg
  | fstat fd =>
    exact keeps_bind (withFd_unwritten fstatSlot_sameBut fstatSlot_rests)
      (fun _ => keeps_pure _) _ _ _ h hg
  | getNextDirent fd =>
    exact keeps_bind (nextDirentLoop_keeps (fatRead_unwritten fd 32) _)
      (fun _ => keeps_pure _) _ _ _ h hg
  | close fd =>
    obtain ⟨q,u,hu,h⟩ := bind_ok h
    obtain ⟨-,rfl⟩ := pure_ok h
    rw [fatClose,withFd] at hu
    split at hu
    · exact closeSlot_unwritten hu hg hc
    · obtain ⟨-,rfl⟩ := pure_ok hu
      exact ⟨hg,rfl,rfl⟩
  | unlink path e =>
    obtain ⟨q,u,hu,h⟩ := bind_ok h
    obtain ⟨-,rfl⟩ := pure_ok h
    exact fatUnlink_unwritten hg hc hu
  | rmdir path e =>
    obtain ⟨q,u,hu,h⟩ := bind_ok h
    obtain ⟨-,rfl⟩ := pure_ok h
    exact fatRmdir_unwritten hg hc hu
  | mkdir path =>
    obtain ⟨q,u,hu,h⟩ := bind_ok h
    obtain ⟨-,rfl⟩ := pure_ok h
    exact fatMkdir_unwritten hg hc hu

/-- A run of harmless calls on a read-only volume issues no `block_write`. -/
theorem runs_unwritten {cs : List Call} (hg : Guarded s)
    (h : Steps (fun s c t => c.Harmless E s ∧ Step E s c t) s cs t) :
    Guarded t ∧ SameMedium s.dev t.dev := by
  induction h with
  | nil s => exact ⟨hg,rfl,rfl⟩
  | cons head tail ih =>
    obtain ⟨hc,a,ha⟩ := head
    obtain ⟨hg',hm⟩ := exec_unwritten hg hc ha
    obtain ⟨hgt,hmt⟩ := ih hg'
    exact ⟨hgt,IsTrans.trans _ _ _ hm hmt⟩

end Harmless

/-- A call that returns and that a read-only volume need not fear. -/
def HarmlessStep (E : Env) (s : FatState) (c : Call) (t : FatState) : Prop :=
  c.Harmless E s ∧ Step E s c t

/-- The same for the ext2 driver. -/
def Ext2.HarmlessStep (E : Env) (s : Ext2State) (c : Ext2.Call) (t : Ext2State) : Prop :=
  c.Harmless s ∧ c.exec E s = .ok ((),t)

/-- On a freshly mounted read-only volume, programs of harmless calls issue no `block_write`, for
both drivers. -/
theorem readOnly_volume_unwritten (E : Env) :
    (∀ (s t : FatState) (cs : List Call), s.fatfs.readOnly ≠ 0 →
      (∀ fd, (s.fileNum fd).flags = .none) → Steps (HarmlessStep E) s cs t →
      t.dev.writes = s.dev.writes) ∧
    (∀ (s t : Ext2State) (c : Ext2Context) (cs : List Ext2.Call), s.context = some c →
      c.readOnly ≠ 0 → (∀ fe, s.files fe = none) → Steps (Ext2.HarmlessStep E) s cs t →
      t.dev.writes = s.dev.writes) := by
  constructor
  · intro s t cs hro hclosed hrun
    have hg : Guarded s := ⟨hro,fun fd => ⟨by rw [hclosed fd]; rfl,by rw [hclosed fd]; rfl⟩⟩
    exact (runs_unwritten hg hrun).2.writes
  · intro s t c cs hc hro hfree hrun
    have hg : Ext2.Guarded s := by
      refine ⟨fun c' hc' => ?_,fun fe f hf => ?_⟩
      · obtain rfl := Option.some.inj (hc.symm.trans hc')
        exact hro
      · rw [hfree fe] at hf
        simp at hf
    exact (Ext2.runs_unwritten hg hrun).2.writes

/-- The small volume on a device that is write protected. -/
def FatState.mountedReadOnly : FatState := .mounted { smallFat16 with readOnly := 1 } 300 oneFile

/-- A write-protected ext2 context without block groups. -/
def Ext2State.mountedReadOnly : Ext2State where
  dev := { blocks := oneFile, size := 300, tick := 0, trace := [] }
  context := some ⟨0,⟨.zero⟩,false,.zero,1,1,0,[]⟩
  files _ := none
  nextFile := 0
  de := ⟨0,fun _ => 0⟩

/-- Opening, reading and seeking on one volume, a read of no file and an unmount on the other. -/
theorem reading_leaves_readOnly_volume :
    let E := Env.calm (fun _ => 90) 8
    (∃ t, Steps (HarmlessStep E) .mountedReadOnly
      [.openPath oneFilePath oRdonly 0 0,.read 0 1,.lseek 0 0 .set] t ∧ t.dev.writes = []) ∧
    ∃ t, Steps (Ext2.HarmlessStep E) .mountedReadOnly [.read none 1 0,.umount] t ∧
      t.dev.writes = [] := by
  intro E
  constructor
  · have hrun : Prog.test (do
        let _ ← (Call.openPath oneFilePath oRdonly 0 0).exec E
        let _ ← (Call.read 0 1).exec E
        (Call.lseek 0 0 .set).exec E) .mountedReadOnly (fun _ _ => true) = true := by
      decide +kernel
    obtain ⟨a,t,hx,-⟩ := ok_of_test hrun
    obtain ⟨r₁,s₁,h₁,hx⟩ := bind_ok hx
    obtain ⟨r₂,s₂,h₂,h₃⟩ := bind_ok hx
    have hsteps : Steps (HarmlessStep E) .mountedReadOnly
        [.openPath oneFilePath oRdonly 0 0,.read 0 1,.lseek 0 0 .set] t :=
      .cons ⟨trivial,_,h₁⟩ (.cons ⟨trivial,_,h₂⟩ (.cons ⟨trivial,_,h₃⟩ (.nil _)))
    exact ⟨t,hsteps,(readOnly_volume_unwritten E).1 _ _ _ (by decide) (fun _ => rfl) hsteps⟩
  · have humount : Ext2.Call.umount.Harmless .mountedReadOnly := fun c hc => by
      rw [← Option.some.inj hc]
    have hsteps : Steps (Ext2.HarmlessStep E) .mountedReadOnly [.read none 1 0,.umount]
        { Ext2State.mountedReadOnly with context := none } :=
      .cons ⟨trivial,rfl⟩ (.cons ⟨humount,rfl⟩ (.nil _))
    exact ⟨_,hsteps,(readOnly_volume_unwritten E).2 _ _ _ _ rfl (by decide) (fun _ => rfl) hsteps⟩

/-- Closing a file that was read from writes its access date to the read-only volume. -/
theorem close_writes_readOnly_volume :
    let E := Env.calm (fun _ => 90) 8
    FatState.mountedReadOnly.fatfs.readOnly ≠ 0 ∧
    (∀ fd, (FatState.mountedReadOnly.fileNum fd).flags = .none) ∧
    ∃ t, Runs E .mountedReadOnly [.openPath oneFilePath oRdonly 0 0,.read 0 1,.close 0] t ∧
      t.dev.writes ≠ FatState.mountedReadOnly.dev.writes := by
  intro E
  have hrun : Prog.test (do
      let _ ← (Call.openPath oneFilePath oRdonly 0 0).exec E
      let _ ← (Call.read 0 1).exec E
      (Call.close 0).exec E) .mountedReadOnly (fun _ t => t.dev.writes.length == 1) = true := by
    decide +kernel
  obtain ⟨a,t,hx,hp⟩ := ok_of_test hrun
  obtain ⟨r₁,s₁,h₁,hx⟩ := bind_ok hx
  obtain ⟨r₂,s₂,h₂,h₃⟩ := bind_ok hx
  refine ⟨by decide,fun _ => rfl,t,.cons ⟨_,h₁⟩ (.cons ⟨_,h₂⟩ (.cons ⟨_,h₃⟩ (.nil _))),fun h => ?_⟩
  rw [h] at hp
  exact absurd hp (by decide)

end Gristle
