import Gristle.Frame

/-! Which slot of the table a call uses: calls with a path take a slot that is not open, so open
descriptors never notice the calls made on others. -/
namespace Gristle
open Prog

/-! ### `fat_get_next_file` -/

theorem nextFileLoop_some {n j : ℕ} {s t : FatState} {fd : Fd}
    (h : nextFileLoop n j s = .ok (some fd,t)) :
    (s.fileNum fd).flags.open_ = false ∧
      t = s.setFile fd { s.fileNum fd with flags := .justOpen } := by
  induction n generalizing j with
  | zero => simp [nextFileLoop] at h
  | succ n ih =>
    rw [nextFileLoop] at h
    split at h
    · obtain ⟨f,u,hf,h⟩ := bind_ok h
      obtain ⟨rfl,rfl⟩ := file_ok hf
      rw [run_ite] at h
      split at h
      · exact ih h
      · obtain ⟨a,v,hv,h⟩ := bind_ok h
        obtain ⟨hfd,rfl⟩ := pure_ok h
        obtain rfl := Option.some.inj hfd
        exact ⟨Bool.eq_false_iff.2 ‹_›,updateFile_ok hv⟩
    · simp at h

theorem nextFileLoop_none {n j : ℕ} {s t : FatState} (h : nextFileLoop n j s = .ok (none,t)) :
    t = s := by
  induction n generalizing j with
  | zero => exact (pure_ok h).2
  | succ n ih =>
    rw [nextFileLoop] at h
    split at h
    · obtain ⟨f,u,hf,h⟩ := bind_ok h
      obtain ⟨rfl,rfl⟩ := file_ok hf
      rw [run_ite] at h
      split at h
      · exact ih h
      · obtain ⟨a,v,hv,h⟩ := bind_ok h
        simp at h
    · exact (pure_ok h).2

/-! ### A descriptor in use stays open -/

/-- Only slot `fd` is worked on, and it does not get closed. -/
structure Held (fd : Fd) (s t : FatState) : Prop extends SameBut fd s t where
  stays : (s.fileNum fd).flags.open_ = true → (t.fileNum fd).flags.open_ = true

instance (fd : Fd) : Std.Refl (Held fd) := ⟨fun s => ⟨Std.Refl.refl s,id⟩⟩

instance (fd : Fd) : IsTrans FatState (Held fd) where
  trans _ _ _ h h' := ⟨IsTrans.trans _ _ _ h.toSameBut h'.toSameBut,fun ho => h'.stays (h.stays ho)⟩

theorem held_local (fd : Fd) : Local fd (Held fd) where
  table _ _ h := ⟨h.sameBut fd,fun ho => by rw [h.fileNum]; exact ho⟩
  update s f h := ⟨updateFile_sameBut fd (fun _ => f) s () _ rfl,fun ho => by
    rw [FatState.setFile_self]
    exact h ho⟩

/-! ### `fat_open` -/

theorem refuse_result {fd : Fd} {e : ℤ} {s t : FatState} {p : ℤ × ℤ}
    (h : refuse fd e s = .ok (p,t)) : p.1 = -1 := by
  obtain ⟨a,u,hu,h⟩ := bind_ok h
  rw [(pure_ok h).1]

theorem openExisting_result {E : Env} {fd : Fd} {flags : OpenFlags} {e : ℤ} {s t : FatState}
    {p : ℤ × ℤ} (h : openExisting E fd flags e s = .ok (p,t)) : p.1 = -1 ∨ p.1 = fd.val := by
  obtain ⟨g,u,hg,h⟩ := bind_ok h
  obtain ⟨f,v,hf,h⟩ := bind_ok h
  have hsucceed {x : FatState} (h : (do
      updateFile fd fun f => { f with fileSector := 0 }
      pure ((fd.val : ℤ),e)) x = .ok (p,t)) : p.1 = -1 ∨ p.1 = fd.val := by
    obtain ⟨a,w,hw,h⟩ := bind_ok h
    exact .inr (by rw [(pure_ok h).1])
  simp only [run_ite] at h
  split at h
  · exact .inl (refuse_result h)
  split at h
  · exact hsucceed h
  split at h
  · exact .inl (refuse_result h)
  split at h
  · exact .inl (refuse_result h)
  split at h
  · split at h
    · exact hsucceed h
    · exact .inl (refuse_result h)
  · obtain ⟨a,w,hw,h⟩ := bind_ok h
    exact hsucceed h

theorem openMissing_result {E : Env} {fd : Fd} {flags : OpenFlags} {mode : ℕ} {s t : FatState}
    {p : ℤ × ℤ} (h : openMissing E fd flags mode s = .ok (p,t)) : p.1 = -1 ∨ p.1 = fd.val := by
  obtain ⟨g,u,hg,h⟩ := bind_ok h
  simp only [run_ite] at h
  split at h
  · exact .inl (refuse_result h)
  split at h
  · exact .inl (refuse_result h)
  · obtain ⟨a,v,hv,h⟩ := bind_ok h
    obtain ⟨b,w,hw,h⟩ := bind_ok h
    exact .inr (by rw [(pure_ok h).1])

section Settled
variable {E : Env} {fd : Fd} {s t : FatState} {p : ℤ × ℤ}

/-- How `fat_open` leaves its slot: given back with the result -1, or open. -/
def Settled (fd : Fd) (t : FatState) (p : ℤ × ℤ) : Prop :=
  p.1 = -1 ∧ (t.fileNum fd).flags.open_ = false ∨ p.1 = fd.val ∧ (t.fileNum fd).flags.open_ = true

theorem refuse_settled {e : ℤ} (h : refuse fd e s = .ok (p,t)) : Settled fd t p := by
  obtain ⟨a,u,hu,h⟩ := bind_ok h
  obtain ⟨rfl,rfl⟩ := pure_ok h
  rw [Settled,updateFile_ok hu]
  simp [Flags.none]

theorem succeed_settled {x : FatM Unit} (hx : Keeps (Held fd) x) {e : ℤ}
    (hopen : (s.fileNum fd).flags.open_ = true)
    (h : (x >>= fun _ => pure ((fd.val : ℤ),e)) s = .ok (p,t)) : Settled fd t p := by
  obtain ⟨a,u,hu,h⟩ := bind_ok h
  obtain ⟨rfl,rfl⟩ := pure_ok h
  exact .inr ⟨rfl,(hx.of_ok hu).stays hopen⟩

theorem openExisting_settled {flags : OpenFlags} {e : ℤ} (hopen : (s.fileNum fd).flags.open_ = true)
    (h : openExisting E fd flags e s = .ok (p,t)) : Settled fd t p := by
  have hrewind : Keeps (Held fd) (updateFile fd fun f => { f with fileSector := 0 }) :=
    (held_local fd).updates fun _ h => h
  rw [openExisting,bind_of_ok rfl,bind_of_ok rfl] at h
  simp only [run_ite] at h
  split at h
  · exact refuse_settled h
  split at h
  · exact succeed_settled hrewind hopen h
  split at h
  · exact refuse_settled h
  split at h
  · exact refuse_settled h
  split at h
  · split at h
    · exact succeed_settled hrewind hopen h
    · exact refuse_settled h
  · obtain ⟨a,w,hw,h⟩ := bind_ok h
    refine succeed_settled hrewind ?_ h
    exact ((keeps_ite (truncateFile_local ((held_local fd).admits E)) (keeps_pure ())).of_ok hw).stays hopen

theorem openMissing_settled {flags : OpenFlags} {mode : ℕ} (hopen : (s.fileNum fd).flags.open_ = true)
    (h : openMissing E fd flags mode s = .ok (p,t)) : Settled fd t p := by
  rw [openMissing,bind_of_ok rfl] at h
  simp only [run_ite] at h
  split at h
  · exact refuse_settled h
  split at h
  · exact refuse_settled h
  · obtain ⟨now,v,hv,h⟩ := bind_ok h
    have hcreate : Keeps (Held fd) (updateFile fd (FileS.create mode now)) :=
      (held_local fd).updates fun _ h => h
    refine succeed_settled hcreate ?_ h
    exact (((held_local fd).keeps (time_sameTable E)).of_ok hv).stays hopen

end Settled

/-- `fat_open` works on one slot that was not open before and returns its number or -1. -/
theorem fatOpen_slot {E : Env} {name : List UInt8} {flags : OpenFlags} {mode : ℕ} {e : ℤ}
    {s t : FatState} {p : ℤ × ℤ} (h : fatOpen E name flags mode e s = .ok (p,t)) :
    p.1 = -1 ∧ t = s ∨ ∃ fd : Fd, (s.fileNum fd).flags.open_ = false ∧ SameBut fd s t ∧
      Settled fd t p := by
  obtain ⟨o,u,ho,h⟩ := bind_ok h
  cases o with
  | none =>
    obtain ⟨rfl,rfl⟩ := pure_ok h
    exact .inl ⟨rfl,nextFileLoop_none ho⟩
  | some fd =>
    obtain ⟨hclosed,rfl⟩ := nextFileLoop_some ho
    have hfirst : SameBut fd s (s.setFile fd { s.fileNum fd with flags := .justOpen }) :=
      updateFile_sameBut fd (fun f => { f with flags := .justOpen }) s () _ rfl
    obtain ⟨q,v,hv,h⟩ := bind_ok h
    obtain ⟨a,w,hw,h⟩ := bind_ok h
    have hbefore := IsTrans.trans _ _ _ hfirst (IsTrans.trans _ _ _
      (fatLookupPath_sameBut E fd name e _ _ _ hv) (updateFile_sameBut fd _ _ _ _ hw))
    have hopen : (w.fileNum fd).flags.open_ = true := by
      have hgrant : Keeps (Held fd) (updateFile fd fun f => { f with flags := f.flags.access flags }) :=
        (held_local fd).updates fun _ h => h
      refine (hgrant.of_ok hw).stays (((fatLookupPath_local ((held_local fd).admits E) name e).of_ok hv).stays ?_)
      rw [FatState.setFile_self]
      rfl
    have hlast : SameBut fd w t ∧ Settled fd t p := by
      simp only [run_ite] at h
      split at h
      · exact ⟨openMissing_sameBut E fd _ _ _ _ _ h,openMissing_settled hopen h⟩
      split at h
      · exact ⟨refuse_sameBut fd _ _ _ _ h,refuse_settled h⟩
      split at h
      · exact ⟨openExisting_sameBut E fd _ _ _ _ _ h,openExisting_settled hopen h⟩
      · exact ⟨refuse_sameBut fd _ _ _ _ h,refuse_settled h⟩
    exact .inr ⟨fd,hclosed,IsTrans.trans _ _ _ hbefore hlast.1,hlast.2⟩

/-! ### `fat_close` -/

/-- A descriptor without anything to store is given back. -/
theorem closeSlot_clean {E : Env} {fd : Fd} {s : FatState} (hopen : (s.fileNum fd).flags.open_ = true)
    (hclean : (s.fileNum fd).flags.dirty = false) (hsaved : (s.fileNum fd).flags.fsDirty = false) :
    closeSlot E fd s = .ok ((0,0),s.setFile fd { s.fileNum fd with flags := .none }) := by
  rw [closeSlot,bind_of_ok rfl,run_ite,if_neg (by simp [hopen]),hclean,if_neg Bool.false_ne_true,
    bind_of_ok rfl,run_ite,if_neg Bool.false_ne_true,bind_of_ok rfl,hsaved,if_neg Bool.false_ne_true,
    bind_of_ok rfl,run_ite,if_neg Bool.false_ne_true]
  rfl

/-! ### The number of a slot as a result -/

theorem slot_cond (r : Fd) : (0 : ℤ) ≤ (r.val : ℤ) ∧ (r.val : ℤ).toNat < maxOpenFiles :=
  ⟨by omega,r.isLt⟩

theorem slot_eq (r : Fd) (h : (r.val : ℤ).toNat < maxOpenFiles) : (⟨(r.val : ℤ).toNat,h⟩ : Fd) = r :=
  Fin.ext (Int.toNat_natCast r.val)

/-! ### Open descriptors are left alone -/

/-- If slot `r` is open it stays as it is. -/
def Untouched (r : Fd) (s t : FatState) : Prop :=
  (s.fileNum r).flags.open_ = true →
    t.fileNum r = s.fileNum r ∧ t.fatfs = s.fatfs ∧ t.dev.size = s.dev.size

instance (r : Fd) : Std.Refl (Untouched r) := ⟨fun _ _ => ⟨rfl,rfl,rfl⟩⟩

instance (r : Fd) : IsTrans FatState (Untouched r) where
  trans _ _ _ h h' ho :=
    have ⟨hf,hg,hn⟩ := h ho
    have ⟨hf',hg',hn'⟩ := h' (hf ▸ ho)
    ⟨hf'.trans hf,hg'.trans hg,hn'.trans hn⟩

theorem SameBut.untouched {fd r : Fd} {s t : FatState} (h : SameBut fd s t) (hr : fd ≠ r) :
    Untouched r s t := fun _ => ⟨h.others r hr.symm,h.fatfs,h.size⟩

section Untouched
variable {α : Type} (E : Env) (r : Fd)

theorem keeps_untouched {x : FatM α} {fd : Fd} (h : Keeps (SameBut fd) x) (hr : fd ≠ r) :
    Keeps (Untouched r) x := h.mono fun _ _ hst => hst.untouched hr

theorem sameTable_untouched {x : FatM α} (h : Keeps SameTable x) : Keeps (Untouched r) x :=
  h.mono fun _ _ hst _ => ⟨congrFun hst.fileNum r,hst.fatfs,hst.device.size⟩

theorem withFd_untouched {n : ℕ} {bad : α} {x : Fd → FatM α}
    (h : ∀ fd, Keeps (SameBut fd) (x fd)) (hn : n ≠ r.val) : Keeps (Untouched r) (withFd n bad x) := by
  unfold withFd
  split
  · exact keeps_untouched r (h _) fun he => hn (by rw [← he])
  · exact keeps_pure bad

/-- What is done with the descriptor `fat_open` returns is done with another one. -/
theorem open_untouched {β : Type} {name : List UInt8} {flags : OpenFlags} {mode : ℕ} {e : ℤ}
    {k : ℤ × ℤ → FatM β} (hfail : ∀ e, Keeps (Untouched r) (k (-1,e)))
    (hopen : ∀ fd : Fd, fd ≠ r → ∀ e, Keeps (Untouched r) (k (fd.val,e))) :
    Keeps (Untouched r) (fatOpen E name flags mode e >>= k) := by
  intro s b t h ho
  obtain ⟨⟨i,e'⟩,u,hu,h⟩ := bind_ok h
  rcases fatOpen_slot hu with ⟨hi,rfl⟩ | ⟨fd,hclosed,hbut,hi⟩
  · obtain rfl : i = -1 := hi
    exact hfail e' u b t h ho
  · have hr : fd ≠ r := by
      rintro rfl
      rw [hclosed] at ho
      exact Bool.false_ne_true ho
    have hk : Keeps (Untouched r) (k (i,e')) := by
      rcases hi with ⟨hi,-⟩ | ⟨hi,-⟩
      · obtain rfl : i = -1 := hi
        exact hfail e'
      · obtain rfl : i = fd.val := hi
        exact hopen fd hr e'
    exact IsTrans.trans _ _ _ (hbut.untouched hr) (hk u b t h) ho

theorem fatRead_untouched {fd : ℕ} (hfd : fd ≠ r.val) (n : ℕ) : Keeps (Untouched r) (fatRead E fd n) :=
  withFd_untouched r (fun fd => readSlot_sameBut E fd n) hfd

theorem fatUnlink_untouched (path : List UInt8) (e : ℤ) : Keeps (Untouched r) (fatUnlink E path e) := by
  refine open_untouched E r (fun e => keeps_pure _) fun fd hr e => ?_
  have h : (0 : ℤ) ≤ (fd.val : ℤ) ∧ (fd.val : ℤ).toNat < maxOpenFiles := ⟨by omega,fd.isLt⟩
  simp only [dif_pos h]
  have hclose := keeps_untouched r (closeSlot_sameBut E fd) hr
  refine keeps_bind (keeps_untouched r (fstatSlot_sameBut fd) hr) fun p => ?_
  cases p.2.2 with
  | none => exact keeps_pure _
  | some st =>
    refine keeps_ite ?_ (keeps_bind (keeps_untouched r (fatDelete_sameBut E fd) hr) fun _ =>
      keeps_bind hclose fun _ => keeps_pure _)
    exact keeps_bind (keeps_untouched r (updateFile_sameBut fd _) hr) fun _ =>
      keeps_bind hclose fun _ => keeps_pure _

theorem fatRmdir_untouched (path : List UInt8) (e : ℤ) : Keeps (Untouched r) (fatRmdir E path e) := by
  refine open_untouched E r (fun e => keeps_pure _) fun fd hr e => ?_
  have h : (0 : ℤ) ≤ (fd.val : ℤ) ∧ (fd.val : ℤ).toNat < maxOpenFiles := ⟨by omega,fd.isLt⟩
  have hne : (fd.val : ℤ).toNat ≠ r.val := fun he => hr (Fin.ext he)
  simp only [dif_pos h]
  have hclose := keeps_untouched r (closeSlot_sameBut E fd) hr
  refine keeps_bind (rmdirLoop_keeps (fatRead_untouched E r hne 32) _ _) fun p => keeps_ite ?_ ?_
  · exact keeps_bind hclose fun _ => keeps_pure _
  · exact keeps_bind (keeps_untouched r (fatDelete_sameBut E fd) hr) fun _ =>
      keeps_bind hclose fun q => keeps_ite (keeps_pure _) (keeps_pure _)

theorem time_untouched : Keeps (Untouched r) (time E) := sameTable_untouched r (time_sameTable E)

theorem stampedDir_untouched (filename : Fin 8 → UInt8) (c : ℕ) :
    Keeps (Untouched r) (stampedDir E filename c) := by
  have ht := time_untouched E r
  exact keeps_bind ht fun _ => keeps_bind ht fun _ => keeps_bind ht fun _ => keeps_bind ht fun _ =>
    keeps_bind ht fun _ => keeps_bind ht fun _ => keeps_pure _

theorem fatFreeClusters_untouched (c : ℕ) : Keeps (Untouched r) (fatFreeClusters E c) :=
  sameTable_untouched r (fatFreeClusters_sameTable E c)

variable {fd : ℕ} (hfd : fd ≠ r.val)
include hfd

theorem fatWrite_untouched (bytes : List UInt8) : Keeps (Untouched r) (fatWrite E fd bytes) :=
  withFd_untouched r (fun fd => writeSlot_sameBut E fd bytes) hfd

theorem fatLseek_untouched (ptr : ℤ) (dir : Whence) : Keeps (Untouched r) (fatLseek E fd ptr dir) :=
  withFd_untouched r (fun fd => seekSlot_sameBut E fd ptr dir) hfd

theorem fatClose_untouched : Keeps (Untouched r) (fatClose E fd) :=
  withFd_untouched r (closeSlot_sameBut E) hfd

theorem seekEmptyLoop_untouched (n : ℕ) : Keeps (Untouched r) (seekEmptyLoop E fd n) := by
  induction n with
  | zero => exact keeps_stop .fuel
  | succ n ih =>
    exact keeps_bind (fatRead_untouched E r hfd 32) fun p =>
      keeps_ite (keeps_pure _) (keeps_ite ih (keeps_pure _))

theorem abandon_untouched (c : ℕ) : Keeps (Untouched r) (abandon E fd c) :=
  keeps_bind (fatClose_untouched E r hfd) fun _ =>
    keeps_bind (fatFreeClusters_untouched E r c) fun _ => keeps_pure _

theorem writeZeroEntries_untouched (n : ℕ) (e : ℤ) :
    Keeps (Untouched r) (writeZeroEntries E fd n e) := by
  induction n generalizing e with
  | zero => exact keeps_pure _
  | succ n ih =>
    exact keeps_bind (fatWrite_untouched E r hfd _) fun p => keeps_ite (keeps_pure _) (ih p.2)

omit hfd in
theorem mkdirFill_untouched (path : List UInt8) (c parentCluster : ℕ) (e : ℤ) :
    Keeps (Untouched r) (mkdirFill E path c parentCluster e) := by
  refine open_untouched E r (fun e => ?_) fun fd hr e => keeps_ite (keeps_pure _) ?_
  · simp only [if_true]
    exact keeps_pure _
  · have hne : (fd.val : ℤ).toNat ≠ r.val := fun he => hr (Fin.ext he)
    refine keeps_bind (stampedDir_untouched E r _ _) fun _ => ?_
    refine keeps_bind (fatWrite_untouched E r hne _) fun p => keeps_ite (keeps_pure _) ?_
    refine keeps_bind (fatWrite_untouched E r hne _) fun p => keeps_ite (keeps_pure _) ?_
    refine keeps_bind keeps_fatfs fun g => ?_
    refine keeps_bind (writeZeroEntries_untouched E r hne _ _) fun p => keeps_ite (keeps_pure _) ?_
    exact keeps_bind (fatClose_untouched E r hne) fun p => keeps_ite (keeps_pure _) (keeps_pure _)

theorem mkdirEnter_untouched (path filename : List UInt8) (c parentCluster : ℕ) (e : ℤ) :
    Keeps (Untouched r) (mkdirEnter E path filename fd c parentCluster e) := by
  refine keeps_bind (fatLseek_untouched E r hfd _ _) fun p =>
    keeps_ite (abandon_untouched E r hfd c) ?_
  refine keeps_bind (liftStop_keeps _) fun o => ?_
  cases o with
  | none =>
    exact keeps_bind (fatFreeClusters_untouched E r c) fun _ =>
      keeps_bind (fatClose_untouched E r hfd) fun _ => keeps_pure _
  | some name =>
    refine keeps_bind (stampedDir_untouched E r _ _) fun _ => ?_
    refine keeps_bind (fatWrite_untouched E r hfd _) fun p => keeps_ite (keeps_pure _) ?_
    refine keeps_bind (fatWrite_untouched E r hfd _) fun p => keeps_ite (keeps_pure _) ?_
    exact keeps_bind (fatClose_untouched E r hfd) fun p =>
      keeps_ite (keeps_pure _) (mkdirFill_untouched E r _ _ _ _)

omit hfd in
theorem fatMkdir_untouched (path : List UInt8) : Keeps (Untouched r) (fatMkdir E path) := by
  have hfree (c : ℕ) := fatFreeClusters_untouched E r c
  refine keeps_ite (keeps_pure _) (keeps_ite (keeps_pure _) ?_)
  refine keeps_bind (liftStop_keeps _) fun p => ?_
  refine keeps_bind (sameTable_untouched r (fatGetFreeCluster_sameTable E)) fun c => ?_
  refine keeps_ite (keeps_pure _) (open_untouched E r (fun e => ?_) fun fd hr e => ?_)
  · have h : ¬ ((0 : ℤ) ≤ -1 ∧ (-1 : ℤ).toNat < maxOpenFiles) := by omega
    simp only [dif_neg h]
    exact keeps_bind (hfree c) fun _ => keeps_pure _
  · have h : (0 : ℤ) ≤ (fd.val : ℤ) ∧ (fd.val : ℤ).toNat < maxOpenFiles := ⟨by omega,fd.isLt⟩
    have hne : (fd.val : ℤ).toNat ≠ r.val := fun he => hr (Fin.ext he)
    simp only [dif_pos h]
    refine keeps_bind (keeps_file _) fun f => keeps_bind (seekEmptyLoop_untouched E r hne _) fun b => ?_
    exact keeps_ite (abandon_untouched E r hne c) (mkdirEnter_untouched E r hne _ _ _ _ _)

end Untouched

/-- A call that is not made on an open descriptor does not touch it. -/
theorem exec_untouched (E : Env) (r : Fd) {c : Call} (hc : c.fd? ≠ some r.val) :
    Keeps (Untouched r) (c.exec E) := by
  have hne {n : ℕ} (h : some n ≠ some r.val) : n ≠ r.val := fun he => h (by rw [he])
  cases c with
  | openPath path flags mode e =>
    exact open_untouched E r (fun e => keeps_pure _) fun fd _ e => keeps_pure _
  | read fd n => exact keeps_bind (fatRead_untouched E r (hne hc) n) fun _ => keeps_pure _
  | write fd bytes => exact keeps_bind (fatWrite_untouched E r (hne hc) bytes) fun _ => keeps_pure _
  | lseek fd ptr dir => exact keeps_bind (fatLseek_untouched E r (hne hc) ptr dir) fun _ => keeps_pure _
  | fstat fd =>
    exact keeps_bind (withFd_untouched r fstatSlot_sameBut (hne hc)) fun _ => keeps_pure _
  | getNextDirent fd =>
    exact keeps_bind (nextDirentLoop_keeps (fatRead_untouched E r (hne hc) 32) _) fun _ => keeps_pure _
  | close fd => exact keeps_bind (fatClose_untouched E r (hne hc)) fun _ => keeps_pure _
  | unlink path e => exact keeps_bind (fatUnlink_untouched E r path e) fun _ => keeps_pure _
  | rmdir path e => exact keeps_bind (fatRmdir_untouched E r path e) fun _ => keeps_pure _
  | mkdir path => exact keeps_bind (fatMkdir_untouched E r path) fun _ => keeps_pure _

end Gristle
