import Gristle.Consistent

/-! The open slots of the table across `fat_unlink`, `fat_rmdir` and `fat_mkdir`: each of them closes
what it opened, unless a close or a write it makes fails on the way. -/
namespace Gristle
open Prog

/-- The same slots are open. -/
def SameOpen (s t : FatState) : Prop := ∀ j, (t.fileNum j).flags.open_ = (s.fileNum j).flags.open_

theorem SameOpen.refl (s : FatState) : SameOpen s s := fun _ => rfl

theorem SameOpen.trans {s t u : FatState} (h : SameOpen s t) (h' : SameOpen t u) : SameOpen s u :=
  fun j => (h' j).trans (h j)

theorem SameTable.sameOpen {s t : FatState} (h : SameTable s t) : SameOpen s t := fun j => by rw [h.fileNum]

theorem SameOpen.iff_left {s u t : FatState} (h : SameOpen s u) : SameOpen s t ↔ SameOpen u t :=
  forall_congr' fun j => by rw [h j]

theorem SameOpen.iff_right {s u t : FatState} (h : SameOpen u t) : SameOpen s t ↔ SameOpen s u :=
  forall_congr' fun j => by rw [h j]

/-- When one closed slot is used, all depends on whether it is closed in the end. -/
theorem SameBut.sameOpen_iff {fd : Fd} {s t : FatState} (h : SameBut fd s t)
    (hclosed : (s.fileNum fd).flags.open_ = false) :
    SameOpen s t ↔ (t.fileNum fd).flags.open_ = false := by
  refine ⟨fun hopen => (hopen fd).trans hclosed,fun ht j => ?_⟩
  by_cases hj : j = fd
  · subst hj
    rw [ht,hclosed]
  · rw [h.others j hj]

/-! ### The time between an open and its close -/

/-- Since `s` one slot was opened and is in use. -/
structure Session (fd : Fd) (s t : FatState) : Prop where
  closed : (s.fileNum fd).flags.open_ = false
  but : SameBut fd s t
  opened : (t.fileNum fd).flags.open_ = true

section Session
variable {E : Env} {fd : Fd} {s t u : FatState} {p : ℤ × ℤ}

theorem Session.step (h : Session fd s t) {α : Type} {x : FatM α} {a : α} (hx : Keeps (Held fd) x)
    (hu : x t = .ok (a,u)) : Session fd s u :=
  have hheld := hx.of_ok hu
  ⟨h.closed,IsTrans.trans _ _ _ h.but hheld.toSameBut,hheld.stays h.opened⟩

theorem Session.not_sameOpen (h : Session fd s t) : ¬ SameOpen s t := by
  rw [h.but.sameOpen_iff h.closed,h.opened]
  decide

/-- `fat_close` frees its slot exactly when it succeeds. -/
theorem closeSlot_closed (hopen : (s.fileNum fd).flags.open_ = true)
    (h : closeSlot E fd s = .ok (p,t)) : (t.fileNum fd).flags.open_ = false ↔ p.1 = 0 := by
  have hfail {u : FatState} (ho : (u.fileNum fd).flags.open_ = true)
      (h : (pure (-1,eIo) : FatM (ℤ × ℤ)) u = .ok (p,t)) :
      (t.fileNum fd).flags.open_ = false ↔ p.1 = 0 := by
    obtain ⟨rfl,rfl⟩ := pure_ok h
    simp [ho]
  rw [closeSlot,bind_of_ok rfl,run_ite,if_neg (by simp [hopen])] at h
  obtain ⟨failed,v,hv,h⟩ := bind_ok h
  have hov : (v.fileNum fd).flags.open_ = true := by
    refine (Keeps.of_ok (R := Held fd) ?_ hv).stays hopen
    exact keeps_ite (keeps_bind (fatFlush_local ((held_local fd).admits E)) fun _ => keeps_pure _) (keeps_pure _)
  rw [run_ite] at h
  split at h
  · exact hfail hov h
  rw [bind_of_ok rfl] at h
  obtain ⟨failed',x,hx,h⟩ := bind_ok h
  have hox : (x.fileNum fd).flags.open_ = true := by
    refine (Keeps.of_ok (R := Held fd) ?_ hx).stays hov
    exact keeps_ite (keeps_bind (fatFlushFileinfo_local ((held_local fd).admits E)) fun _ => keeps_pure _)
      (keeps_pure _)
  rw [run_ite] at h
  split at h
  · exact hfail hox h
  obtain ⟨a,y,hy,h⟩ := bind_ok h
  obtain ⟨rfl,rfl⟩ := pure_ok h
  rw [updateFile_ok hy]
  simp [Flags.none]

theorem Session.close (h : Session fd s t) (hclose : closeSlot E fd t = .ok (p,u)) :
    SameOpen s u ↔ p.1 = 0 := by
  have hbut := IsTrans.trans _ _ _ h.but (closeSlot_sameBut E fd _ _ _ hclose)
  rw [hbut.sameOpen_iff h.closed,closeSlot_closed h.opened hclose]

/-- `fat_open` fails and leaves no slot open, or begins a session. -/
theorem fatOpen_session {name : List UInt8} {flags : OpenFlags} {mode : ℕ} {e : ℤ}
    (h : fatOpen E name flags mode e s = .ok (p,t)) :
    p.1 = -1 ∧ SameOpen s t ∨ ∃ fd : Fd, p.1 = fd.val ∧ Session fd s t := by
  rcases fatOpen_slot h with ⟨hp,rfl⟩ | ⟨fd,hclosed,hbut,⟨hp,ht⟩ | ⟨hp,ht⟩⟩
  · exact .inl ⟨hp,SameOpen.refl t⟩
  · exact .inl ⟨hp,(hbut.sameOpen_iff hclosed).2 ht⟩
  · exact .inr ⟨fd,hp,hclosed,hbut,ht⟩

end Session

/-- A number is that of one slot. -/
theorem forall_slot {fd : Fd} {Q : Fd → Prop} : (∀ r : Fd, (fd.val : ℤ) = r.val → Q r) ↔ Q fd := by
  refine ⟨fun hq => hq fd rfl,fun hq r hr => ?_⟩
  rwa [show r = fd from Fin.ext (by exact_mod_cast hr.symm)]

/-! ### `fat_unlink` and `fat_rmdir` -/

section Remove
variable {E : Env} {path : List UInt8} {e : ℤ} {s t : FatState} {p : ℤ × ℤ}

/-- The slot a removal ends with holds nothing to write back. -/
theorem fatDelete_justOpen {fd : Fd} {a : Unit} (h : fatDelete E fd s = .ok (a,t)) :
    (t.fileNum fd).flags = .justOpen := by
  rw [fatDelete,bind_of_ok rfl] at h
  obtain ⟨b,u,hu,h⟩ := bind_ok h
  obtain ⟨c,v,hv,h⟩ := bind_ok h
  rw [bind_of_ok rfl] at h
  obtain ⟨d,w,hw,h⟩ := bind_ok h
  obtain ⟨f,x,hx,h⟩ := bind_ok h
  rw [updateFile_ok h,FatState.setFile_self]

theorem closeSlot_justOpen {fd : Fd} (hflags : (s.fileNum fd).flags = .justOpen)
    (h : closeSlot E fd s = .ok (p,t)) : p.1 = 0 := by
  rw [closeSlot_clean (by rw [hflags]; rfl) (by rw [hflags]; rfl) (by rw [hflags]; rfl)] at h
  obtain ⟨rfl,-⟩ := Prod.mk.inj (Except.ok.inj h)
  rfl

theorem fstatSlot_open {fd : Fd} (hopen : (s.fileNum fd).flags.open_ = true) :
    fstatSlot fd s = .ok ((0,0,some ⟨(s.fileNum fd).isSubdir,(s.fileNum fd).size,(s.fileNum fd).accessed,
      (s.fileNum fd).modified,(s.fileNum fd).created⟩),s) := by
  rw [fstatSlot,bind_of_ok rfl,run_ite,if_neg (by simp [hopen])]
  rfl

/-- `fat_unlink` closes what it opened on every way through it. -/
theorem fatUnlink_sameOpen (h : fatUnlink E path e s = .ok (p,t)) : SameOpen s t := by
  obtain ⟨⟨i,e'⟩,u,hu,h⟩ := bind_ok h
  rcases fatOpen_session hu with ⟨hi,hsame⟩ | ⟨fd,hi,hsession⟩
  · obtain rfl : i = -1 := hi
    rwa [(pure_ok h).2]
  obtain rfl : i = fd.val := hi
  simp only [dif_pos (slot_cond fd),slot_eq] at h
  rw [bind_of_ok (fstatSlot_open hsession.opened)] at h
  simp only [run_ite] at h
  split at h
  · obtain ⟨a,v,hv,h⟩ := bind_ok h
    obtain ⟨q,w,hw,h⟩ := bind_ok h
    obtain ⟨-,rfl⟩ := pure_ok h
    have hsv := hsession.step ((held_local fd).updates fun _ _ => rfl) hv
    refine (hsv.close hw).2 (closeSlot_justOpen ?_ hw)
    rw [updateFile_ok hv,FatState.setFile_self]
  · obtain ⟨a,v,hv,h⟩ := bind_ok h
    obtain ⟨q,w,hw,h⟩ := bind_ok h
    obtain ⟨-,rfl⟩ := pure_ok h
    have hsv := hsession.step (fatDelete_local ((held_local fd).admits E)) hv
    exact (hsv.close hw).2 (closeSlot_justOpen (fatDelete_justOpen hv) hw)

/-- The close that ends the refusal of `fat_rmdir` to remove a directory with entries succeeds. -/
def RmdirCloses (E : Env) (path : List UInt8) (rerrno : ℤ) (s : FatState) : Prop :=
  (fatOpen E path oRdonly 0o777 rerrno).Every s fun p t => ∀ fd : Fd, p.1 = fd.val →
    (rmdirLoop E fd E.fuel p.2).Every t fun q u => q.1 = true →
      (closeSlot E fd).Every u fun r _ => r.1 = 0

theorem fatRmdir_sameOpen (h : fatRmdir E path e s = .ok (p,t)) :
    SameOpen s t ↔ RmdirCloses E path e s := by
  obtain ⟨⟨i,e'⟩,u,hu,h⟩ := bind_ok h
  rw [RmdirCloses,every_of_ok hu]
  rcases fatOpen_session hu with ⟨hi,hsame⟩ | ⟨fd,hi,hsession⟩
  · obtain rfl : i = -1 := hi
    obtain ⟨-,rfl⟩ := pure_ok h
    exact iff_of_true hsame fun fd hfd => absurd hfd (by omega)
  obtain rfl : i = fd.val := hi
  simp only [dif_pos (slot_cond fd),slot_eq] at h
  obtain ⟨⟨nonempty,e₁⟩,v,hv,h⟩ := bind_ok h
  have hsv := hsession.step
    (rmdirLoop_keeps (withFd_keeps (readSlot_local ((held_local fd).admits E) 32)) _ _) hv
  rw [forall_slot]
  refine Iff.trans ?_ (every_of_ok hv).symm
  cases nonempty with
  | true =>
    rw [run_ite,if_pos rfl] at h
    obtain ⟨q,w,hw,h⟩ := bind_ok h
    obtain ⟨-,rfl⟩ := pure_ok h
    simp only [forall_const,every_of_ok hw]
    exact hsv.close hw
  | false =>
    rw [run_ite,if_neg Bool.false_ne_true] at h
    obtain ⟨a,w,hw,h⟩ := bind_ok h
    obtain ⟨q,x,hx,h⟩ := bind_ok h
    have htx : t = x := by
      rw [run_ite] at h
      split at h
      · exact (pure_ok h).2
      · exact (pure_ok h).2
    subst htx
    have hsw := hsv.step (fatDelete_local ((held_local fd).admits E)) hw
    refine iff_of_true ?_ fun hq => absurd hq Bool.false_ne_true
    exact (hsw.close hx).2 (closeSlot_justOpen (fatDelete_justOpen hw) hx)

end Remove

/-! ### `fat_mkdir` -/

/-- All writes into the new directory and the close after them succeed. -/
def FillCloses (E : Env) (path : List UInt8) (cluster parentCluster : ℕ) (intCall : ℤ) (s : FatState) :
    Prop :=
  (fatOpen E path oRdwr 0o777 intCall).Every s fun p t => ∀ fd : Fd, p.1 = fd.val →
    (stampedDir E (paddedName [chDot]) cluster).Every t fun d t =>
    (fatWrite E fd d.bytes).Every t fun p t => p.1 ≠ -1 ∧
    (fatWrite E fd { d with
      filename := paddedName [chDot,chDot]
      highFirstCluster := parentCluster / 2^16 % 2^16
      firstCluster := parentCluster % 2^16 }.bytes).Every t fun p t => p.1 ≠ -1 ∧
    (writeZeroEntries E fd (blockSize * t.fatfs.sectorsPerCluster / 32 - 2) p.2).Every t fun p t =>
      p.1 ≠ false ∧ (fatClose E fd).Every t fun p _ => p.1 = 0

/-- With the parent open: it is closed again, after both writes have succeeded or before them. -/
def EnterCloses (E : Env) (path filename : List UInt8) (fd : Fd) (cluster parentCluster : ℕ)
    (intCall : ℤ) (s : FatState) : Prop :=
  (fatLseek E fd (-32) .cur).Every s fun p s =>
    if p.1 = -33 then (fatClose E fd).Every s fun p _ => p.1 = 0
    else (liftStop (strToFatname (some 0) filename)).Every s fun o s =>
      match o with
      | none => (fatFreeClusters E cluster).Every s fun _ s => (fatClose E fd).Every s fun p _ => p.1 = 0
      | some dosname => (stampedDir E (paddedName dosname) cluster).Every s fun d s =>
        (fatWrite E fd d.bytes).Every s fun p s => p.1 ≠ -1 ∧
        (fatWrite E fd DirentS.zero.bytes).Every s fun p s => p.1 ≠ -1 ∧
        (fatClose E fd).Every s fun p s => p.1 = 0 ∧
          FillCloses E path cluster parentCluster intCall s

/-- No way through `fat_mkdir` is taken on which a `fat_close` or, with a descriptor open, a
`fat_write` fails. -/
def MkdirCloses (E : Env) (path : List UInt8) (s : FatState) : Prop :=
  path.length + 1 ≤ maxPathLen → path.head? = some chSlash →
  (liftStop (splitPath path)).Every s fun names s => (fatGetFreeCluster E).Every s fun cluster s =>
    ¬ (cluster = 0xFFFFFFF ∨ cluster = 0) →
    (fatOpen E (if names.1 = [] then [chSlash] else names.1) oRdwr 0o777 fatInternalCall).Every s
      fun p s => ∀ fd : Fd, p.1 = fd.val → (seekEmptyLoop E fd E.fuel).Every s fun found t =>
        if found = false then (fatClose E fd).Every t fun p _ => p.1 = 0
        else EnterCloses E path names.2 fd cluster (s.fileNum fd).fullFirstCluster p.2 t

section Mkdir
variable {E : Env} {path : List UInt8} {e : ℤ} {fd : Fd} {s t u : FatState} {p : ℤ × ℤ}

theorem seekEmptyLoop_held (n : ℕ) : Keeps (Held fd) (seekEmptyLoop E fd n) := by
  induction n with
  | zero => exact keeps_stop .fuel
  | succ n ih =>
    refine keeps_bind (withFd_keeps (readSlot_local ((held_local fd).admits E) 32)) fun q => ?_
    exact keeps_ite (keeps_pure _) (keeps_ite ih (keeps_pure _))

theorem fatWrite_held (bytes : List UInt8) : Keeps (Held fd) (fatWrite E fd bytes) :=
  withFd_keeps (writeSlot_local ((held_local fd).admits E) bytes)

theorem writeZeroEntries_held (n : ℕ) (e : ℤ) : Keeps (Held fd) (writeZeroEntries E fd n e) := by
  induction n generalizing e with
  | zero => exact keeps_pure _
  | succ n ih =>
    exact keeps_bind (fatWrite_held DirentS.zero.bytes) fun q => keeps_ite (keeps_pure _) (ih _)

theorem stampedDir_sameTable (filename : Fin 8 → UInt8) (c : ℕ) :
    Keeps SameTable (stampedDir E filename c) := by
  iterate 6 refine keeps_bind (time_sameTable E) fun _ => ?_
  exact keeps_pure _

theorem fatClose_slot : fatClose E fd = closeSlot E fd := by
  rw [fatClose,withFd,dif_pos fd.isLt]

theorem Session.fatClose (h : Session fd s t) (hclose : fatClose E fd t = .ok (p,u)) :
    SameOpen s u ↔ p.1 = 0 := h.close (by rwa [fatClose_slot] at hclose)

theorem Session.table (h : Session fd s t) {α : Type} {x : FatM α} {a : α} (hx : Keeps SameTable x)
    (hu : x t = .ok (a,u)) : Session fd s u := h.step ((held_local fd).keeps hx) hu

/-- A step of `fat_mkdir` whose failure ends the call with the descriptor still open. -/
theorem Session.check {α : Type} {x : FatM α} {fails : α → Prop} [DecidablePred fails]
    {k k' : α → FatM (ℤ × ℤ)} {Q : α → FatState → Prop} (hs : Session fd s t) (hx : Keeps (Held fd) x)
    (hfail : ∀ a, Keeps SameTable (k' a))
    (h : (x >>= fun a => if fails a then k' a else k a) t = .ok (p,u))
    (hk : ∀ a v, Session fd s v → k a v = .ok (p,u) → (SameOpen s u ↔ Q a v)) :
    SameOpen s u ↔ x.Every t fun a v => ¬ fails a ∧ Q a v := by
  obtain ⟨a,v,hv,h⟩ := bind_ok h
  have hsv := hs.step hx hv
  rw [every_of_ok hv]
  rw [run_ite] at h
  split at h
  · exact iff_of_false (hsv.table (hfail a) h).not_sameOpen fun hq => hq.1 ‹_›
  · rw [hk a v hsv h,and_iff_right ‹_›]

theorem mkdirFill_sameOpen {c parentCluster : ℕ} (h : mkdirFill E path c parentCluster e s = .ok (p,t)) :
    SameOpen s t ↔ FillCloses E path c parentCluster e s := by
  obtain ⟨⟨i,e'⟩,u,hu,h⟩ := bind_ok h
  refine Iff.trans ?_ (every_of_ok hu).symm
  rcases fatOpen_session hu with ⟨hi,hsame⟩ | ⟨fd,hi,hsession⟩
  · obtain rfl : i = -1 := hi
    obtain ⟨-,rfl⟩ := pure_ok h
    exact iff_of_true hsame fun fd hfd => absurd hfd (by omega)
  obtain rfl : i = fd.val := hi
  rw [forall_slot]
  simp only [run_ite,Int.toNat_natCast] at h
  rw [if_neg (by omega)] at h
  obtain ⟨d,u₁,h₁,h⟩ := bind_ok h
  have hs₁ := hsession.table (stampedDir_sameTable _ _) h₁
  refine Iff.trans ?_ (every_of_ok h₁).symm
  refine hs₁.check (fatWrite_held _) (fun _ => keeps_pure _) h fun _ u₂ hs₂ h => ?_
  refine hs₂.check (fatWrite_held _) (fun _ => keeps_pure _) h fun _ u₃ hs₃ h => ?_
  rw [bind_of_ok rfl] at h
  refine hs₃.check (writeZeroEntries_held _ _) (fun _ => keeps_pure _) h fun _ u₄ hs₄ h => ?_
  obtain ⟨q₅,u₅,h₅,h⟩ := bind_ok h
  have htu : t = u₅ := by
    rw [run_ite] at h
    split at h
    · exact (pure_ok h).2
    · exact (pure_ok h).2
  rw [every_of_ok h₅,htu]
  exact hs₄.fatClose h₅

/-- Giving everything back: the cluster does not matter for the table. -/
theorem abandon_sameOpen {c : ℕ} (hs : Session fd s t) (h : abandon E fd c t = .ok (p,u)) :
    SameOpen s u ↔ (Gristle.fatClose E fd).Every t fun p _ => p.1 = 0 := by
  obtain ⟨q,v,hv,h⟩ := bind_ok h
  obtain ⟨r,w,hw,h⟩ := bind_ok h
  obtain ⟨-,rfl⟩ := pure_ok h
  rw [every_of_ok hv,((fatFreeClusters_sameTable E c).of_ok hw).sameOpen.iff_right]
  exact hs.fatClose hv

theorem mkdirEnter_sameOpen {filename : List UInt8} {c parentCluster : ℕ} (hs : Session fd s t)
    (h : mkdirEnter E path filename fd c parentCluster e t = .ok (p,u)) :
    SameOpen s u ↔ EnterCloses E path filename fd c parentCluster e t := by
  obtain ⟨q₁,u₁,h₁,h⟩ := bind_ok h
  have hs₁ := hs.step (withFd_keeps (seekSlot_local ((held_local fd).admits E) _ _)) h₁
  refine Iff.trans ?_ (every_of_ok h₁).symm
  simp only [run_ite] at h
  split at h
  · rw [if_pos ‹_›]
    exact abandon_sameOpen hs₁ h
  rw [if_neg ‹_›]
  obtain ⟨o,u₂,h₂,h⟩ := bind_ok h
  have hs₂ := hs₁.step (liftStop_keeps _) h₂
  refine Iff.trans ?_ (every_of_ok h₂).symm
  cases o with
  | none =>
    obtain ⟨q₃,u₃,h₃,h⟩ := bind_ok h
    have hs₃ := hs₂.table (fatFreeClusters_sameTable E c) h₃
    obtain ⟨q₄,u₄,h₄,h⟩ := bind_ok h
    obtain ⟨-,rfl⟩ := pure_ok h
    refine Iff.trans ?_ (every_of_ok h₃).symm
    rw [every_of_ok h₄]
    exact hs₃.fatClose h₄
  | some dosname =>
    obtain ⟨d,u₃,h₃,h⟩ := bind_ok h
    have hs₃ := hs₂.table (stampedDir_sameTable _ _) h₃
    refine Iff.trans ?_ (every_of_ok h₃).symm
    refine hs₃.check (fatWrite_held _) (fun _ => keeps_pure _) h fun _ u₄ hs₄ h => ?_
    refine hs₄.check (fatWrite_held _) (fun _ => keeps_pure _) h fun _ u₅ hs₅ h => ?_
    obtain ⟨q₆,u₆,h₆,h⟩ := bind_ok h
    have hclose := hs₅.fatClose h₆
    refine Iff.trans ?_ (every_of_ok h₆).symm
    simp only [run_ite] at h
    split at h
    · obtain ⟨-,rfl⟩ := pure_ok h
      exact iff_of_false (fun hsame => absurd (hclose.1 hsame) ‹_›) fun hq => absurd hq.1 ‹_›
    have hzero := not_not.1 ‹_›
    refine Iff.trans ?_ (and_iff_right hzero).symm
    rw [(hclose.2 hzero).iff_left]
    exact mkdirFill_sameOpen h

theorem fatMkdir_sameOpen (h : fatMkdir E path s = .ok (p,t)) : SameOpen s t ↔ MkdirCloses E path s := by
  rw [fatMkdir,run_ite] at h
  split at h
  · obtain ⟨-,rfl⟩ := pure_ok h
    exact iff_of_true (SameOpen.refl t) fun hlen => absurd hlen (by omega)
  rw [run_ite] at h
  split at h
  · obtain ⟨-,rfl⟩ := pure_ok h
    exact iff_of_true (SameOpen.refl t) fun _ hhead => absurd hhead ‹_›
  refine Iff.trans ?_ (forall_prop_of_true (by omega)).symm
  refine Iff.trans ?_ (forall_prop_of_true (not_not.1 ‹_›)).symm
  obtain ⟨names,u₁,h₁,h⟩ := bind_ok h
  refine Iff.trans ?_ (every_of_ok h₁).symm
  rw [((liftStop_keeps (R := SameTable) _).of_ok h₁).sameOpen.iff_left]
  obtain ⟨c,u₂,h₂,h⟩ := bind_ok h
  refine Iff.trans ?_ (every_of_ok h₂).symm
  rw [((fatGetFreeCluster_sameTable E).of_ok h₂).sameOpen.iff_left]
  rw [run_ite] at h
  split at h
  · obtain ⟨-,rfl⟩ := pure_ok h
    exact iff_of_true (SameOpen.refl t) fun hc => absurd ‹_› hc
  refine Iff.trans ?_ (forall_prop_of_true ‹_›).symm
  obtain ⟨⟨i,e'⟩,u₃,h₃,h⟩ := bind_ok h
  refine Iff.trans ?_ (every_of_ok h₃).symm
  rcases fatOpen_session h₃ with ⟨hi,hsame⟩ | ⟨fd,hi,hs⟩
  · obtain rfl : i = -1 := hi
    obtain ⟨b,v,hv,h⟩ := bind_ok h
    obtain ⟨-,rfl⟩ := pure_ok h
    refine iff_of_true ?_ fun fd hfd => absurd hfd (by omega)
    exact hsame.trans ((fatFreeClusters_sameTable E c).of_ok hv).sameOpen
  obtain rfl : i = fd.val := hi
  rw [forall_slot]
  simp only [dif_pos (slot_cond fd),slot_eq] at h
  simp only [Int.toNat_natCast] at h
  rw [bind_of_ok rfl] at h
  obtain ⟨found,u₄,h₄,h⟩ := bind_ok h
  have hs₄ := hs.step (seekEmptyLoop_held _) h₄
  refine Iff.trans ?_ (every_of_ok h₄).symm
  rw [run_ite] at h
  split at h
  · rw [if_pos ‹_›]
    exact abandon_sameOpen hs₄ h
  · rw [if_neg ‹_›]
    exact mkdirEnter_sameOpen hs₄ h

end Mkdir

/-! ### All three calls -/

/-- The calls that use descriptors only for themselves. -/
def Call.changesTree : Call → Bool
  | .unlink _ _ | .rmdir _ _ | .mkdir _ => true
  | _ => false

/-- No descriptor is left behind by a `fat_close` or `fat_write` that fails inside the call. -/
def Call.Closes (E : Env) (s : FatState) : Call → Prop
  | .rmdir path rerrno => RmdirCloses E path rerrno s
  | .mkdir path => MkdirCloses E path s
  | _ => True

/-- Surroundings in which no block can be written. -/
def Env.stuck (now : ℕ → ℤ) (fuel : ℕ) : Env := { Env.calm now fuel with writeFails _ := true }

end Gristle
