import Gristle.Frame

/-! Relations on states that any change of the descriptor table keeps: what the operations on the device
keep of such a relation, every call of the driver keeps. -/
namespace Gristle
open Prog

/-- A relation that looks at the device only, kept by each operation on it. -/
structure Historic (E : Env) (R : FatState → FatState → Prop) : Prop where
  read : ∀ b, Keeps R (onDevice (Device.blockRead E b))
  write : ∀ o b data, Keeps R (writeBlock E o b data)
  time : Keeps R (time E)
  junk : Keeps R (junk E)
  allocate : Keeps R (fatGetFreeCluster E)
  release : ∀ c, Keeps R (fatFreeClusters E c)
  update : ∀ s fd f, R s (s.setFile fd f)

section Historic
variable {E : Env} {R : FatState → FatState → Prop} (hR : Historic E R)
include hR

theorem Historic.admits (fd : Fd) : Admits E fd R :=
  ⟨hR.read,hR.write,hR.time,hR.junk,hR.allocate,hR.release,fun s f _ => hR.update s fd f⟩

theorem Historic.updates (fd : Fd) (u : FileS → FileS) : Keeps R (updateFile fd u) :=
  keeps_modify fun s => hR.update s fd _

variable [Std.Refl R] [IsTrans FatState R]

/-! ### Opening and closing -/

theorem closeSlot_historic (fd : Fd) : Keeps R (closeSlot E fd) := by
  have hflush := fatFlush_local (hR.admits fd)
  have hinfo := fatFlushFileinfo_local (hR.admits fd)
  refine keeps_bind (keeps_file fd) fun f => keeps_ite (keeps_pure _) ?_
  refine keeps_bind (keeps_ite (keeps_bind hflush fun _ => keeps_pure _) (keeps_pure _)) fun _ => ?_
  refine keeps_ite (keeps_pure _) (keeps_bind (keeps_file fd) fun f => ?_)
  refine keeps_bind (keeps_ite (keeps_bind hinfo fun _ => keeps_pure _) (keeps_pure _)) fun _ => ?_
  exact keeps_ite (keeps_pure _) (keeps_bind (hR.updates fd _) fun _ => keeps_pure _)

theorem nextFileLoop_historic (n j : ℕ) : Keeps R (nextFileLoop n j) := by
  induction n generalizing j with
  | zero => exact keeps_pure none
  | succ n ih =>
    unfold nextFileLoop
    split
    · refine keeps_bind (keeps_file _) fun f => keeps_ite (ih (j+1)) ?_
      exact keeps_bind (hR.updates _ _) fun _ => keeps_pure _
    · exact keeps_pure none

theorem refuse_historic (fd : Fd) (e : ℤ) : Keeps R (refuse fd e) :=
  keeps_bind (hR.updates fd _) fun _ => keeps_pure _

theorem openMissing_historic (fd : Fd) (flags : OpenFlags) (mode : ℕ) :
    Keeps R (openMissing E fd flags mode) := by
  have hrefuse (e : ℤ) := refuse_historic hR fd e
  refine keeps_bind keeps_fatfs fun g => keeps_ite (hrefuse _) (keeps_ite (hrefuse _) ?_)
  exact keeps_bind hR.time fun _ => keeps_bind (hR.updates fd _) fun _ => keeps_pure _

theorem openExisting_historic (fd : Fd) (flags : OpenFlags) (e : ℤ) :
    Keeps R (openExisting E fd flags e) := by
  have hrefuse (e : ℤ) := refuse_historic hR fd e
  have hdone : Keeps R (do updateFile fd fun f => { f with fileSector := 0 }
                           pure ((fd.val : ℤ),e) : FatM (ℤ × ℤ)) :=
    keeps_bind (hR.updates fd _) fun _ => keeps_pure _
  refine keeps_bind keeps_fatfs fun g => keeps_bind (keeps_file fd) fun f => ?_
  refine keeps_ite (hrefuse _) (keeps_ite hdone (keeps_ite (hrefuse _) (keeps_ite (hrefuse _) ?_)))
  refine keeps_ite (keeps_ite hdone (hrefuse _)) ?_
  exact keeps_bind (keeps_ite (truncateFile_local (hR.admits fd)) (keeps_pure ())) fun _ => hdone

theorem fatOpen_historic (name : List UInt8) (flags : OpenFlags) (mode : ℕ) (e : ℤ) :
    Keeps R (fatOpen E name flags mode e) := by
  refine keeps_bind (nextFileLoop_historic hR _ _) fun o => ?_
  cases o with
  | none => exact keeps_pure _
  | some fd =>
    refine keeps_bind (fatLookupPath_local (hR.admits fd) name e) fun p => ?_
    refine keeps_bind (hR.updates fd _) fun _ => keeps_ite (openMissing_historic hR fd flags mode) ?_
    refine keeps_ite (refuse_historic hR fd _) (keeps_ite ?_ (refuse_historic hR fd _))
    exact openExisting_historic hR fd flags _

/-! ### Calls on a descriptor -/

omit hR [IsTrans FatState R] in
theorem withFd_every {α : Type} {fd : ℕ} {bad : α} {x : Fd → FatM α} (h : ∀ fd, Keeps R (x fd)) :
    Keeps R (withFd fd bad x) := by
  unfold withFd
  split
  · exact h _
  · exact keeps_pure bad

theorem fatClose_historic (fd : ℕ) : Keeps R (fatClose E fd) := withFd_every (closeSlot_historic hR)

theorem fatRead_historic (fd n : ℕ) : Keeps R (fatRead E fd n) :=
  withFd_every fun fd => readSlot_local (hR.admits fd) n

theorem fatWrite_historic (fd : ℕ) (bytes : List UInt8) : Keeps R (fatWrite E fd bytes) :=
  withFd_every fun fd => writeSlot_local (hR.admits fd) bytes

theorem fatLseek_historic (fd : ℕ) (ptr : ℤ) (dir : Whence) : Keeps R (fatLseek E fd ptr dir) :=
  withFd_every fun fd => seekSlot_local (hR.admits fd) ptr dir

/-! ### Removing entries -/

theorem fatUnlink_historic (path : List UInt8) (e : ℤ) : Keeps R (fatUnlink E path e) := by
  refine keeps_bind (fatOpen_historic hR _ _ _ _) fun p => ?_
  dsimp only
  split
  · rename_i hfd
    have hclose := closeSlot_historic hR ⟨p.1.toNat,hfd.2⟩
    refine keeps_bind (keeps_bind (keeps_file _) fun _ => keeps_ite (keeps_pure _) (keeps_pure _)) fun q => ?_
    cases q.2.2 with
    | none => exact keeps_pure _
    | some st =>
      refine keeps_ite ?_ (keeps_bind (fatDelete_local (hR.admits _)) fun _ =>
        keeps_bind hclose fun _ => keeps_pure _)
      exact keeps_bind (hR.updates _ _) fun _ => keeps_bind hclose fun _ => keeps_pure _
  · exact keeps_pure _

theorem fatRmdir_historic (path : List UInt8) (e : ℤ) : Keeps R (fatRmdir E path e) := by
  refine keeps_bind (fatOpen_historic hR _ _ _ _) fun p => ?_
  dsimp only
  split
  · rename_i hfd
    have hclose := closeSlot_historic hR ⟨p.1.toNat,hfd.2⟩
    refine keeps_bind (rmdirLoop_keeps (fatRead_historic hR _ 32) _ _) fun q => keeps_ite ?_ ?_
    · exact keeps_bind hclose fun _ => keeps_pure _
    · exact keeps_bind (fatDelete_local (hR.admits _)) fun _ =>
        keeps_bind hclose fun q => keeps_ite (keeps_pure _) (keeps_pure _)
  · exact keeps_pure _

/-! ### Directories -/

theorem stampedDir_historic (filename : Fin 8 → UInt8) (c : ℕ) : Keeps R (stampedDir E filename c) :=
  keeps_bind hR.time fun _ => keeps_bind hR.time fun _ => keeps_bind hR.time fun _ =>
    keeps_bind hR.time fun _ => keeps_bind hR.time fun _ => keeps_bind hR.time fun _ => keeps_pure _

theorem seekEmptyLoop_historic (fd n : ℕ) : Keeps R (seekEmptyLoop E fd n) := by
  induction n with
  | zero => exact keeps_stop .fuel
  | succ n ih =>
    exact keeps_bind (fatRead_historic hR fd 32) fun p =>
      keeps_ite (keeps_pure _) (keeps_ite ih (keeps_pure _))

theorem writeZeroEntries_historic (fd n : ℕ) (e : ℤ) : Keeps R (writeZeroEntries E fd n e) := by
  induction n generalizing e with
  | zero => exact keeps_pure _
  | succ n ih => exact keeps_bind (fatWrite_historic hR fd _) fun p => keeps_ite (keeps_pure _) (ih p.2)

theorem abandon_historic (fd c : ℕ) : Keeps R (abandon E fd c) :=
  keeps_bind (fatClose_historic hR fd) fun _ => keeps_bind (hR.release c) fun _ => keeps_pure _

theorem mkdirFill_historic (path : List UInt8) (c parentCluster : ℕ) (e : ℤ) :
    Keeps R (mkdirFill E path c parentCluster e) := by
  refine keeps_bind (fatOpen_historic hR _ _ _ _) fun p => keeps_ite (keeps_pure _) ?_
  refine keeps_bind (stampedDir_historic hR _ _) fun _ => ?_
  refine keeps_bind (fatWrite_historic hR _ _) fun p => keeps_ite (keeps_pure _) ?_
  refine keeps_bind (fatWrite_historic hR _ _) fun p => keeps_ite (keeps_pure _) ?_
  refine keeps_bind keeps_fatfs fun g => ?_
  refine keeps_bind (writeZeroEntries_historic hR _ _ _) fun p => keeps_ite (keeps_pure _) ?_
  exact keeps_bind (fatClose_historic hR _) fun p => keeps_ite (keeps_pure _) (keeps_pure _)

theorem mkdirEnter_historic (path filename : List UInt8) (fd c parentCluster : ℕ) (e : ℤ) :
    Keeps R (mkdirEnter E path filename fd c parentCluster e) := by
  refine keeps_bind (fatLseek_historic hR _ _ _) fun p => keeps_ite (abandon_historic hR fd c) ?_
  refine keeps_bind (liftStop_keeps _) fun o => ?_
  cases o with
  | none => exact keeps_bind (hR.release c) fun _ => keeps_bind (fatClose_historic hR fd) fun _ => keeps_pure _
  | some name =>
    refine keeps_bind (stampedDir_historic hR _ _) fun _ => ?_
    refine keeps_bind (fatWrite_historic hR _ _) fun p => keeps_ite (keeps_pure _) ?_
    refine keeps_bind (fatWrite_historic hR _ _) fun p => keeps_ite (keeps_pure _) ?_
    exact keeps_bind (fatClose_historic hR fd) fun p =>
      keeps_ite (keeps_pure _) (mkdirFill_historic hR _ _ _ _)

theorem fatMkdir_historic (path : List UInt8) : Keeps R (fatMkdir E path) := by
  refine keeps_ite (keeps_pure _) (keeps_ite (keeps_pure _) ?_)
  refine keeps_bind (liftStop_keeps _) fun p => keeps_bind hR.allocate fun c => ?_
  refine keeps_ite (keeps_pure _) (keeps_bind (fatOpen_historic hR _ _ _ _) fun p => ?_)
  dsimp only
  split
  · refine keeps_bind (keeps_file _) fun f => keeps_bind (seekEmptyLoop_historic hR _ _) fun b => ?_
    exact keeps_ite (abandon_historic hR _ c) (mkdirEnter_historic hR _ _ _ _ _ _)
  · exact keeps_bind (hR.release c) fun _ => keeps_pure _

/-- Every call keeps what the operations on the device keep. -/
theorem exec_historic (c : Call) : Keeps R (c.exec E) := by
  cases c with
  | openPath path flags mode e => exact keeps_bind (fatOpen_historic hR _ _ _ _) fun _ => keeps_pure _
  | read fd n => exact keeps_bind (fatRead_historic hR fd n) fun _ => keeps_pure _
  | write fd bytes => exact keeps_bind (fatWrite_historic hR fd bytes) fun _ => keeps_pure _
  | lseek fd ptr dir => exact keeps_bind (fatLseek_historic hR fd ptr dir) fun _ => keeps_pure _
  | fstat fd =>
    refine keeps_bind (withFd_every fun fd => ?_) fun _ => keeps_pure _
    exact keeps_bind (keeps_file fd) fun _ => keeps_ite (keeps_pure _) (keeps_pure _)
  | getNextDirent fd =>
    exact keeps_bind (nextDirentLoop_keeps (fatRead_historic hR fd 32) _) fun _ => keeps_pure _
  | close fd => exact keeps_bind (fatClose_historic hR fd) fun _ => keeps_pure _
  | unlink path e => exact keeps_bind (fatUnlink_historic hR path e) fun _ => keeps_pure _
  | rmdir path e => exact keeps_bind (fatRmdir_historic hR path e) fun _ => keeps_pure _
  | mkdir path => exact keeps_bind (fatMkdir_historic hR path) fun _ => keeps_pure _

end Historic

end Gristle
